import FrameGraph.Proofs.CompileOutcome
import FrameGraph.Proofs.NodeLines

/-!
The body of the procedure of a tree. Main statement: it consists of the lines of the nodes in
evaluation order.
-/

namespace FrameGraph

theorem flatMap_eq_of_forall₂ {α β γ : Type} {related : α → β → Prop} {items : List α}
    {others : List β} {f : α → List γ} {g : β → List γ}
    (pairs : List.Forall₂ related items others)
    (same : ∀ item ∈ items, ∀ other, related item other → f item = g other) :
    items.flatMap f = others.flatMap g := by
  induction pairs with
  | nil => rfl
  | cons head tail ih =>
      rw [List.flatMap_cons, List.flatMap_cons, same _ List.mem_cons_self _ head,
        ih fun item member => same item (List.mem_cons_of_mem _ member)]

namespace Tree

variable {tree : Tree} {registry : Registry} {options : CompileOptions}

theorem WellFormed.body_linkNode (wellFormed : tree.WellFormed registry) {node : Node}
    (member : node ∈ tree.nodes) (distinct : (node.inputs.map (·.identifier)).Nodup)
    {compiled : CompiledNode} (done : Compile.compileNode tree registry node = .ok compiled) :
    (Linking.linkNode tree (Variables.ofTree tree) options compiled.assembled).body =
      tree.commentLines registry options node ++ tree.nodeLines registry node := by
  cases registered : registry.kind? node.kind with
  | none => simp [Compile.compileNode, registered] at done
  | some kind =>
      have lines := wellFormed.map_lineText_assemble member distinct
        (kind.code node (.ofNode tree node))
      simp only [Compile.compileNode, registered, Except.ok.injEq] at done
      subst done
      simp only [commentLines, nodeLines, registered, ← lines, List.isEmpty_map, Linking.linkNode,
        Linking.commentLine]
      cases Assembly.assemble node (kind.code node (.ofNode tree node)) with
      | nil => simp
      | cons first rest => simp

theorem map_node?_order {order : List String} (ordered : tree.evaluationOrder = .ok order) :
    order.map tree.node? = (order.filterMap tree.node?).map some := by
  have found : ∀ identifier ∈ order, ∃ node, tree.node? identifier = some node :=
    fun _ member => node?_of_mem_order ordered member
  clear ordered
  induction order with
  | nil => rfl
  | cons identifier rest ih =>
      obtain ⟨node, head⟩ := found identifier List.mem_cons_self
      have tail := ih fun other member => found other (List.mem_cons_of_mem _ member)
      rw [List.map_cons, List.filterMap_cons_some head, List.map_cons, head, tail]

theorem WellFormed.nodes_of_order (wellFormed : tree.WellFormed registry) {order : List String}
    (ordered : tree.evaluationOrder = .ok order) :
    (order.filterMap tree.node?).map (·.identifier) = order ∧
      (order.filterMap tree.node?).Perm tree.nodes := by
  have found : tree.identifiers.filterMap tree.node? = tree.nodes := by
    have each : ∀ node ∈ tree.nodes, tree.node? node.identifier = some node := fun node member =>
      find?_key wellFormed.distinct member
    rw [identifiers, List.filterMap_map]
    exact (List.filterMap_congr each).trans (List.filterMap_some)
  constructor
  · have named : ∀ identifier ∈ order,
        (tree.node? identifier).map (·.identifier) = some identifier := by
      intro identifier member
      obtain ⟨node, found⟩ := node?_of_mem_order ordered member
      rw [found, Option.map_some, (mem_of_node? found).2]
    rw [List.map_filterMap, List.filterMap_congr named, List.filterMap_some]
  · exact found ▸ (perm_of_evaluationOrder ordered).filterMap tree.node?

theorem WellFormed.eq_of_identifier (wellFormed : tree.WellFormed registry) {node other : Node}
    (member : node ∈ tree.nodes) (otherMember : other ∈ tree.nodes)
    (same : node.identifier = other.identifier) : node = other :=
  List.inj_on_of_nodup_map wellFormed.distinct member otherMember same

/-- The body of the procedure linked from the nodes of an order. -/
theorem WellFormed.body_link (wellFormed : tree.WellFormed registry)
    (distinct : ∀ node ∈ tree.nodes, (node.inputs.map (·.identifier)).Nodup) {order : List String}
    {compiled : List CompiledNode}
    (done : Compile.compileNodes tree registry order = .ok compiled) :
    (Linking.link tree options (compiled.map (·.assembled))).body =
      (order.filterMap tree.node?).flatMap fun node =>
        tree.commentLines registry options node ++ tree.nodeLines registry node := by
  have pairs := forall₂_of_mapM done
  rw [flatMap_eq_of_forall₂ (g := fun node =>
    (Linking.linkNode tree (Variables.ofTree tree) options node.assembled).body) pairs ?_]
  · simp [Linking.link, List.flatMap_map]
  · intro node member other compiledOne
    obtain ⟨identifier, -, found⟩ := List.mem_filterMap.mp member
    have inside := (mem_of_node? found).1
    exact (wellFormed.body_linkNode inside (distinct node inside) compiledOne).symm

/-- The body of a procedure holds the lines of the nodes in evaluation order, below their comments
if these are asked for. The lines of inline code are those of the code itself: replacing names
neither adds a newline nor takes one away. -/
theorem compile_body {compiled : Compiled}
    (distinct : ∀ node ∈ tree.nodes, (node.inputs.map (·.identifier)).Nodup)
    (done : tree.compile registry options = .ok compiled) :
    ∃ (order : List String) (nodes : List Node),
      tree.evaluationOrder = .ok order ∧ order.map tree.node? = nodes.map some ∧
      compiled.procedure.body =
        (nodes.flatMap fun node =>
          tree.commentLines registry options node ++ tree.nodeLines registry node) ∧
      ∀ node ∈ nodes, ∀ code : String,
        (Lexeme.rewrite (tree.replacement node) code).toList.count '\n' =
          code.toList.count '\n' := by
  obtain ⟨wellFormed, order, compiledNodes, ordered, compiledAll, rfl⟩ := compile_ok done
  have found : ∀ node ∈ order.filterMap tree.node?, node ∈ tree.nodes := by
    intro node member
    obtain ⟨identifier, -, found⟩ := List.mem_filterMap.mp member
    exact (mem_of_node? found).1
  refine ⟨order, order.filterMap tree.node?, ordered, map_node?_order ordered, ?_, ?_⟩
  · have pairs := forall₂_of_mapM compiledAll
    rw [flatMap_eq_of_forall₂ (g := fun node =>
      (Linking.linkNode tree (Variables.ofTree tree) options node.assembled).body) pairs ?_]
    · simp [Linking.link, List.flatMap_map]
    · intro node member other compiledOne
      exact (wellFormed.body_linkNode (found node member) (distinct node (found node member))
        compiledOne).symm
  · intro node member code
    exact Lexeme.count_newline_rewrite
      (fun _ single => wellFormed.isLine_replacement (found node member) single) code

end Tree

def Registry.sourceAndSum : Registry :=
  .ofKinds
    [{ declaration := .named "source" "Source"
       create := id
       code := fun _ _ => .procedure },
     { declaration := .named "sum" "Sum"
       create := id
       code := fun _ _ => .raw (.single "total = value + offset\nself.total = total") }]

def Tree.sumOfSource : Tree where
  name := "sum"
  nodes :=
    [(((Node.ofKind "t" "sum").addInput (.ofType .integer "Value" "value")).addInput
        (.ofType .integer "Offset" "offset")).addOutput (.ofType .integer "Total" "total"),
      (Node.ofKind "s" "source").addOutput (.ofType .integer "Value" "value")]
  links := [⟨"s", "value", "t", "value"⟩]
  metadata := ⟨"", "", ""⟩
  revision := 0

/-- The linked input is the variable of the output, the other one its literal, and the name after
the dot stays. -/
theorem Tree.compile_body_sumOfSource :
    ∃ compiled, sumOfSource.compile .sourceAndSum .default = .ok compiled ∧
      compiled.procedure.body =
        ["# Source (s)", "s_value = s.execute()", "# Sum (t)", "t_total = s_value + 0",
          "t.total = t_total"] ∧
      ∃ (order : List String) (nodes : List Node),
        sumOfSource.evaluationOrder = .ok order ∧ order.map sumOfSource.node? = nodes.map some ∧
        compiled.procedure.body =
          (nodes.flatMap fun node => sumOfSource.commentLines .sourceAndSum .default node ++
            sumOfSource.nodeLines .sourceAndSum node) ∧
        ∀ node ∈ nodes, ∀ code : String,
          (Lexeme.rewrite (sumOfSource.replacement node) code).toList.count '\n' =
            code.toList.count '\n' := by
  have body : (sumOfSource.compile .sourceAndSum .default).toOption.map (·.procedure.body) =
      some ["# Source (s)", "s_value = s.execute()", "# Sum (t)", "t_total = s_value + 0",
        "t.total = t_total"] := by
    decide +kernel
  cases done : sumOfSource.compile .sourceAndSum .default with
  | error error =>
      rw [done] at body
      contradiction
  | ok compiled =>
      rw [done] at body
      exact ⟨compiled, rfl, Option.some.inj body, compile_body (by decide) done⟩

end FrameGraph
