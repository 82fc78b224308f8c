import FrameGraph.Proofs.ProcedureBody

/-!
The setup and the body of a procedure, node by node. Main statement: in evaluation order, every node
adds a line that binds its variable if its code refers to the node, a comment if comments are asked
for, and its lines of code, which hold no newline.
-/

namespace FrameGraph

theorem Text.isLine_join {parts : List String} (each : ∀ part ∈ parts, IsLine part) :
    IsLine (String.join parts) := by
  induction parts with
  | nil => simp [IsLine]
  | cons first rest ih =>
      rw [String.join_cons, isLine_append]
      exact ⟨each first List.mem_cons_self,
        ih fun part member => each part (List.mem_cons_of_mem _ member)⟩

theorem Assembly.mem_commaSeparated {tokens : List Token} {token : Token}
    (member : token ∈ commaSeparated tokens) : token = .text ", " ∨ token ∈ tokens := by
  unfold commaSeparated at member
  induction tokens with
  | nil => simp at member
  | cons first rest ih =>
      cases rest with
      | nil => exact .inr (by simpa using member)
      | cons second rest =>
          rw [List.intersperse_cons_cons, List.mem_cons, List.mem_cons] at member
          rcases member with rfl | rfl | member
          · exact .inr List.mem_cons_self
          · exact .inl rfl
          · exact (ih member).imp_right (List.mem_cons_of_mem _)

namespace Tree

def fragments (tree : Tree) (registry : Registry) (node : Node) : List Fragment :=
  match registry.kind? node.kind with
  | some kind => Assembly.assemble node (kind.code node (.ofNode tree node))
  | none => []

def refersToSelf (tree : Tree) (registry : Registry) (node : Node) : Bool :=
  (tree.fragments registry node).any (·.usesSelf)

def bindingLine (tree : Tree) (node : Node) : String :=
  tree.nodeVariable node.identifier ++ " = nodes[\"" ++ node.identifier ++ "\"]"

def setupLines (tree : Tree) (registry : Registry) (node : Node) : List String :=
  if tree.refersToSelf registry node then [tree.bindingLine node] else []

/-- The lines of a node with the names resolved, also where sockets share an identifier. -/
def codeLines (tree : Tree) (registry : Registry) (node : Node) : List String :=
  (tree.fragments registry node).map (Linking.lineText tree (Variables.ofTree tree) node)

variable {tree : Tree} {registry : Registry} {options : CompileOptions} {node : Node}

theorem fragments_of_kind? {kind : Kind} (registered : registry.kind? node.kind = some kind) :
    tree.fragments registry node = Assembly.assemble node (kind.code node (.ofNode tree node)) := by
  rw [fragments, registered]

theorem WellFormed.isEmpty_nodeLines (wellFormed : tree.WellFormed registry)
    (member : node ∈ tree.nodes) :
    (tree.nodeLines registry node).isEmpty = (tree.fragments registry node).isEmpty := by
  obtain ⟨kind, registered⟩ := wellFormed.registered node member
  rw [fragments_of_kind? registered]
  simp only [nodeLines, registered]
  cases kind.code node (.ofNode tree node) with
  | procedure => rfl
  | raw code => rw [← wellFormed.map_lineText_rawLines member code, List.isEmpty_map]; rfl

theorem isLine_outputText (member : node ∈ tree.nodes) {socket : Socket}
    (inside : socket ∈ node.outputs) :
    Text.IsLine
      (Linking.tokenText tree (Variables.ofTree tree) node (.output socket.identifier)) := by
  have found := output?_outputVariable member inside
  simpa [Linking.tokenText, found] using (Variables.isName_of_output? found).isLine

theorem WellFormed.isLine_inputText (wellFormed : tree.WellFormed registry)
    (member : node ∈ tree.nodes) {socket : Socket} (inside : socket ∈ node.inputs) :
    Text.IsLine
      (Linking.tokenText tree (Variables.ofTree tree) node (.input socket.identifier)) := by
  obtain ⟨first, found⟩ : ∃ first, node.input? socket.identifier = some first := by
    rw [← Option.isSome_iff_exists, ← Node.hasInput_eq_isSome, Node.hasInput_iff]
    exact List.mem_map_of_mem inside
  rw [Linking.tokenText, wellFormed.inputText_eq member found]
  exact wellFormed.isLine_inputValue first

theorem isLine_selfText (member : node ∈ tree.nodes) :
    Text.IsLine (Linking.tokenText tree (Variables.ofTree tree) node .self) := by
  have found := node?_nodeVariable member
  simpa [Linking.tokenText, Linking.nodeVariable, found] using
    (Variables.isName_of_node? found).isLine

theorem WellFormed.isLine_procedureCall (wellFormed : tree.WellFormed registry)
    (member : node ∈ tree.nodes) :
    Text.IsLine
      (Linking.lineText tree (Variables.ofTree tree) node (Assembly.procedureCall node)) := by
  have text {s : String} (line : Text.IsLine s) :
      Text.IsLine (Linking.tokenText tree (Variables.ofTree tree) node (.text s)) := line
  change Text.IsLine ((Assembly.procedureCall node).render _)
  rw [Assembly.procedureCall, Fragment.render_ofTokens (tokenText_keepsText _)]
  apply Text.isLine_join
  intro part written
  obtain ⟨token, inside, rfl⟩ := List.mem_map.mp written
  simp only [List.mem_append, List.mem_cons, List.not_mem_nil, or_false] at inside
  rcases inside with (((listed | equals) | rfl | rfl) | listed) | rfl
  · rcases Assembly.mem_commaSeparated listed with rfl | listed
    · exact text (by decide)
    · obtain ⟨socket, inside, rfl⟩ := List.mem_map.mp listed
      exact isLine_outputText member inside
  · split at equals
    · contradiction
    · obtain rfl := List.mem_singleton.mp equals
      exact text (by decide)
  · exact isLine_selfText member
  · exact text (by decide)
  · rcases Assembly.mem_commaSeparated listed with rfl | listed
    · exact text (by decide)
    · obtain ⟨socket, inside, rfl⟩ := List.mem_map.mp listed
      exact wellFormed.isLine_inputText member inside
  · exact text (by decide)

theorem WellFormed.isLine_codeLines (wellFormed : tree.WellFormed registry)
    (member : node ∈ tree.nodes) : ∀ line ∈ tree.codeLines registry node, Text.IsLine line := by
  obtain ⟨kind, registered⟩ := wellFormed.registered node member
  rw [codeLines, fragments_of_kind? registered]
  intro line written
  cases contribution : kind.code node (.ofNode tree node) with
  | procedure =>
      rw [contribution] at written
      obtain rfl := List.mem_singleton.mp written
      exact wellFormed.isLine_procedureCall member
  | raw code =>
      rw [contribution, Assembly.assemble, wellFormed.map_lineText_rawLines member code,
        contributionLines] at written
      split at written
      · contradiction
      · exact Text.isLine_of_mem_lines written

/-- What a node adds to the procedure. -/
theorem WellFormed.lines_linkNode (wellFormed : tree.WellFormed registry)
    (options : CompileOptions) (member : node ∈ tree.nodes) {compiled : CompiledNode}
    (done : Compile.compileNode tree registry node = .ok compiled) :
    (Linking.linkNode tree (Variables.ofTree tree) options compiled.assembled).setup =
        tree.setupLines registry node ∧
      (Linking.linkNode tree (Variables.ofTree tree) options compiled.assembled).body =
        tree.commentLines registry options node ++ tree.codeLines registry node := by
  obtain ⟨kind, registered⟩ := wellFormed.registered node member
  have written := wellFormed.isEmpty_nodeLines member
  have named : Linking.nodeVariable (Variables.ofTree tree) node =
      tree.nodeVariable node.identifier := by
    simp [Linking.nodeVariable, node?_nodeVariable member]
  simp only [Compile.compileNode, registered, Except.ok.injEq] at done
  subst done
  simp only [setupLines, refersToSelf, bindingLine, commentLines, codeLines, registered, written,
    fragments_of_kind? registered, Linking.linkNode, Linking.setupLine, Linking.commentLine,
    Procedure.nodesArgument, named]
  cases Assembly.assemble node (kind.code node (.ofNode tree node)) with
  | nil => simp
  | cons first rest => simp [String.append_assoc]

/-- The setup and the body of a procedure hold what the nodes add, in evaluation order. -/
theorem compile_lines {compiled : Compiled} (done : tree.compile registry options = .ok compiled) :
    ∃ (order : List String) (nodes : List Node), tree.evaluationOrder = .ok order ∧
      order.map tree.node? = nodes.map some ∧ nodes.Perm tree.nodes ∧
      compiled.procedure.setup = nodes.flatMap (tree.setupLines registry) ∧
      compiled.procedure.body = nodes.flatMap fun node =>
        tree.commentLines registry options node ++ tree.codeLines registry node := by
  obtain ⟨wellFormed, order, compiledNodes, ordered, compiledAll, rfl⟩ := compile_ok done
  obtain ⟨-, perm⟩ := wellFormed.nodes_of_order ordered
  have pairs := forall₂_of_mapM compiledAll
  have each {item : Node} (member : item ∈ order.filterMap tree.node?) {other : CompiledNode}
      (one : Compile.compileNode tree registry item = .ok other) :=
    wellFormed.lines_linkNode options (perm.subset member) one
  refine ⟨order, order.filterMap tree.node?, ordered, map_node?_order ordered, perm, ?_, ?_⟩
  · rw [flatMap_eq_of_forall₂ (g := fun node =>
      (Linking.linkNode tree (Variables.ofTree tree) options node.assembled).setup) pairs
      fun item member other one => (each member one).1.symm]
    simp [Linking.link, List.flatMap_map]
  · rw [flatMap_eq_of_forall₂ (g := fun node =>
      (Linking.linkNode tree (Variables.ofTree tree) options node.assembled).body) pairs
      fun item member other one => (each member one).2.symm]
    simp [Linking.link, List.flatMap_map]

end Tree

end FrameGraph
