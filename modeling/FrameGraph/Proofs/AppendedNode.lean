import FrameGraph.Proofs.DistinctVariables
import FrameGraph.Proofs.ProcedureBody
import FrameGraph.Tree.Edit
import Mathlib.Data.List.Sort

/-!
Nodes appended to a tree. Main statement: a node that is not linked yet goes last and takes no name
from another, so what the tree compiles to stays, followed by what the node adds.
-/

namespace FrameGraph

namespace Schedule

section Appended

variable {size : Nat} {edges : List (Nat × Nat)} {taken degrees ready counts idle : List Nat}

theorem Invariant.ready_succ (inv : Invariant size edges taken degrees ready)
    (wider : Invariant (size + 1) edges taken counts idle)
    (bounded : ∀ edge ∈ edges, edge.2 < size) : idle = ready ++ [size] := by
  have free : waiting edges taken size = 0 := by
    rw [waiting_eq_zero_iff]
    intro a edge
    exact absurd (bounded _ edge) (Nat.lt_irrefl size)
  have left : size ∉ taken := fun member => Nat.lt_irrefl size (inv.lt_size size member)
  have sorted : (ready ++ [size]).Pairwise (· < ·) := by
    refine List.pairwise_append.mpr ⟨inv.sorted, List.pairwise_singleton _ _, ?_⟩
    intro i member last only
    rw [List.mem_singleton.mp only]
    exact ((inv.mem_ready i).mp member).1
  refine wider.sorted.eq_of_mem_iff sorted fun i => ?_
  rw [wider.mem_ready, List.mem_append, inv.mem_ready, List.mem_singleton]
  constructor
  · rintro ⟨inside, absent, zero⟩
    rcases Nat.lt_succ_iff_lt_or_eq.mp inside with inside | last
    · exact .inl ⟨inside, absent, zero⟩
    · exact .inr last
  · rintro (⟨inside, absent, zero⟩ | rfl)
    · exact ⟨Nat.lt_succ_of_lt inside, absent, zero⟩
    · exact ⟨Nat.lt_succ_self _, left, free⟩

/-- Two runs side by side: the last position is ready in every round of the one and taken when
nothing else is left. -/
theorem Invariant.run_succ (fuel : Nat) (inv : Invariant size edges taken degrees ready)
    (wider : Invariant (size + 1) edges taken counts idle)
    (bounded : ∀ edge ∈ edges, edge.1 < size ∧ edge.2 < size)
    (enough : size ≤ fuel + taken.length) :
    (Schedule.run edges (fuel + 1) counts idle).1 =
      (Schedule.run edges fuel degrees ready).1 ++ [size] := by
  have targets_size : (edges.filter (·.1 = size)).map (·.2) = [] := by
    rw [List.map_eq_nil_iff, List.filter_eq_nil_iff]
    intro edge member source
    have := (bounded edge member).1
    simp only [decide_eq_true_eq] at source
    omega
  have last (rest : Nat) (counts : List Nat) :
      (Schedule.run edges (rest + 1) counts [size]).1 = [size] := by
    cases rest <;> simp [Schedule.run, targets_size, release]
  have targetsInside : ∀ edge ∈ edges, edge.2 < size := fun edge member => (bounded edge member).2
  induction fuel generalizing taken degrees ready counts idle with
  | zero =>
      obtain rfl := inv.ready_succ wider targetsInside
      cases ready with
      | nil => exact last 0 counts
      | cons current ready =>
          have := inv.length_lt
          omega
  | succ fuel ih =>
      obtain rfl := inv.ready_succ wider targetsInside
      cases ready with
      | nil => exact last (fuel + 1) counts
      | cons current ready =>
          have wide : ∀ edge ∈ edges, edge.2 < size + 1 :=
            fun edge member => Nat.lt_succ_of_lt (targetsInside edge member)
          exact congrArg (current :: ·)
            (ih (inv.step targetsInside) (wider.step wide) (by simp; omega))

theorem ofEdges_succ (bounded : ∀ edge ∈ edges, edge.1 < size ∧ edge.2 < size) :
    (ofEdges (size + 1) edges).1 = (ofEdges size edges).1 ++ [size] := by
  have inside : ∀ edge ∈ edges, edge.2 < size := fun edge member => (bounded edge member).2
  have wide : ∀ edge ∈ edges, edge.2 < size + 1 :=
    fun edge member => Nat.lt_succ_of_lt (inside edge member)
  exact (Invariant.init inside).run_succ size (.init wide) bounded (Nat.le_add_right _ _)

end Appended

end Schedule

theorem Imports.modules_append (first second : List String) :
    modules (first ++ second) =
      modules first ++ modules (second.filter (· ∉ modules first)) := by
  rw [modules, List.filter_append, List.eraseDups_append, modules, modules]
  congr 2
  rw [List.removeAll, List.filter_filter, List.filter_filter]
  refine List.filter_congr fun module _ => ?_
  by_cases empty : module = "" <;> simp [empty]

/-- The procedure with what one more node adds, behind all that is there. -/
def Procedure.followedBy (procedure : Procedure) (added : LinkedNode) : Procedure :=
  { procedure with
    modules := procedure.modules ++
      Imports.modules (added.modules.filter (· ∉ procedure.modules))
    setup := procedure.setup ++ added.setup
    body := procedure.body ++ added.body }

namespace Variables

def Key.owner : Key → String
  | .node identifier => identifier
  | .output owner _ => owner

theorem nameNodes_append (nodes others : List Node) (used : List String) :
    ∃ taken, nameNodes (nodes ++ others) used =
      ⟨(nameNodes nodes used).nodes ++ (nameNodes others taken).nodes,
        (nameNodes nodes used).outputs ++ (nameNodes others taken).outputs⟩ := by
  induction nodes generalizing used with
  | nil => exact ⟨used, rfl⟩
  | cons node nodes ih =>
      obtain ⟨taken, named⟩ := ih (nameOutputs node.identifier
        (freeName used (sanitize node.identifier)) node.outputs
        (freeName used (sanitize node.identifier) :: used)).2
      exact ⟨taken, by simp [nameNodes, named]⟩

theorem lookup_reverse_append {key : Type} [BEq key] [LawfulBEq key]
    {entries others : List (key × String)} {k : key} (absent : k ∉ others.map (·.1)) :
    (entries ++ others).reverse.lookup k = entries.reverse.lookup k := by
  have none : others.reverse.lookup k = none := by
    rw [List.lookup_eq_none_iff]
    intro entry member
    rw [bne_iff_ne]
    rintro rfl
    exact absent (List.mem_map_of_mem (List.mem_reverse.mp member))
  rw [List.reverse_append, List.lookup_append, none, Option.none_or]

theorem name?_addNode {tree : Tree} {node : Node} (stamp : Stamp) (key : Key)
    (other : key.owner ≠ node.identifier) :
    (ofTree (tree.addNode node stamp)).name? key = (ofTree tree).name? key := by
  obtain ⟨taken, named⟩ := nameNodes_append tree.nodes [node] []
  have names : ofTree (tree.addNode node stamp) = nameNodes (tree.nodes ++ [node]) [] := rfl
  obtain ⟨nodes, outputs⟩ := nameNodes_keys [node] taken
  rw [names, named]
  cases key with
  | node identifier =>
      refine lookup_reverse_append ?_
      rw [nodes]
      exact List.not_mem_cons_of_ne_of_not_mem other List.not_mem_nil
  | output identifier socket =>
      refine lookup_reverse_append ?_
      rw [outputs]
      simp only [List.flatMap_cons, List.flatMap_nil, List.append_nil, List.mem_map, Prod.mk.injEq]
      rintro ⟨-, -, same, -⟩
      exact other same.symm

theorem owner_mem {tree : Tree} {key : Key} {name : String}
    (found : (ofTree tree).name? key = some name) : key.owner ∈ tree.identifiers := by
  obtain ⟨nodes, outputs⟩ := nameNodes_keys tree.nodes []
  cases key with
  | node identifier =>
      have member : identifier ∈ (ofTree tree).nodes.map (·.1) :=
        List.mem_map.mpr ⟨_, mem_of_lookup_reverse found, rfl⟩
      rwa [ofTree, nodes] at member
  | output identifier socket =>
      have member : (identifier, socket) ∈ (ofTree tree).outputs.map (·.1) :=
        List.mem_map.mpr ⟨_, mem_of_lookup_reverse found, rfl⟩
      rw [ofTree, outputs] at member
      obtain ⟨node, inside, member⟩ := List.mem_flatMap.mp member
      obtain ⟨output, -, same⟩ := List.mem_map.mp member
      exact List.mem_map.mpr ⟨node, inside, (Prod.ext_iff.mp same).1⟩

end Variables

namespace Tree

variable {tree : Tree} {node : Node} {identifier : String} {stamp : Stamp} {registry : Registry}
variable {options : CompileOptions}

theorem identifiers_addNode :
    (tree.addNode node stamp).identifiers = tree.identifiers ++ [node.identifier] := by
  simp [identifiers, addNode, touch]

theorem node?_addNode (other : identifier ≠ node.identifier) :
    (tree.addNode node stamp).node? identifier = tree.node? identifier := by
  have unnamed : [node].find? (fun n => n.identifier = identifier) = none := by
    simp [other.symm]
  simp only [node?, addNode, touch, List.find?_append, unnamed, Option.or_none]

theorem node?_addNode_self (fresh : node.identifier ∉ tree.identifiers) :
    (tree.addNode node stamp).node? node.identifier = some node := by
  have absent : tree.nodes.find? (fun n => n.identifier = node.identifier) = none := by
    rw [List.find?_eq_none]
    intro other member
    rw [decide_eq_true_eq]
    intro same
    exact fresh (same ▸ List.mem_map_of_mem member)
  simp [node?, addNode, touch, List.find?_append, absent]

theorem nodup_identifiers_addNode (distinct : tree.identifiers.Nodup)
    (fresh : node.identifier ∉ tree.identifiers) :
    (tree.addNode node stamp).identifiers.Nodup := by
  rw [identifiers_addNode]
  exact distinct.append (List.nodup_singleton _) (List.disjoint_singleton.mpr fresh)

theorem WellFormed.addNode (wellFormed : tree.WellFormed registry) (named : node.identifier ≠ "")
    (registered : registry.contains node.kind) (fresh : node.identifier ∉ tree.identifiers) :
    (tree.addNode node stamp).WellFormed registry := by
  have inside : tree.nodes ⊆ (tree.addNode node stamp).nodes := List.subset_append_left _ _
  refine ⟨?_, nodup_identifiers_addNode wellFormed.distinct fresh, ?_, ?_, ?_, wellFormed.single⟩
  · exact List.forall_mem_append.mpr ⟨wellFormed.identified, by simpa using named⟩
  · refine List.forall_mem_append.mpr ⟨wellFormed.registered, ?_⟩
    simpa [Registry.contains, Option.isSome_iff_exists] using registered
  · intro link member
    obtain ⟨source, source_mem, found⟩ := wellFormed.sources link member
    exact ⟨source, inside source_mem, found⟩
  · intro link member
    obtain ⟨target, target_mem, found⟩ := wellFormed.targets link member
    exact ⟨target, inside target_mem, found⟩

/-! The order -/

theorem lastIndex?_addNode (distinct : tree.identifiers.Nodup)
    (fresh : node.identifier ∉ tree.identifiers) (member : identifier ∈ tree.identifiers) :
    (tree.addNode node stamp).lastIndex? identifier = tree.lastIndex? identifier := by
  rw [(lastIndex?_eq_some_iff distinct).mpr ⟨member, rfl⟩,
    lastIndex?_eq_some_iff (nodup_identifiers_addNode distinct fresh), position,
    identifiers_addNode]
  exact ⟨List.mem_append_left _ member, List.idxOf_append_of_mem member⟩

theorem WellFormed.edges_addNode (wellFormed : tree.WellFormed registry)
    (fresh : node.identifier ∉ tree.identifiers) :
    (tree.addNode node stamp).edges = tree.edges := by
  refine List.filterMap_congr fun link member => ?_
  obtain ⟨source, target, -⟩ := wellFormed.feeds member
  rw [lastIndex?_addNode wellFormed.distinct fresh source,
    lastIndex?_addNode wellFormed.distinct fresh target]

/-- The appended node goes last, whatever the others wait for. -/
theorem WellFormed.evaluationOrder_addNode (wellFormed : tree.WellFormed registry)
    (fresh : node.identifier ∉ tree.identifiers) {order : List String}
    (ordered : tree.evaluationOrder = .ok order) :
    (tree.addNode node stamp).evaluationOrder = .ok (order ++ [node.identifier]) := by
  obtain ⟨complete, rfl⟩ := order_of_evaluationOrder ordered
  have all := tree.invariant_edges.length_eq_iff.mpr complete
  have size : (tree.addNode node stamp).nodes.length = tree.nodes.length + 1 := List.length_append
  rw [evaluationOrder_eq, size, wellFormed.edges_addNode fresh,
    Schedule.ofEdges_succ tree.bounded_edges, List.length_append, all, List.length_singleton,
    if_pos rfl, identifiersAt_eq, identifiersAt_eq, identifiers_addNode, List.filterMap_append]
  congr 2
  · refine List.filterMap_congr fun i member => ?_
    rw [List.getElem?_append_left]
    rw [length_identifiers]
    exact tree.invariant_edges.lt_size i member
  · simp [← length_identifiers]

/-! Types, sources and names -/

theorem WellFormed.ne_fresh (wellFormed : tree.WellFormed registry)
    (fresh : node.identifier ∉ tree.identifiers) {link : Link} (member : link ∈ tree.links) :
    link.fromNode ≠ node.identifier ∧ link.toNode ≠ node.identifier := by
  obtain ⟨source, target, -⟩ := wellFormed.feeds member
  exact ⟨fun same => fresh (same ▸ source), fun same => fresh (same ▸ target)⟩

theorem WellFormed.typeProblems_addNode (wellFormed : tree.WellFormed registry)
    (fresh : node.identifier ∉ tree.identifiers) :
    (tree.addNode node stamp).typeProblems = tree.typeProblems := by
  refine List.filterMap_congr fun link member => ?_
  obtain ⟨source, target⟩ := wellFormed.ne_fresh fresh member
  rw [typeProblem?, typeProblem?, node?_addNode source, node?_addNode target]

theorem inputSource?_addNode (other : identifier ≠ node.identifier) (socket : String) :
    (tree.addNode node stamp).inputSource? identifier socket =
      tree.inputSource? identifier socket := by
  have nodes : (tree.nodes ++ [node]).filter (·.identifier = identifier) =
      tree.nodes.filter (·.identifier = identifier) := by
    simp [List.filter_append, other.symm]
  simp only [inputSource?, addNode, touch, nodes]

theorem WellFormed.source_ne_fresh (wellFormed : tree.WellFormed registry)
    (fresh : node.identifier ∉ tree.identifiers) {socket source output : String}
    (found : tree.inputSource? identifier socket = some (.output source output)) :
    source ≠ node.identifier := by
  unfold inputSource? at found
  split at found
  · rename_i link linked
    have member := List.mem_reverse.mp (List.mem_of_find?_eq_some linked)
    cases found
    exact (wellFormed.ne_fresh fresh member).1
  · obtain ⟨_, -, same⟩ := Option.map_eq_some_iff.mp found
    contradiction

theorem WellFormed.linkNode_addNode (wellFormed : tree.WellFormed registry)
    (fresh : node.identifier ∉ tree.identifiers) {assembled : AssembledNode}
    (member : assembled.node ∈ tree.nodes) :
    Linking.linkNode (tree.addNode node stamp) (Variables.ofTree (tree.addNode node stamp)) options
      assembled = Linking.linkNode tree (Variables.ofTree tree) options assembled := by
  have other : assembled.node.identifier ≠ node.identifier :=
    fun same => fresh (same ▸ List.mem_map_of_mem member)
  refine Linking.linkNode_congr options (fun name => ?_) ?_ fun socket => ?_
  · rw [Linking.inputText, Linking.inputText, inputSource?_addNode other]
    cases found : tree.inputSource? assembled.node.identifier name with
    | none => rfl
    | some source =>
        cases source with
        | literal => rfl
        | output source socket =>
            have same : (Variables.ofTree (tree.addNode node stamp)).output? source socket =
                (Variables.ofTree tree).output? source socket :=
              Variables.name?_addNode stamp (.output source socket)
                (wellFormed.source_ne_fresh fresh found)
            simp only [same]
  · exact Variables.name?_addNode stamp (.node _) other
  · exact Variables.name?_addNode stamp (.output _ socket) other

/-! The result -/

theorem node_of_compileNode {compiled : CompiledNode}
    (done : Compile.compileNode tree registry node = .ok compiled) :
    compiled.assembled.node = node := by
  cases registered : registry.kind? node.kind with
  | none => simp [Compile.compileNode, registered] at done
  | some kind =>
      simp only [Compile.compileNode, registered, Except.ok.injEq] at done
      rw [← done]

theorem nodes_of_compileNodes {order : List String} {nodes : List CompiledNode}
    (done : Compile.compileNodes tree registry order = .ok nodes) :
    nodes.map (·.assembled.node) = order.filterMap tree.node? := by
  have each : (order.filterMap tree.node?).map id = nodes.map (·.assembled.node) :=
    map_eq_of_forall₂ (forall₂_of_mapM done)
      fun _ _ _ _ compiled => (node_of_compileNode compiled).symm
  rw [← each, List.map_id]

theorem compileNodes_addNode (fresh : node.identifier ∉ tree.identifiers) {order : List String}
    (ordered : tree.evaluationOrder = .ok order) {nodes : List CompiledNode} {added : CompiledNode}
    (done : Compile.compileNodes tree registry order = .ok nodes)
    (own : Compile.compileNode tree registry node = .ok added) :
    Compile.compileNodes (tree.addNode node stamp) registry (order ++ [node.identifier]) =
      .ok (nodes ++ [added]) := by
  have context : Compile.compileNode (tree.addNode node stamp) registry =
      Compile.compileNode tree registry := rfl
  have found : order.filterMap (tree.addNode node stamp).node? = order.filterMap tree.node? := by
    refine List.filterMap_congr fun identifier member => node?_addNode ?_
    rintro rfl
    exact fresh ((perm_of_evaluationOrder ordered).mem_iff.mp member)
  have last : [node.identifier].filterMap (tree.addNode node stamp).node? = [node] := by
    simp [node?_addNode_self fresh]
  rw [Compile.compileNodes] at done
  rw [Compile.compileNodes, context, List.filterMap_append, found, last, List.mapM_append, done,
    List.mapM_cons, own]
  rfl

def linkedNode (tree : Tree) (registry : Registry) (options : CompileOptions) (node : Node) :
    LinkedNode :=
  match Compile.compileNode tree registry node with
  | .ok compiled => Linking.linkNode tree (Variables.ofTree tree) options compiled.assembled
  | .error _ => ⟨[], [], []⟩

theorem WellFormed.link_addNode (wellFormed : tree.WellFormed registry)
    (fresh : node.identifier ∉ tree.identifiers) {nodes : List AssembledNode}
    (inside : ∀ assembled ∈ nodes, assembled.node ∈ tree.nodes) (added : AssembledNode) :
    Linking.link (tree.addNode node stamp) options (nodes ++ [added]) =
      (Linking.link tree options nodes).followedBy
        (Linking.linkNode (tree.addNode node stamp) (Variables.ofTree (tree.addNode node stamp))
          options added) := by
  have same : nodes.map (Linking.linkNode (tree.addNode node stamp)
      (Variables.ofTree (tree.addNode node stamp)) options) =
      nodes.map (Linking.linkNode tree (Variables.ofTree tree) options) :=
    List.map_congr_left fun assembled member => wellFormed.linkNode_addNode fresh (inside _ member)
  simp only [Linking.link, Procedure.followedBy, List.map_append, same, List.flatMap_append,
    List.map_singleton, List.flatMap_singleton, Imports.modules_append]
  rfl

/-- A node that is appended without links leaves everything in its place: the tree still compiles,
the order, the lines and the imports go on where they ended, no variable is renamed, and nothing
else is warned of. -/
theorem compile_addNode {compiled : Compiled} (done : tree.compile registry options = .ok compiled)
    (named : node.identifier ≠ "") (fresh : node.identifier ∉ tree.identifiers)
    (registered : registry.contains node.kind) (stamp : Stamp) :
    let extended := tree.addNode node stamp
    (∃ result, extended.compile registry options = .ok result ∧
      result.procedure =
        compiled.procedure.followedBy (extended.linkedNode registry options node) ∧
      result.warnings = compiled.warnings) ∧
    (∃ order, tree.evaluationOrder = .ok order ∧
      extended.evaluationOrder = .ok (order ++ [node.identifier])) ∧
    ∀ key name, (Variables.ofTree tree).name? key = some name →
      (Variables.ofTree extended).name? key = some name := by
  intro extended
  obtain ⟨wellFormed, order, nodes, ordered, compiledNodes, rfl⟩ := compile_ok done
  have orderedExtended : extended.evaluationOrder = .ok (order ++ [node.identifier]) :=
    wellFormed.evaluationOrder_addNode fresh ordered
  refine ⟨?_, ⟨order, ordered, orderedExtended⟩, ?_⟩
  · have wellFormedExtended : extended.WellFormed registry :=
      wellFormed.addNode named registered fresh
    obtain ⟨added, own⟩ : ∃ added, Compile.compileNode tree registry node = .ok added := by
      obtain ⟨kind, found⟩ := Option.isSome_iff_exists.mp registered
      exact ⟨_, by rw [Compile.compileNode, found]⟩
    have compiledExtended : Compile.compileNodes extended registry (order ++ [node.identifier]) =
        .ok (nodes ++ [added]) :=
      compileNodes_addNode fresh ordered compiledNodes own
    have inside : ∀ assembled ∈ nodes.map (·.assembled), assembled.node ∈ tree.nodes := by
      intro assembled member
      obtain ⟨one, among, rfl⟩ := List.mem_map.mp member
      have listed : one.assembled.node ∈ nodes.map (·.assembled.node) :=
        List.mem_map.mpr ⟨one, among, rfl⟩
      rw [nodes_of_compileNodes compiledNodes] at listed
      obtain ⟨identifier, -, found⟩ := List.mem_filterMap.mp listed
      exact (mem_of_node? found).1
    have contribution : extended.linkedNode registry options node =
        Linking.linkNode extended (Variables.ofTree extended) options added.assembled := by
      have context : Compile.compileNode extended registry node = .ok added := own
      rw [linkedNode, context]
    have warnings : extended.typeProblems = tree.typeProblems :=
      wellFormed.typeProblems_addNode fresh
    refine ⟨_, wellFormedExtended.compile_eq_ok orderedExtended compiledExtended, ?_, ?_⟩
    · rw [contribution, List.map_append, List.map_singleton]
      exact wellFormed.link_addNode fresh inside added.assembled
    · rw [warnings]
  · intro key name found
    rw [← found]
    refine Variables.name?_addNode stamp key ?_
    intro same
    exact fresh (same ▸ Variables.owner_mem found)

theorem compile_addNode_sumOfSource :
    let node := (Node.ofKind "s_value" "sum").addOutput (.ofType .integer "Total" "total")
    let extended := sumOfSource.addNode node ⟨1, ""⟩
    ∃ compiled, sumOfSource.compile .sourceAndSum .default = .ok compiled ∧
      node.identifier ≠ "" ∧ node.identifier ∉ sumOfSource.identifiers ∧
      Registry.sourceAndSum.contains node.kind ∧
      extended.linkedNode .sourceAndSum .default node =
        ⟨[], ["s_value_1 = nodes[\"s_value\"]"],
          ["# Sum (s_value)", "s_value_1_total = value + offset",
            "s_value_1.total = s_value_1_total"]⟩ ∧
      (∃ result, extended.compile .sourceAndSum .default = .ok result ∧
        result.procedure =
          compiled.procedure.followedBy (extended.linkedNode .sourceAndSum .default node) ∧
        result.warnings = compiled.warnings) ∧
      (∃ order, sumOfSource.evaluationOrder = .ok order ∧
        extended.evaluationOrder = .ok (order ++ [node.identifier])) ∧
      ∀ key name, (Variables.ofTree sumOfSource).name? key = some name →
        (Variables.ofTree extended).name? key = some name := by
  intro node extended
  have compiles : (sumOfSource.compile .sourceAndSum .default).isOk = true := by decide +kernel
  cases done : sumOfSource.compile .sourceAndSum .default with
  | error error =>
      rw [done] at compiles
      contradiction
  | ok compiled =>
      exact ⟨compiled, rfl, by decide, by decide, by decide +kernel, by decide +kernel,
        compile_addNode done (by decide) (by decide) (by decide +kernel) ⟨1, ""⟩⟩

end Tree

end FrameGraph
