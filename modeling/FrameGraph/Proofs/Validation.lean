import FrameGraph.Compile.Validation
import FrameGraph.Proofs.EvaluationOrder

/-!
Structural faults of trees. Main statement: validation reports a problem exactly if there is a
fault.
-/

namespace FrameGraph

theorem find?_key {α : Type} {key : α → String} {items : List α}
    (distinct : (items.map key).Nodup) {item : α} (member : item ∈ items) :
    items.find? (fun other => key other = key item) = some item := by
  cases found : items.find? (fun other => key other = key item) with
  | none =>
      have absent := List.find?_eq_none.mp found item member
      simp at absent
  | some other =>
      have same : key other = key item := by simpa using List.find?_some found
      rw [List.inj_on_of_nodup_map distinct (List.mem_of_find?_eq_some found) member same]

namespace Tree

def HasOutput (tree : Tree) (node socket : String) : Prop :=
  ∃ n ∈ tree.nodes, n.identifier = node ∧ ∃ s ∈ n.outputs, s.identifier = socket

def HasInput (tree : Tree) (node socket : String) : Prop :=
  ∃ n ∈ tree.nodes, n.identifier = node ∧ ∃ s ∈ n.inputs, s.identifier = socket

/-- What makes a tree unfit for compilation, apart from cycles. An end of a link is missing if its
node is or if the node lacks the socket. -/
inductive Fault (tree : Tree) (registry : Registry) : Prop
  | emptyIdentifier {node : Node} (member : node ∈ tree.nodes) (empty : node.identifier = "")
  | sharedIdentifier (shared : ¬ tree.identifiers.Nodup)
  | unknownKind {node : Node} (member : node ∈ tree.nodes)
      (unknown : registry.kind? node.kind = none)
  | missingSource {link : Link} (member : link ∈ tree.links)
      (missing : ¬ tree.HasOutput link.fromNode link.fromSocket)
  | missingTarget {link : Link} (member : link ∈ tree.links)
      (missing : ¬ tree.HasInput link.toNode link.toSocket)
  | crowdedInput (node socket : String)
      (crowded : 2 ≤ tree.links.countP (·.entersInput node socket))

structure WellFormed (tree : Tree) (registry : Registry) : Prop where
  identified : ∀ node ∈ tree.nodes, node.identifier ≠ ""
  distinct : tree.identifiers.Nodup
  registered : ∀ node ∈ tree.nodes, ∃ kind, registry.kind? node.kind = some kind
  sources : ∀ link ∈ tree.links, tree.HasOutput link.fromNode link.fromSocket
  targets : ∀ link ∈ tree.links, tree.HasInput link.toNode link.toSocket
  single : ∀ node socket, tree.links.countP (·.entersInput node socket) ≤ 1

theorem not_fault_iff {tree : Tree} {registry : Registry} :
    ¬ tree.Fault registry ↔ tree.WellFormed registry := by
  constructor
  · intro sound
    refine ⟨?_, ?_, ?_, ?_, ?_, ?_⟩
    · intro node member empty
      exact sound (.emptyIdentifier member empty)
    · by_contra shared
      exact sound (.sharedIdentifier shared)
    · intro node member
      cases found : registry.kind? node.kind with
      | none => exact absurd (.unknownKind member found) sound
      | some kind => exact ⟨kind, rfl⟩
    · intro link member
      by_contra missing
      exact sound (.missingSource member missing)
    · intro link member
      by_contra missing
      exact sound (.missingTarget member missing)
    · intro node socket
      by_contra crowded
      exact sound (.crowdedInput node socket (by omega))
  · intro wellFormed fault
    cases fault with
    | emptyIdentifier member empty => exact wellFormed.identified _ member empty
    | sharedIdentifier shared => exact shared wellFormed.distinct
    | unknownKind member unknown =>
        obtain ⟨kind, found⟩ := wellFormed.registered _ member
        simp [unknown] at found
    | missingSource member missing => exact missing (wellFormed.sources _ member)
    | missingTarget member missing => exact missing (wellFormed.targets _ member)
    | crowdedInput node socket crowded =>
        have := wellFormed.single node socket
        omega

variable {tree : Tree} {registry : Registry}

theorem mem_of_node? {identifier : String} {node : Node}
    (found : tree.node? identifier = some node) :
    node ∈ tree.nodes ∧ node.identifier = identifier := by
  exact ⟨List.mem_of_find?_eq_some found, by simpa using List.find?_some found⟩

theorem exists_node? {identifier : String} (member : identifier ∈ tree.identifiers) :
    ∃ node, tree.node? identifier = some node := by
  obtain ⟨node, member, rfl⟩ := List.mem_map.mp member
  cases found : tree.node? node.identifier with
  | none =>
      have absent := List.find?_eq_none.mp found node ‹_›
      simp at absent
  | some other => exact ⟨other, rfl⟩

theorem any_node?_iff (distinct : tree.identifiers.Nodup) {identifier : String}
    {test : Node → Bool} :
    (tree.node? identifier).any test ↔ ∃ n ∈ tree.nodes, n.identifier = identifier ∧ test n := by
  rw [Option.any_eq_true]
  constructor
  · rintro ⟨node, found, passed⟩
    obtain ⟨member, same⟩ := mem_of_node? found
    exact ⟨node, member, same, passed⟩
  · rintro ⟨node, member, rfl, passed⟩
    exact ⟨node, find?_key distinct member, passed⟩

/-! Each list of problems is empty exactly if its part of a well-formed tree holds. -/

theorem count_identifiers (tree : Tree) (identifier : String) :
    tree.nodes.countP (·.identifier = identifier) = tree.identifiers.count identifier := by
  rw [identifiers, List.count, List.countP_map]
  congr 1

theorem identifierProblems_eq_nil_iff :
    tree.identifierProblems = [] ↔
      (∀ node ∈ tree.nodes, node.identifier ≠ "") ∧ tree.identifiers.Nodup := by
  unfold identifierProblems
  rw [List.filterMap_eq_nil_iff, List.nodup_iff_count_le_one]
  simp only [Prod.forall, List.mem_zipIdx_iff_getElem?]
  constructor
  · intro none
    have identified : ∀ node ∈ tree.nodes, node.identifier ≠ "" := by
      intro node member empty
      obtain ⟨i, found⟩ := List.mem_iff_getElem?.mp member
      simpa [empty] using none node i found
    refine ⟨identified, ?_⟩
    intro identifier
    by_contra shared
    let first := tree.nodes.findIdx (·.identifier = identifier)
    have inside : first < tree.nodes.length := by
      have positive : 0 < tree.identifiers.count identifier := by omega
      obtain ⟨node, member, same⟩ := List.mem_map.mp (List.count_pos_iff.mp positive)
      exact List.findIdx_lt_length_of_exists ⟨node, member, by simpa using same⟩
    have same : tree.nodes[first].identifier = identifier := by
      simpa using List.findIdx_getElem (w := inside)
    have count := tree.count_identifiers identifier
    have unreported := none tree.nodes[first] first (List.getElem?_eq_getElem inside)
    have reported : 1 < tree.nodes.countP (·.identifier = identifier) := by omega
    have named : identifier ≠ "" := same ▸ identified _ (List.getElem_mem inside)
    simp [same, named, reported, first] at unreported
  · rintro ⟨identified, distinct⟩ node i found
    have member := List.mem_of_getElem? found
    have alone : ¬ 1 < tree.nodes.countP (·.identifier = node.identifier) := by
      have := distinct node.identifier
      rw [count_identifiers]
      omega
    simp [identified node member, alone]

theorem kindProblems_eq_nil_iff :
    tree.kindProblems registry = [] ↔
      ∀ node ∈ tree.nodes, ∃ kind, registry.kind? node.kind = some kind := by
  simp [kindProblems, Registry.contains, Option.ne_none_iff_exists']

theorem endProblem?_eq_none_iff {identifier socket : String} {hasSocket : Node → Bool} :
    tree.endProblem? identifier socket hasSocket = none ↔
      ∃ node, tree.node? identifier = some node ∧ hasSocket node := by
  unfold endProblem?
  cases tree.node? identifier <;> simp

theorem linkProblems_eq_nil_iff {link : Link} :
    tree.linkProblems link = [] ↔ tree.hasSource link ∧ tree.hasTarget link := by
  simp [linkProblems, endProblem?_eq_none_iff, hasSource, hasTarget, Option.any_eq_true]

theorem inputProblems_eq_nil_iff {node : Node} :
    tree.inputProblems node = [] ↔
      ∀ socket ∈ node.inputs,
        tree.links.countP (·.entersInput node.identifier socket.identifier) ≤ 1 := by
  simp [inputProblems]

theorem problems_eq_nil_iff :
    tree.problems registry = [] ↔
      ((∀ node ∈ tree.nodes, node.identifier ≠ "") ∧ tree.identifiers.Nodup) ∧
      (∀ node ∈ tree.nodes, ∃ kind, registry.kind? node.kind = some kind) ∧
      (∀ link ∈ tree.links, tree.hasSource link ∧ tree.hasTarget link) ∧
      ∀ node ∈ tree.nodes, ∀ socket ∈ node.inputs,
        tree.links.countP (·.entersInput node.identifier socket.identifier) ≤ 1 := by
  simp only [problems, List.append_eq_nil_iff, List.flatMap_eq_nil_iff,
    identifierProblems_eq_nil_iff, kindProblems_eq_nil_iff, linkProblems_eq_nil_iff,
    inputProblems_eq_nil_iff, and_assoc]

/-! With distinct identifiers an end exists if any node has it. -/

theorem hasSource_iff (distinct : tree.identifiers.Nodup) {link : Link} :
    tree.hasSource link ↔ tree.HasOutput link.fromNode link.fromSocket := by
  rw [hasSource, any_node?_iff distinct]
  simp [HasOutput, Node.hasOutput]

theorem hasTarget_iff (distinct : tree.identifiers.Nodup) {link : Link} :
    tree.hasTarget link ↔ tree.HasInput link.toNode link.toSocket := by
  rw [hasTarget, any_node?_iff distinct]
  simp [HasInput, Node.hasInput]

/-- Validation counts links only over inputs that exist; links into others are reported as such. -/
theorem problems_eq_nil_iff_wellFormed :
    tree.problems registry = [] ↔ tree.WellFormed registry := by
  rw [problems_eq_nil_iff]
  constructor
  · rintro ⟨⟨identified, distinct⟩, registered, ends, counts⟩
    have targets : ∀ link ∈ tree.links, tree.HasInput link.toNode link.toSocket :=
      fun link member => (hasTarget_iff distinct).mp (ends link member).2
    refine ⟨identified, distinct, registered, ?_, targets, ?_⟩
    · intro link member
      exact (hasSource_iff distinct).mp (ends link member).1
    · intro identifier socket
      by_contra crowded
      have positive : 0 < tree.links.countP (·.entersInput identifier socket) := by omega
      obtain ⟨link, member, enters⟩ := List.countP_pos_iff.mp positive
      obtain ⟨node, node_mem, sameNode, s, s_mem, sameSocket⟩ := targets link member
      simp only [Link.entersInput, Bool.and_eq_true, decide_eq_true_eq] at enters
      have count := counts node node_mem s s_mem
      rw [sameNode, sameSocket, enters.1, enters.2] at count
      exact crowded count
  · intro wellFormed
    refine ⟨⟨wellFormed.identified, wellFormed.distinct⟩, wellFormed.registered, ?_, ?_⟩
    · intro link member
      exact ⟨(hasSource_iff wellFormed.distinct).mpr (wellFormed.sources link member),
        (hasTarget_iff wellFormed.distinct).mpr (wellFormed.targets link member)⟩
    · intro node _ socket _
      exact wellFormed.single _ _

end Tree

end FrameGraph
