import FrameGraph.Identifier
import FrameGraph.Proofs.ExactFlags
import FrameGraph.Tree.Repair
import Mathlib.Data.List.Forall2

/-!
Identifiers for the nodes that have none. Main statement: every node of a document ends up with an
identifier, its own if it has one, and links follow a node that is the only one of its tree without.
-/

namespace FrameGraph

/-! ### Nodes -/

namespace Node

def rename (node : Node) (old new : String) : Node :=
  if node.identifier = old then { node with identifier := new } else node

/-- The node has an identifier afterwards, its own or a given one, and is otherwise as it was. -/
structure Identified (given : String → Prop) (node after : Node) : Prop where
  new : node.identifier = "" → given after.identifier
  kept : node.identifier ≠ "" → after.identifier = node.identifier
  rest : after = { node with identifier := after.identifier }

theorem identified_self {given : String → Prop} {node : Node} (named : node.identifier ≠ "") :
    Identified given node node :=
  ⟨(absurd · named), fun _ => rfl, rfl⟩

theorem Identified.named {given : String → Prop} {node after : Node}
    (identified : Identified given node after) (named : ∀ identifier, given identifier →
      identifier ≠ "") : after.identifier ≠ "" := by
  by_cases missing : node.identifier = ""
  · exact named _ (identified.new missing)
  · exact identified.kept missing ▸ missing

theorem identifier_ne_empty_of_forall₂ {given : String → Prop} {nodes after : List Node}
    (identified : List.Forall₂ (Identified given) nodes after)
    (named : ∀ identifier, given identifier → identifier ≠ "") :
    ∀ node ∈ after, node.identifier ≠ "" :=
  ((List.forall₂_and_left _ _).mp
    (identified.imp fun _ _ pair => ⟨pair.named named, pair⟩).flip).1

end Node

section AssignIdentifiers

variable {fresh : Nat → String} {first : Nat} {nodes : List Node}

theorem assignIdentifiers_cons_of_missing {node : Node} (missing : node.identifier = "")
    (rest : List Node) :
    assignIdentifiers fresh first (node :: rest) =
      (fresh first :: (assignIdentifiers fresh (first + 1) rest).1,
        { node with identifier := fresh first } ::
          (assignIdentifiers fresh (first + 1) rest).2) := by
  rw [assignIdentifiers, if_pos missing]

theorem assignIdentifiers_cons_of_named {node : Node} (named : node.identifier ≠ "")
    (rest : List Node) :
    assignIdentifiers fresh first (node :: rest) =
      ((assignIdentifiers fresh first rest).1, node :: (assignIdentifiers fresh first rest).2) := by
  rw [assignIdentifiers, if_neg named]

theorem assignIdentifiers_of_identified (identified : ∀ node ∈ nodes, node.identifier ≠ "") :
    assignIdentifiers fresh first nodes = ([], nodes) := by
  induction nodes with
  | nil => rfl
  | cons node rest ih =>
      rw [List.forall_mem_cons] at identified
      rw [assignIdentifiers_cons_of_named identified.1, ih identified.2]

theorem assigned_assignIdentifiers (fresh : Nat → String) (first : Nat) (nodes : List Node) :
    (assignIdentifiers fresh first nodes).1 =
      (List.range' first (nodes.countP (·.identifier = ""))).map fresh := by
  induction nodes generalizing first with
  | nil => rfl
  | cons node rest ih =>
      by_cases missing : node.identifier = ""
      · rw [List.countP_cons_of_pos (by simpa using missing),
          assignIdentifiers_cons_of_missing missing, List.range'_succ, List.map_cons, ih]
      · rw [List.countP_cons_of_neg (by simpa using missing),
          assignIdentifiers_cons_of_named missing, ih]

theorem assignIdentifiers_append (fresh : Nat → String) (first : Nat) (nodes rest : List Node) :
    (assignIdentifiers fresh first (nodes ++ rest)).2 = (assignIdentifiers fresh first nodes).2 ++
      (assignIdentifiers fresh (first + nodes.countP (·.identifier = "")) rest).2 := by
  induction nodes generalizing first with
  | nil => rfl
  | cons node nodes ih =>
      by_cases missing : node.identifier = ""
      · simp [assignIdentifiers, missing, ih, Nat.add_assoc, Nat.add_comm 1]
      · simp [assignIdentifiers, missing, ih]

theorem forall₂_assignIdentifiers {given : String → Prop}
    (all : ∀ i < nodes.countP (·.identifier = ""), given (fresh (first + i))) :
    List.Forall₂ (Node.Identified given) nodes (assignIdentifiers fresh first nodes).2 := by
  induction nodes generalizing first with
  | nil => exact .nil
  | cons node rest ih =>
      by_cases missing : node.identifier = ""
      · rw [List.countP_cons_of_pos (by simpa using missing)] at all
        rw [assignIdentifiers_cons_of_missing missing]
        refine .cons ⟨fun _ => all 0 (Nat.succ_pos _), absurd missing, rfl⟩ (ih fun i inside => ?_)
        rw [Nat.add_assoc, Nat.add_comm 1]
        exact all (i + 1) (Nat.succ_lt_succ inside)
      · rw [List.countP_cons_of_neg (by simpa using missing)] at all
        rw [assignIdentifiers_cons_of_named missing]
        exact .cons (Node.identified_self missing) (ih all)

theorem assignIdentifiers_of_one (one : nodes.countP (·.identifier = "") = 1) :
    (assignIdentifiers fresh first nodes).2 = nodes.map (·.rename "" (fresh first)) := by
  induction nodes with
  | nil => contradiction
  | cons node rest ih =>
      rw [List.map_cons, Node.rename]
      by_cases missing : node.identifier = ""
      · rw [List.countP_cons_of_pos (by simpa using missing), Nat.add_eq_right,
          List.countP_eq_zero] at one
        have identified : ∀ other ∈ rest, other.identifier ≠ "" := by simpa using one
        have same : rest.map (·.rename "" (fresh first)) = rest :=
          (List.map_congr_left fun other member => if_neg (identified other member)).trans
            rest.map_id
        rw [assignIdentifiers_cons_of_missing missing, if_pos missing,
          assignIdentifiers_of_identified identified, same]
      · rw [List.countP_cons_of_neg (by simpa using missing)] at one
        rw [assignIdentifiers_cons_of_named missing, if_neg missing, ih one]

/-- The number of the identifier that a node gets is that of the nodes in front that need one. -/
theorem getElem?_assignIdentifiers (position : Nat) :
    (assignIdentifiers fresh first nodes).2[position]? = nodes[position]?.map fun node =>
      node.rename "" (fresh (first + (nodes.take position).countP (·.identifier = ""))) := by
  induction nodes generalizing first position with
  | nil => rfl
  | cons node rest ih =>
      rw [assignIdentifiers]
      cases position with
      | zero => by_cases missing : node.identifier = "" <;> simp [missing, Node.rename]
      | succ position =>
          by_cases missing : node.identifier = "" <;>
            simp [missing, ih, Nat.add_assoc, Nat.add_comm 1]

end AssignIdentifiers

/-! ### Trees -/

namespace Tree

def rename (tree : Tree) (old new : String) : Tree :=
  { tree with
    nodes := tree.nodes.map (·.rename old new)
    links := tree.links.map (·.rename old new) }

def unidentified (tree : Tree) : Nat :=
  tree.nodes.countP (·.identifier = "")

/-- What a tree is after its nodes have been given the identifiers that they lacked. -/
structure Repaired (given : String → Prop) (tree after : Tree) : Prop where
  nodes : List.Forall₂ (Node.Identified given) tree.nodes after.nodes
  none : tree.unidentified = 0 → after = tree
  one : tree.unidentified = 1 →
    ∃ identifier, given identifier ∧ ∃ stamp, after = (tree.rename "" identifier).touch stamp
  several : 1 < tree.unidentified → ∃ stamp, after = { tree with nodes := after.nodes }.touch stamp
  /-- Links that are still ambiguous keep the tree from being compiled. -/
  refused : 1 < tree.unidentified → (∃ link ∈ tree.links, link.touches "") →
    ∀ registry options, ∃ problems,
      after.compile registry options = .error (.invalidNetwork tree.name problems)

variable {tree : Tree} {fresh : Nat → String} {first : Nat} {stamp : Stamp}

theorem unidentified_eq_zero_iff :
    tree.unidentified = 0 ↔ ∀ node ∈ tree.nodes, node.identifier ≠ "" := by
  simp [unidentified, List.countP_eq_zero]

/-- Which of the three cases applies is decided by the identifiers given, which are as many as the
nodes without one. -/
theorem repair_cases (tree : Tree) (fresh : Nat → String) (first : Nat) (stamp : Stamp) :
    (tree.unidentified = 0 ∧ tree.repair fresh first stamp = (0, tree)) ∨
    (tree.unidentified = 1 ∧
      tree.repair fresh first stamp = (1, (tree.rename "" (fresh first)).touch stamp)) ∨
    (1 < tree.unidentified ∧ tree.repair fresh first stamp = (tree.unidentified,
      { tree with nodes := (assignIdentifiers fresh first tree.nodes).2 }.touch stamp)) := by
  have given := assigned_assignIdentifiers fresh first tree.nodes
  rw [repair, unidentified]
  rcases count : tree.nodes.countP (·.identifier = "") with _ | _ | more
  · rw [count] at given
    refine .inl ⟨count, ?_⟩
    split <;> simp_all
  · rw [count] at given
    refine .inr (.inl ⟨count, ?_⟩)
    rw [rename, ← assignIdentifiers_of_one count]
    split <;> simp_all
  · rw [count] at given
    refine .inr (.inr ⟨count ▸ Nat.one_lt_succ_succ more, ?_⟩)
    split <;> simp_all [List.range'_succ]

theorem repair_of_identified (identified : tree.unidentified = 0) (fresh : Nat → String)
    (first : Nat) : tree.repair fresh first stamp = (0, tree) := by
  rcases tree.repair_cases fresh first stamp with ⟨-, same⟩ | ⟨one, -⟩ | ⟨several, -⟩
  · exact same
  · omega
  · omega

theorem repair_of_one (one : tree.unidentified = 1) :
    tree.repair fresh first stamp = (1, (tree.rename "" (fresh first)).touch stamp) := by
  rcases tree.repair_cases fresh first stamp with ⟨none, -⟩ | ⟨-, same⟩ | ⟨several, -⟩
  · omega
  · exact same
  · omega

theorem repair_of_several (several : 1 < tree.unidentified) :
    tree.repair fresh first stamp = (tree.unidentified,
      { tree with nodes := (assignIdentifiers fresh first tree.nodes).2 }.touch stamp) := by
  rcases tree.repair_cases fresh first stamp with ⟨none, -⟩ | ⟨one, -⟩ | ⟨-, same⟩
  · omega
  · omega
  · exact same

theorem count_repair (fresh : Nat → String) (first : Nat) (stamp : Stamp) (tree : Tree) :
    (tree.repair fresh first stamp).1 = tree.unidentified := by
  rcases tree.repair_cases fresh first stamp with ⟨count, same⟩ | ⟨count, same⟩ | ⟨-, same⟩
  · rw [same, count]
  · rw [same, count]
  · rw [same]

theorem nodes_repair (fresh : Nat → String) (first : Nat) (stamp : Stamp) (tree : Tree) :
    (tree.repair fresh first stamp).2.nodes = (assignIdentifiers fresh first tree.nodes).2 := by
  rcases tree.repair_cases fresh first stamp with ⟨count, same⟩ | ⟨count, same⟩ | ⟨-, same⟩
  · rw [same, assignIdentifiers_of_identified (unidentified_eq_zero_iff.mp count)]
  · rw [same, assignIdentifiers_of_one count]
    rfl
  · rw [same]
    rfl

theorem revision_repair (missing : tree.unidentified ≠ 0) (fresh : Nat → String) (first : Nat)
    (stamp : Stamp) : (tree.repair fresh first stamp).2.revision = stamp.revision := by
  rcases tree.repair_cases fresh first stamp with ⟨none, -⟩ | ⟨-, same⟩ | ⟨-, same⟩
  · exact absurd none missing
  · rw [same]
    rfl
  · rw [same]
    rfl

theorem compile_of_touches {link : Link} {identifier : String} (inside : link ∈ tree.links)
    (touches : link.touches identifier)
    (absent : ∀ node ∈ tree.nodes, node.identifier ≠ identifier) (registry : Registry)
    (options : CompileOptions) :
    tree.compile registry options =
      .error (.invalidNetwork tree.name (tree.problems registry)) := by
  have unsound : tree.problems registry ≠ [] := by
    intro sound
    have wellFormed := problems_eq_nil_iff_wellFormed.mp sound
    rcases Bool.or_eq_true_iff.mp touches with leaves | enters
    · obtain ⟨node, member, same, -⟩ := wellFormed.sources link inside
      exact absent node member (same.trans (of_decide_eq_true leaves))
    · obtain ⟨node, member, same, -⟩ := wellFormed.targets link inside
      exact absent node member (same.trans (of_decide_eq_true enters))
  exact compile_eq_error_iff.mpr (by rw [if_neg unsound])

theorem repaired_repair {given : String → Prop}
    (named : ∀ identifier, given identifier → identifier ≠ "")
    (all : ∀ i < tree.unidentified, given (fresh (first + i))) :
    Repaired given tree (tree.repair fresh first stamp).2 := by
  have nodes : List.Forall₂ (Node.Identified given) tree.nodes
      (tree.repair fresh first stamp).2.nodes :=
    nodes_repair fresh first stamp tree ▸ forall₂_assignIdentifiers all
  refine ⟨nodes, fun none => ?_, fun one => ?_, fun several => ?_, ?_⟩
  · rw [repair_of_identified none]
  · exact ⟨fresh first, all 0 (one ▸ Nat.one_pos), stamp, by rw [repair_of_one one]⟩
  · exact ⟨stamp, by rw [nodes_repair, repair_of_several several]⟩
  · rintro several ⟨link, inside, touches⟩ registry options
    have absent := Node.identifier_ne_empty_of_forall₂ nodes named
    rw [repair_of_several several] at absent ⊢
    refine ⟨_, compile_of_touches ?_ touches absent registry options⟩
    exact inside

end Tree

section RepairTrees

variable {fresh : Nat → String} {repaired : Nat} {stamp : Stamp} {trees : List Tree}

theorem repairTrees_cons (fresh : Nat → String) (repaired : Nat) (stamp : Stamp) (tree : Tree)
    (rest : List Tree) :
    repairTrees fresh repaired stamp (tree :: rest) =
      let later := repairTrees fresh (repaired + tree.unidentified)
        (if tree.unidentified = 0 then stamp else { stamp with revision := stamp.revision + 1 }) rest
      (later.1, (tree.repair fresh repaired stamp).2 :: later.2) := by
  rw [← tree.count_repair fresh repaired stamp, repairTrees]

theorem count_repairTrees (fresh : Nat → String) (repaired : Nat) (stamp : Stamp)
    (trees : List Tree) :
    (repairTrees fresh repaired stamp trees).1 =
      repaired + (trees.flatMap (·.nodes)).countP (·.identifier = "") := by
  induction trees generalizing repaired stamp with
  | nil => rfl
  | cons tree rest ih =>
      rw [repairTrees_cons, List.flatMap_cons, List.countP_append, ← Nat.add_assoc]
      exact ih _ _

/-- Every tree is repaired with identifiers that no other uses, under a revision that is not
earlier than that of the stamp. -/
theorem forall₂_repairTrees (fresh : Nat → String) (repaired : Nat) (stamp : Stamp)
    (trees : List Tree) :
    List.Forall₂
      (fun tree after => ∃ start later, repaired ≤ start ∧
        start + tree.unidentified ≤
          repaired + (trees.flatMap (·.nodes)).countP (·.identifier = "") ∧
        stamp.revision ≤ later.revision ∧ after = (tree.repair fresh start later).2)
      trees (repairTrees fresh repaired stamp trees).2 := by
  induction trees generalizing repaired stamp with
  | nil => exact .nil
  | cons tree rest ih =>
      rw [repairTrees_cons, List.flatMap_cons, List.countP_append]
      refine .cons ⟨repaired, stamp, le_rfl, ?_, le_rfl, rfl⟩ ((ih _ _).imp ?_)
      · exact Nat.add_le_add_left (Nat.le_add_right _ _) repaired
      · rintro tree' after ⟨start, later, behind, inside, newer, rfl⟩
        refine ⟨start, later, (Nat.le_add_right _ _).trans behind, ?_, le_trans ?_ newer, rfl⟩
        · rwa [Nat.add_assoc] at inside
        · split
          · exact le_rfl
          · exact Nat.le_succ _

theorem nodes_repairTrees (fresh : Nat → String) (repaired : Nat) (stamp : Stamp)
    (trees : List Tree) :
    (repairTrees fresh repaired stamp trees).2.flatMap (·.nodes) =
      (assignIdentifiers fresh repaired (trees.flatMap (·.nodes))).2 := by
  induction trees generalizing repaired stamp with
  | nil => rfl
  | cons tree rest ih =>
      rw [List.flatMap_cons, assignIdentifiers_append, repairTrees_cons, List.flatMap_cons,
        Tree.nodes_repair, ih]
      rfl

theorem repairTrees_of_identified (identified : ∀ tree ∈ trees, tree.unidentified = 0) :
    repairTrees fresh repaired stamp trees = (repaired, trees) := by
  induction trees generalizing repaired stamp with
  | nil => rfl
  | cons tree rest ih =>
      rw [List.forall_mem_cons] at identified
      rw [repairTrees_cons, Tree.repair_of_identified identified.1, identified.1, Nat.add_zero,
        ih identified.2]

end RepairTrees

/-! ### Documents -/

namespace Document

def nodes (document : Document) : List Node :=
  document.trees.flatMap (·.nodes)

def identifiers (document : Document) : List String :=
  document.nodes.map (·.identifier)

def unidentified (document : Document) : Nat :=
  document.nodes.countP (·.identifier = "")

/-- Whether the identifier is one of those given to the nodes of the document. -/
def Gives (document : Document) (fresh : Nat → String) (identifier : String) : Prop :=
  ∃ i < document.unidentified, fresh i = identifier

/-- What a document is after its nodes have been given the identifiers that they lacked. -/
structure Repaired (document : Document) (fresh : Nat → String) (after : Document) : Prop where
  trees : List.Forall₂ (Tree.Repaired (document.Gives fresh)) document.trees after.trees
  identified : ∀ node ∈ after.nodes, node.identifier ≠ ""
  /-- Nodes share an identifier if they shared it before. -/
  twins : ∀ i < document.identifiers.length, ∀ j < document.identifiers.length,
    (after.identifiers[i]? = after.identifiers[j]? ↔
      i = j ∨ document.identifiers[i]? = document.identifiers[j]? ∧
        document.identifiers[i]? ≠ some "")

variable {document : Document} {fresh : Nat → String} {stamp : Stamp}

theorem nodes_repair (document : Document) (fresh : Nat → String) (stamp : Stamp) :
    (document.repair fresh stamp).2.nodes = (assignIdentifiers fresh 0 document.nodes).2 :=
  nodes_repairTrees fresh 0 stamp document.trees

theorem getElem?_identifiers_repair (position : Nat) :
    (document.repair fresh stamp).2.identifiers[position]? =
      document.identifiers[position]?.map fun identifier =>
        if identifier = "" then
          fresh ((document.nodes.take position).countP (·.identifier = ""))
        else identifier := by
  rw [identifiers, nodes_repair, List.getElem?_map, getElem?_assignIdentifiers, identifiers,
    List.getElem?_map, Option.map_map, Option.map_map]
  congr 1
  funext node
  simp only [Function.comp_apply, Node.rename, Nat.zero_add]
  split <;> rfl

theorem countP_take_lt {nodes : List Node} {position later : Nat} {node : Node}
    (found : nodes[position]? = some node) (missing : node.identifier = "")
    (before : position < later) :
    (nodes.take position).countP (·.identifier = "") <
      (nodes.take later).countP (·.identifier = "") := by
  have counted : (nodes.take (position + 1)).countP (·.identifier = "") =
      (nodes.take position).countP (·.identifier = "") + 1 := by
    simp [List.take_add_one, found, missing]
  have grown : (nodes.take (position + 1)).countP (·.identifier = "") ≤
      (nodes.take later).countP (·.identifier = "") :=
    (List.take_prefix_take_left before).sublist.countP_le
  omega

theorem eq_of_countP_take_eq {nodes : List Node} {i j : Nat} {node other : Node}
    (found : nodes[i]? = some node) (otherFound : nodes[j]? = some other)
    (missing : node.identifier = "") (otherMissing : other.identifier = "")
    (same : (nodes.take i).countP (·.identifier = "") =
      (nodes.take j).countP (·.identifier = "")) : i = j := by
  rcases lt_trichotomy i j with before | same | after
  · exact absurd same (countP_take_lt found missing before).ne
  · exact same
  · exact absurd same (countP_take_lt otherFound otherMissing after).ne'

theorem countP_take_lt_unidentified {position : Nat} {node : Node}
    (found : document.nodes[position]? = some node) (missing : node.identifier = "") :
    (document.nodes.take position).countP (·.identifier = "") < document.unidentified := by
  rw [unidentified]
  obtain ⟨inside, -⟩ := List.getElem?_eq_some_iff.mp found
  simpa using countP_take_lt found missing inside

theorem given_ne_identifier (new : ∀ i < document.unidentified, fresh i ∉ document.identifiers)
    {position : Nat} {node other : Node} (found : document.nodes[position]? = some node)
    (missing : node.identifier = "") (member : other ∈ document.nodes) :
    fresh ((document.nodes.take position).countP (·.identifier = "")) ≠ other.identifier := by
  intro same
  refine new _ (countP_take_lt_unidentified found missing) ?_
  rw [same]
  exact List.mem_map_of_mem member

/-- When the identifiers that are given are new and distinct, only nodes that shared an identifier
share one afterwards. -/
theorem twins_repair
    (new : ∀ i < document.unidentified, fresh i ∉ document.identifiers)
    (distinct : ∀ i < document.unidentified, ∀ j < document.unidentified, fresh i = fresh j → i = j)
    {i j : Nat} (inside : i < document.identifiers.length)
    (otherInside : j < document.identifiers.length) :
    (document.repair fresh stamp).2.identifiers[i]? =
        (document.repair fresh stamp).2.identifiers[j]? ↔
      i = j ∨ document.identifiers[i]? = document.identifiers[j]? ∧
        document.identifiers[i]? ≠ some "" := by
  rw [identifiers, List.length_map] at inside otherInside
  obtain ⟨node, found⟩ : ∃ node, document.nodes[i]? = some node :=
    ⟨_, List.getElem?_eq_getElem inside⟩
  obtain ⟨other, otherFound⟩ : ∃ other, document.nodes[j]? = some other :=
    ⟨_, List.getElem?_eq_getElem otherInside⟩
  have there : document.identifiers[i]? = some node.identifier := by
    rw [identifiers, List.getElem?_map, found, Option.map_some]
  have otherThere : document.identifiers[j]? = some other.identifier := by
    rw [identifiers, List.getElem?_map, otherFound, Option.map_some]
  have same_of_eq (position : i = j) : node = other :=
    Option.some.inj (found.symm.trans (position ▸ otherFound))
  simp only [getElem?_identifiers_repair, there, otherThere, Option.map_some, ne_eq,
    Option.some.injEq]
  by_cases missing : node.identifier = "" <;> by_cases otherMissing : other.identifier = ""
  · rw [if_pos missing, if_pos otherMissing]
    constructor
    · exact fun same => .inl (eq_of_countP_take_eq found otherFound missing otherMissing
        (distinct _ (countP_take_lt_unidentified found missing) _
          (countP_take_lt_unidentified otherFound otherMissing) same))
    · rintro (rfl | ⟨-, named⟩)
      · rfl
      · exact absurd missing named
  · rw [if_pos missing, if_neg otherMissing]
    refine iff_of_false
      (given_ne_identifier new found missing (List.mem_of_getElem? otherFound)) ?_
    rintro (position | ⟨-, named⟩)
    · exact otherMissing (same_of_eq position ▸ missing)
    · exact named missing
  · rw [if_neg missing, if_pos otherMissing]
    refine iff_of_false
      (given_ne_identifier new otherFound otherMissing (List.mem_of_getElem? found)).symm ?_
    rintro (position | ⟨same, -⟩)
    · exact missing (same_of_eq position ▸ otherMissing)
    · exact missing (same.trans otherMissing)
  · rw [if_neg missing, if_neg otherMissing]
    constructor
    · exact fun same => .inr ⟨same, missing⟩
    · rintro (position | ⟨same, -⟩)
      · rw [same_of_eq position]
      · exact same

theorem repair_of_identified (identified : ∀ node ∈ document.nodes, node.identifier ≠ "") :
    document.repair fresh stamp = (0, document) := by
  rw [repair, repairTrees_of_identified fun tree member =>
    Tree.unidentified_eq_zero_iff.mpr fun node inside =>
      identified node (List.mem_flatMap.mpr ⟨tree, member, inside⟩)]

theorem ne_empty_of_gives (new : ∀ i < document.unidentified, fresh i ∉ document.identifiers)
    (identifier : String) (given : document.Gives fresh identifier) : identifier ≠ "" := by
  rintro rfl
  obtain ⟨i, inside, empty⟩ := given
  have positive := (Nat.zero_le i).trans_lt inside
  rw [unidentified, List.countP_pos_iff] at positive
  obtain ⟨node, member, missing⟩ := positive
  exact new i inside (empty ▸ List.mem_map.mpr ⟨node, member, by simpa using missing⟩)

/-- When new and distinct identifiers are given to the nodes without one, the number that the repair
gives back is that of these nodes, every node has an identifier afterwards, and a second repair gives
back zero and changes nothing. -/
theorem repair_identifies (document : Document) (fresh : Nat → String) (stamp : Stamp)
    (new : ∀ i < document.unidentified, fresh i ∉ document.identifiers)
    (distinct : ∀ i < document.unidentified, ∀ j < document.unidentified,
      fresh i = fresh j → i = j) :
    (document.repair fresh stamp).1 = document.unidentified ∧
      document.Repaired fresh (document.repair fresh stamp).2 ∧
      (document.repair fresh stamp).2.unidentified = 0 ∧
      ∀ later again, (document.repair fresh stamp).2.repair later again =
        (0, (document.repair fresh stamp).2) := by
  have named := ne_empty_of_gives new
  have count : (document.repair fresh stamp).1 = document.unidentified :=
    (count_repairTrees fresh 0 stamp document.trees).trans (Nat.zero_add _)
  have trees : List.Forall₂ (Tree.Repaired (document.Gives fresh)) document.trees
      (document.repair fresh stamp).2.trees := by
    refine (forall₂_repairTrees fresh 0 stamp document.trees).imp ?_
    rintro tree after ⟨start, later, -, inside, -, rfl⟩
    refine Tree.repaired_repair named fun i below => ⟨_, ?_, rfl⟩
    rw [unidentified, nodes]
    omega
  have identified : ∀ node ∈ (document.repair fresh stamp).2.nodes, node.identifier ≠ "" := by
    rw [nodes_repair]
    refine Node.identifier_ne_empty_of_forall₂ (forall₂_assignIdentifiers fun i below => ?_) named
    rw [Nat.zero_add]
    exact ⟨i, below, rfl⟩
  have none : (document.repair fresh stamp).2.unidentified = 0 := by
    rw [unidentified, List.countP_eq_zero]
    simpa using identified
  exact ⟨count,
    ⟨trees, identified, fun _ inside _ otherInside => twins_repair new distinct inside otherInside⟩,
    none, fun _ _ => repair_of_identified identified⟩

/-- Twins, and trees with one, two and no nodes to be identified. -/
def unrepaired : Document where
  trees := [
    { Tree.new "One" ⟨1, ""⟩ with
      nodes := [.ofKind "" "pipe", .ofKind "twin" "pipe", .ofKind "twin" "pipe"]
      links := [⟨"", "out", "twin", "in"⟩, ⟨"twin", "out", "", "in"⟩] },
    { Tree.new "Two" ⟨2, ""⟩ with
      nodes := [.ofKind "" "pipe", .ofKind "" "pipe"]
      links := [⟨"", "out", "", "in"⟩] },
    { Tree.new "None" ⟨3, ""⟩ with
      nodes := [.ofKind "node" "pipe"]
      links := [⟨"", "out", "node", "in"⟩] }]

theorem repair_identifies_unrepaired :
    (unrepaired.repair Identifier.numbered ⟨4, ""⟩).1 = 3 ∧
      unrepaired.Repaired Identifier.numbered (unrepaired.repair Identifier.numbered ⟨4, ""⟩).2 ∧
      (unrepaired.repair Identifier.numbered ⟨4, ""⟩).2.unidentified = 0 ∧
      ∀ later again, (unrepaired.repair Identifier.numbered ⟨4, ""⟩).2.repair later again =
        (0, (unrepaired.repair Identifier.numbered ⟨4, ""⟩).2) := by
  have count : unrepaired.unidentified = 3 := by decide
  have repaired := repair_identifies unrepaired Identifier.numbered ⟨4, ""⟩
    (by rw [count]; decide +kernel) (by rw [count]; decide +kernel)
  rwa [count] at repaired

end Document

end FrameGraph
