import FrameGraph.Proofs.Networks
import Mathlib.Order.Bounds.Basic

/-!
The union-find behind the networks, on the bare list of parents. Main statement: however many pairs
have been united, no parent comes after its position and the way up from a position ends, at the
least position that the pairs connect it to; so the members of the networks are the nodes that
links join to a seed.
-/

namespace FrameGraph

namespace Forest

/-- The way up from a position: parents are followed, all of them inside the list, until one is its
own parent. -/
inductive Climbs (parents : List Nat) : Nat → Nat → Prop
  | root {i : Nat} (own : parents[i]? = some i) : Climbs parents i i
  | step {i parent last : Nat} (above : parents[i]? = some parent) (other : parent ≠ i)
      (rest : Climbs parents parent last) : Climbs parents i last

/-- Uniting pairs one after the other: where the ways up from the two end at different positions,
the lesser becomes the parent of the greater. -/
inductive Unites : List Nat → List (Nat × Nat) → List Nat → Prop
  | nil (parents : List Nat) : Unites parents [] parents
  | cons {parents last : List Nat} {a b rootA rootB : Nat} {edges : List (Nat × Nat)}
      (wayA : Climbs parents a rootA) (wayB : Climbs parents b rootB)
      (rest : Unites (if rootA = rootB then parents
        else parents.set (max rootA rootB) (min rootA rootB)) edges last) :
      Unites parents ((a, b) :: edges) last

variable {forest : Forest} {i last : Nat}

theorem getElem?_parents (inside : i < forest.parents.length) :
    forest.parents[i]? = some (forest.parent i) := by
  simp [parent, List.getElem?_eq_getElem inside]

theorem climbs_root (inside : i < forest.parents.length) :
    Climbs forest.parents i (forest.root i) := by
  fun_induction forest.root i with
  | case1 i below ih =>
      exact .step (getElem?_parents inside) (Nat.ne_of_lt below) (ih (below.trans inside))
  | case2 i top =>
      have own : forest.parent i = i :=
        Nat.le_antisymm (forest.parent_le_self i) (Nat.le_of_not_lt top)
      exact .root (by rw [getElem?_parents inside, own])

theorem Climbs.unique {parents : List Nat} {first second : Nat} (way : Climbs parents i first)
    (other : Climbs parents i second) : first = second := by
  induction way with
  | root own =>
      cases other with
      | root => rfl
      | step above different => exact absurd (Option.some.inj (above.symm.trans own)) different
  | step above different _ ih =>
      cases other with
      | root own => exact absurd (Option.some.inj (above.symm.trans own)) different
      | step aboveToo _ rest =>
          obtain rfl := Option.some.inj (above.symm.trans aboveToo)
          exact ih rest

theorem climbs_iff (inside : i < forest.parents.length) :
    Climbs forest.parents i last ↔ last = forest.root i := by
  constructor
  · intro way
    exact way.unique (climbs_root inside)
  · rintro rfl
    exact climbs_root inside

theorem parents_join {a b : Nat} (inside : a < forest.parents.length) :
    (forest.join a b).parents =
      if forest.root a = forest.root b then forest.parents
      else forest.parents.set (max (forest.root a) (forest.root b))
        (min (forest.root a) (forest.root b)) := by
  split
  · rename_i same
    have bound : forest.root a < forest.parents.length :=
      Nat.lt_of_le_of_lt (forest.root_le a) inside
    have own := forest.parent_root a
    simp only [join, ← same, Nat.max_self, Nat.min_self]
    apply List.ext_getElem?
    intro j
    rw [List.getElem?_set]
    split
    · rename_i equal
      subst equal
      rw [getElem?_parents bound, own]
    · rfl
  · rfl

theorem unites_iff {edges : List (Nat × Nat)} {parents : List Nat}
    (bounded : ∀ edge ∈ edges, edge.1 < forest.parents.length ∧ edge.2 < forest.parents.length) :
    Unites forest.parents edges parents ↔ parents = (forest.joinAll edges).parents := by
  induction edges generalizing forest with
  | nil =>
      constructor
      · rintro ⟨⟩
        rfl
      · rintro rfl
        exact .nil _
  | cons edge edges ih =>
      obtain ⟨⟨inside, insideToo⟩, others⟩ := List.forall_mem_cons.mp bounded
      rw [← forest.length_join edge.1 edge.2] at others
      have next := parents_join (b := edge.2) inside
      constructor
      · rintro (_ | ⟨wayA, wayB, rest⟩)
        obtain rfl := (climbs_iff inside).mp wayA
        obtain rfl := (climbs_iff insideToo).mp wayB
        rw [← next] at rest
        exact (ih others).mp rest
      · intro equal
        refine .cons (climbs_root inside) (climbs_root insideToo) ?_
        rw [← next]
        exact (ih others).mpr equal

@[simp] theorem length_joinAll (forest : Forest) (edges : List (Nat × Nat)) :
    (forest.joinAll edges).parents.length = forest.parents.length := by
  induction edges generalizing forest with
  | nil => rfl
  | cons edge edges ih =>
      calc ((forest.join edge.1 edge.2).joinAll edges).parents.length
          = (forest.join edge.1 edge.2).parents.length := ih _
        _ = forest.parents.length := length_join forest edge.1 edge.2

/-- The root of a position is the least of those that the joined pairs connect it to. -/
theorem isLeast_root {size : Nat} {edges : List (Nat × Nat)}
    (bounded : ∀ edge ∈ edges, edge.1 < size ∧ edge.2 < size) (i : Nat) :
    IsLeast {j | Relation.EqvGen (fun a b => (a, b) ∈ edges) i j}
      (((discrete size).joinAll edges).root i) := by
  have connected (j : Nat) := root_joinAll_discrete_eq_iff bounded (i := i) (j := j)
  constructor
  · refine (connected _).mp ?_
    exact (root_of_parent_eq (parent_root _ i)).symm
  · intro j path
    rw [(connected j).mpr path]
    exact root_le _ j

/-- Whether every parent is at or before its position, and the way up from each position ends, at
the least position that is related to it. -/
structure LeastRooted (related : Nat → Nat → Prop) (parents : List Nat) : Prop where
  parent_le : ∀ i < parents.length, ∃ parent ≤ i, parents[i]? = some parent
  climbs : ∀ i < parents.length, ∃ root,
    IsLeast {j | related i j} root ∧ ∀ last, Climbs parents i last ↔ last = root

theorem leastRooted_joinAll {size : Nat} {edges : List (Nat × Nat)}
    (bounded : ∀ edge ∈ edges, edge.1 < size ∧ edge.2 < size) :
    LeastRooted (Relation.EqvGen fun a b => (a, b) ∈ edges)
      ((discrete size).joinAll edges).parents where
  parent_le i inside := ⟨_, parent_le_self _ i, getElem?_parents inside⟩
  climbs i inside := ⟨_, isLeast_root bounded i, fun _ => climbs_iff inside⟩

end Forest

namespace Tree

theorem pairwise_networkMembers (tree : Tree) (seeds : List String) :
    (tree.networkMembers seeds).Pairwise (· < ·) :=
  List.pairwise_map.mpr (Dictionary.ofList _).sorted

/-- Uniting the ends of the links, one after the other, never fails and has one outcome, and after
each of them the ways up end at the least position of each component; the members of the networks
of some seeds, each listed once, are the nodes joined to one of those seeds that are nodes. -/
theorem networkMembers_unites (tree : Tree) (seeds : List String) :
    (∀ identifier, identifier ∈ tree.networkMembers seeds ↔
      ∃ seed ∈ seeds, tree.Joined seed identifier) ∧
    (tree.networkMembers seeds).Pairwise (· < ·) ∧
    ∀ count, ∃ parents, parents.length = tree.nodes.length ∧
      (∀ united, Forest.Unites (List.range tree.nodes.length) (tree.edges.take count) united ↔
        united = parents) ∧
      Forest.LeastRooted (Relation.EqvGen fun a b => (a, b) ∈ tree.edges.take count) parents ∧
      (tree.edges.length ≤ count → parents = (Forest.ofTree tree).parents) := by
  refine ⟨fun _ => mem_networkMembers_iff, tree.pairwise_networkMembers seeds, fun count => ?_⟩
  have bounded : ∀ edge ∈ tree.edges.take count,
      edge.1 < tree.nodes.length ∧ edge.2 < tree.nodes.length :=
    fun edge member => tree.bounded_edges edge (List.mem_of_mem_take member)
  have size : (Forest.discrete tree.nodes.length).parents.length = tree.nodes.length :=
    List.length_range
  refine ⟨_, (Forest.length_joinAll _ (tree.edges.take count)).trans size,
    fun _ => Forest.unites_iff (size.symm ▸ bounded), Forest.leastRooted_joinAll bounded, ?_⟩
  intro all
  rw [List.take_of_length_le all]
  rfl

end Tree

end FrameGraph
