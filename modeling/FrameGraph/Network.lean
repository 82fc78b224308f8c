import FrameGraph.Tree

/-!
Networks: the nodes of a tree that reach each other through links in either direction. Main
statement: no node has a parent after itself, so the way to the root of its network ends.
-/

namespace FrameGraph

def lastIndex? {α : Type} (test : α → Bool) : List α → Option Nat
  | [] => none
  | a :: rest =>
    match lastIndex? test rest with
    | some i => some (i + 1)
    | none => if test a then some 0 else none

namespace Tree

def lastIndex? (tree : Tree) (identifier : String) : Option Nat :=
  FrameGraph.lastIndex? (·.identifier = identifier) tree.nodes

/-- The links between existing nodes as pairs of positions, in the order of the links. -/
def edges (tree : Tree) : List (Nat × Nat) :=
  tree.links.filterMap fun link =>
    match tree.lastIndex? link.fromNode, tree.lastIndex? link.toNode with
    | some source, some target => some (source, target)
    | _, _ => none

end Tree

/-- A forest on positions: every position has a parent that does not come after it, and a root is
its own parent. -/
structure Forest where
  parents : List Nat
  parent_le : ∀ i p : Nat, parents[i]? = some p → p ≤ i

namespace Forest

def discrete (size : Nat) : Forest where
  parents := List.range size
  parent_le i p h := by
    obtain ⟨_, h⟩ := List.getElem?_eq_some_iff.mp h
    simp at h
    omega

def parent (forest : Forest) (i : Nat) : Nat :=
  forest.parents[i]?.getD i

theorem parent_le_self (forest : Forest) (i : Nat) : forest.parent i ≤ i := by
  unfold parent
  cases h : forest.parents[i]? with
  | none => simp
  | some p => simpa using forest.parent_le i p h

def root (forest : Forest) (i : Nat) : Nat :=
  if forest.parent i < i then root forest (forest.parent i) else i
termination_by i

theorem root_le (forest : Forest) (i : Nat) : forest.root i ≤ i := by
  fun_induction forest.root i with
  | case1 i h ih => omega
  | case2 i h => exact Nat.le_refl i

/-- Joins the trees of two positions under the lesser of their roots. -/
def join (forest : Forest) (a b : Nat) : Forest where
  parents :=
    forest.parents.set (max (forest.root a) (forest.root b)) (min (forest.root a) (forest.root b))
  parent_le i p h := by
    rw [List.getElem?_set] at h
    split at h
    · split at h
      · simp only [Option.some.injEq] at h
        omega
      · simp at h
    · exact forest.parent_le i p h

def ofTree (tree : Tree) : Forest :=
  tree.edges.foldl (fun forest edge => forest.join edge.1 edge.2) (discrete tree.nodes.length)

end Forest

namespace Tree

/-- The identifiers of the nodes in a network with one of the seeds, in ascending order. -/
def networkMembers (tree : Tree) (seeds : List String) : List String :=
  let forest := Forest.ofTree tree
  let roots := (seeds.filterMap tree.lastIndex?).map forest.root
  let members := tree.nodes.zipIdx.filter fun (_, i) => roots.contains (forest.root i)
  sortedNames (members.map fun (node, _) => node.identifier)

/-- Marks exactly the nodes with one of the identifiers. This is no change of the structure, so the
revision stays. -/
def flagInvalid (tree : Tree) (invalid : List String) : Tree :=
  { tree with
    nodes := tree.nodes.map fun node =>
      { node with inInvalidNetwork := invalid.contains node.identifier } }

end Tree

end FrameGraph
