import FrameGraph.Proofs.EvaluationOrder

/-!
The networks of a tree. Main statement: the members of the networks of some seeds are the nodes that
links join to them, whatever identifiers are shared, empty or missing.
-/

namespace FrameGraph

namespace Forest

variable {forest : Forest} {a b i j : Nat}

theorem root_of_parent_lt (below : forest.parent i < i) :
    forest.root i = forest.root (forest.parent i) := by
  rw [root, if_pos below]

theorem root_of_parent_eq (own : forest.parent i = i) : forest.root i = i := by
  rw [root, own, if_neg (Nat.lt_irrefl i)]

theorem parent_root (forest : Forest) (i : Nat) :
    forest.parent (forest.root i) = forest.root i := by
  fun_induction forest.root i with
  | case1 i below ih => exact ih
  | case2 i top => exact Nat.le_antisymm (forest.parent_le_self i) (Nat.le_of_not_lt top)

theorem parent_discrete (size i : Nat) : (discrete size).parent i = i := by
  by_cases inside : i < size <;> simp [parent, discrete, inside]

theorem parent_join (inside : a < forest.parents.length) (insideToo : b < forest.parents.length) :
    (forest.join a b).parent i =
      if i = max (forest.root a) (forest.root b) then min (forest.root a) (forest.root b)
      else forest.parent i := by
  have bound := forest.root_le a
  have boundToo := forest.root_le b
  have greater : max (forest.root a) (forest.root b) < forest.parents.length := by omega
  simp only [parent, join, List.getElem?_set]
  by_cases changed : i = max (forest.root a) (forest.root b)
  · simp [changed, greater]
  · simp [changed, Ne.symm changed]

/-- The lesser of the two roots takes the place of the greater; other roots stay. -/
theorem root_join (inside : a < forest.parents.length) (insideToo : b < forest.parents.length)
    (i : Nat) :
    (forest.join a b).root i =
      if forest.root i = max (forest.root a) (forest.root b) then
        min (forest.root a) (forest.root b)
      else forest.root i := by
  have parents (j : Nat) := parent_join (i := j) inside insideToo
  have topA := forest.parent_root a
  have topB := forest.parent_root b
  have lesser : (forest.join a b).root (min (forest.root a) (forest.root b)) =
      min (forest.root a) (forest.root b) := by
    apply root_of_parent_eq
    rw [parents]
    split
    · rfl
    · rcases Nat.le_total (forest.root a) (forest.root b) with less | less
      · rw [Nat.min_eq_left less, topA]
      · rw [Nat.min_eq_right less, topB]
  fun_induction forest.root i with
  | case1 i below ih =>
      have other : i ≠ max (forest.root a) (forest.root b) := by
        rintro rfl
        rcases Nat.le_total (forest.root a) (forest.root b) with less | less
        · rw [Nat.max_eq_right less, topB] at below
          omega
        · rw [Nat.max_eq_left less, topA] at below
          omega
      have same : (forest.join a b).parent i = forest.parent i := by rw [parents, if_neg other]
      rw [root_of_parent_lt (same.symm ▸ below), same, ih]
  | case2 i top =>
      have own : forest.parent i = i :=
        Nat.le_antisymm (forest.parent_le_self i) (Nat.le_of_not_lt top)
      by_cases changed : i = max (forest.root a) (forest.root b)
      · have moved : (forest.join a b).parent i = min (forest.root a) (forest.root b) := by
          rw [parents, if_pos changed]
        rw [if_pos changed]
        by_cases equal : min (forest.root a) (forest.root b) = i
        · rw [root_of_parent_eq (moved.trans equal), equal]
        · rw [root_of_parent_lt (by omega), moved, lesser]
      · have same : (forest.join a b).parent i = i := by rw [parents, if_neg changed, own]
        rw [if_neg changed, root_of_parent_eq same]

@[simp] theorem length_join (forest : Forest) (a b : Nat) :
    (forest.join a b).parents.length = forest.parents.length :=
  List.length_set

theorem root_join_self (inside : a < forest.parents.length)
    (insideToo : b < forest.parents.length) :
    (forest.join a b).root a = (forest.join a b).root b := by
  rw [root_join inside insideToo, root_join inside insideToo]
  split <;> split <;> omega

theorem root_join_congr (inside : a < forest.parents.length)
    (insideToo : b < forest.parents.length) (same : forest.root i = forest.root j) :
    (forest.join a b).root i = (forest.join a b).root j := by
  rw [root_join inside insideToo, root_join inside insideToo, same]

theorem related_root_join {related : Nat → Nat → Prop} (equivalence : Equivalence related)
    (inside : a < forest.parents.length) (insideToo : b < forest.parents.length)
    (roots : ∀ i, related i (forest.root i)) (edge : related a b) (i : Nat) :
    related i ((forest.join a b).root i) := by
  have between : related (forest.root a) (forest.root b) :=
    equivalence.trans (equivalence.symm (roots a)) (equivalence.trans edge (roots b))
  rw [root_join inside insideToo]
  split
  · rename_i greater
    refine equivalence.trans (roots i) ?_
    rw [greater]
    rcases Nat.le_total (forest.root a) (forest.root b) with less | less
    · rw [Nat.max_eq_right less, Nat.min_eq_left less]
      exact equivalence.symm between
    · rw [Nat.max_eq_left less, Nat.min_eq_right less]
      exact between
  · exact roots i

section Fold

variable {edges : List (Nat × Nat)}

def joinAll (forest : Forest) (edges : List (Nat × Nat)) : Forest :=
  edges.foldl (fun forest edge => forest.join edge.1 edge.2) forest

theorem root_joinAll_congr
    (bounded : ∀ edge ∈ edges, edge.1 < forest.parents.length ∧ edge.2 < forest.parents.length)
    (same : forest.root i = forest.root j) :
    (forest.joinAll edges).root i = (forest.joinAll edges).root j := by
  induction edges generalizing forest with
  | nil => exact same
  | cons edge edges ih =>
      obtain ⟨⟨inside, insideToo⟩, rest⟩ := List.forall_mem_cons.mp bounded
      refine ih ?_ (root_join_congr inside insideToo same)
      rw [length_join]
      exact rest

theorem root_joinAll_of_mem
    (bounded : ∀ edge ∈ edges, edge.1 < forest.parents.length ∧ edge.2 < forest.parents.length) :
    ∀ edge ∈ edges, (forest.joinAll edges).root edge.1 = (forest.joinAll edges).root edge.2 := by
  induction edges generalizing forest with
  | nil => exact fun _ member => nomatch member
  | cons edge edges ih =>
      obtain ⟨⟨inside, insideToo⟩, rest⟩ := List.forall_mem_cons.mp bounded
      rw [← forest.length_join edge.1 edge.2] at rest
      have first : ((forest.join edge.1 edge.2).joinAll edges).root edge.1 =
          ((forest.join edge.1 edge.2).joinAll edges).root edge.2 :=
        root_joinAll_congr rest (root_join_self inside insideToo)
      exact List.forall_mem_cons.mpr ⟨first, ih rest⟩

theorem related_root_joinAll {related : Nat → Nat → Prop} (equivalence : Equivalence related)
    (bounded : ∀ edge ∈ edges, edge.1 < forest.parents.length ∧ edge.2 < forest.parents.length)
    (roots : ∀ i, related i (forest.root i)) (each : ∀ edge ∈ edges, related edge.1 edge.2) :
    ∀ i, related i ((forest.joinAll edges).root i) := by
  induction edges generalizing forest with
  | nil => exact roots
  | cons edge edges ih =>
      obtain ⟨⟨inside, insideToo⟩, rest⟩ := List.forall_mem_cons.mp bounded
      obtain ⟨first, others⟩ := List.forall_mem_cons.mp each
      rw [← forest.length_join edge.1 edge.2] at rest
      exact ih rest (related_root_join equivalence inside insideToo roots first) others

end Fold

/-- Positions are in one tree of the forest exactly if the joined pairs connect them. -/
theorem root_joinAll_discrete_eq_iff {size : Nat} {edges : List (Nat × Nat)}
    (bounded : ∀ edge ∈ edges, edge.1 < size ∧ edge.2 < size) {i j : Nat} :
    ((discrete size).joinAll edges).root i = ((discrete size).joinAll edges).root j ↔
      Relation.EqvGen (fun a b => (a, b) ∈ edges) i j := by
  have length : (discrete size).parents.length = size := List.length_range
  rw [← length] at bounded
  have equivalence := Relation.EqvGen.is_equivalence fun a b => (a, b) ∈ edges
  have alone (i : Nat) : (discrete size).root i = i := root_of_parent_eq (parent_discrete _ i)
  have rooted := related_root_joinAll equivalence bounded
    (fun i => by rw [alone]; exact .refl i) fun edge member => .rel _ _ member
  constructor
  · intro same
    exact equivalence.trans (rooted i) (same ▸ equivalence.symm (rooted j))
  · intro path
    induction path with
    | rel a b edge => exact root_joinAll_of_mem bounded (a, b) edge
    | refl => rfl
    | symm a b _ ih => exact ih.symm
    | trans a b c _ _ first second => exact first.trans second

theorem root_ofTree_eq_iff (tree : Tree) {i j : Nat} :
    (ofTree tree).root i = (ofTree tree).root j ↔
      Relation.EqvGen (fun a b => (a, b) ∈ tree.edges) i j :=
  root_joinAll_discrete_eq_iff tree.bounded_edges

end Forest

theorem eqvGen_lift {α β : Type} {related : α → α → Prop} {image : β → β → Prop} (f : α → β)
    (each : ∀ a b, related a b → image (f a) (f b)) {a b : α}
    (path : Relation.EqvGen related a b) : Relation.EqvGen image (f a) (f b) := by
  induction path with
  | rel a b edge => exact .rel _ _ (each a b edge)
  | refl a => exact .refl _
  | symm a b _ ih => exact .symm _ _ ih
  | trans a b c _ _ first second => exact .trans _ _ _ first second

/-! Nodes and positions -/

theorem lastIndex?_spec {α : Type} {test : α → Bool} {items : List α} {i : Nat}
    (found : lastIndex? test items = some i) : ∃ item, items[i]? = some item ∧ test item := by
  induction items generalizing i with
  | nil => simp [lastIndex?] at found
  | cons first rest ih =>
      unfold lastIndex? at found
      cases later : lastIndex? test rest with
      | some j =>
          obtain ⟨item, place, passed⟩ := ih later
          simp only [later, Option.some.injEq] at found
          subst found
          exact ⟨item, by simpa using place, passed⟩
      | none =>
          simp only [later] at found
          split at found
          · rename_i passed
            obtain rfl := Option.some.inj found
            exact ⟨first, rfl, passed⟩
          · contradiction

theorem exists_lastIndex? {α : Type} {test : α → Bool} {items : List α} {item : α}
    (member : item ∈ items) (passed : test item) : ∃ i, lastIndex? test items = some i := by
  induction items with
  | nil => contradiction
  | cons first rest ih =>
      cases later : lastIndex? test rest with
      | some j => exact ⟨j + 1, by simp only [lastIndex?, later]⟩
      | none =>
          rcases List.mem_cons.mp member with rfl | member
          · exact ⟨0, by simp only [lastIndex?, later, passed, if_true]⟩
          · obtain ⟨j, found⟩ := ih member
            simp [later] at found

namespace Tree

variable {tree : Tree}

theorem lastIndex?_eq_some {identifier : String} {i : Nat}
    (found : tree.lastIndex? identifier = some i) :
    ∃ node, tree.nodes[i]? = some node ∧ node.identifier = identifier := by
  obtain ⟨node, place, named⟩ := lastIndex?_spec found
  exact ⟨node, place, by simpa using named⟩

theorem exists_position {identifier : String} (member : identifier ∈ tree.identifiers) :
    ∃ i, tree.lastIndex? identifier = some i := by
  obtain ⟨node, inside, rfl⟩ := List.mem_map.mp member
  exact exists_lastIndex? inside (by simp)

theorem mem_of_lastIndex? {identifier : String} {i : Nat}
    (found : tree.lastIndex? identifier = some i) : identifier ∈ tree.identifiers := by
  obtain ⟨node, place, rfl⟩ := lastIndex?_eq_some found
  exact List.mem_map_of_mem (List.mem_of_getElem? place)

theorem identifierAt_of_getElem? {node : Node} {i : Nat} (place : tree.nodes[i]? = some node) :
    tree.identifierAt i = node.identifier := by
  simp [identifierAt, getElem?_identifiers, place]

theorem identifierAt_lastIndex? {identifier : String} {i : Nat}
    (found : tree.lastIndex? identifier = some i) : tree.identifierAt i = identifier := by
  obtain ⟨node, place, rfl⟩ := lastIndex?_eq_some found
  exact identifierAt_of_getElem? place

/-- Edges are the links between nodes of the tree, with the last node for a shared identifier. -/
theorem mem_edges {i j : Nat} : (i, j) ∈ tree.edges ↔
    ∃ link ∈ tree.links,
      tree.lastIndex? link.fromNode = some i ∧ tree.lastIndex? link.toNode = some j := by
  rw [edges, List.mem_filterMap]
  refine exists_congr fun link => and_congr_right fun _ => ?_
  cases tree.lastIndex? link.fromNode <;> cases tree.lastIndex? link.toNode <;> simp

/-- Whether links, followed in either direction between nodes of the tree, lead from one of its
nodes to the other. -/
def Joined (tree : Tree) (source target : String) : Prop :=
  source ∈ tree.identifiers ∧ Relation.ReflTransGen (Relation.SymmGen tree.Feeds) source target

theorem joined_iff {source target : String} : tree.Joined source target ↔
    source ∈ tree.identifiers ∧ Relation.EqvGen tree.Feeds source target := by
  rw [Joined, Relation.EqvGen.reflTransGen_symmGen]

theorem Joined.mem {source target : String} (joined : tree.Joined source target) :
    target ∈ tree.identifiers := by
  obtain ⟨inside, path⟩ := joined
  induction path with
  | refl => exact inside
  | tail _ step _ =>
      rcases step with feeds | feeds
      · exact feeds.2.1
      · exact feeds.1

theorem eqvGen_feeds {i j : Nat} (path : Relation.EqvGen (fun a b => (a, b) ∈ tree.edges) i j) :
    Relation.EqvGen tree.Feeds (tree.identifierAt i) (tree.identifierAt j) := by
  refine eqvGen_lift tree.identifierAt (fun a b edge => ?_) path
  obtain ⟨link, member, source, target⟩ := mem_edges.mp edge
  rw [identifierAt_lastIndex? source, identifierAt_lastIndex? target]
  exact ⟨mem_of_lastIndex? source, mem_of_lastIndex? target, link, member, rfl, rfl⟩

theorem eqvGen_edges {source target : String} (path : Relation.EqvGen tree.Feeds source target) :
    Relation.EqvGen (fun a b => (a, b) ∈ tree.edges) ((tree.lastIndex? source).getD 0)
      ((tree.lastIndex? target).getD 0) := by
  refine eqvGen_lift (fun identifier => (tree.lastIndex? identifier).getD 0) ?_ path
  rintro _ _ ⟨source, target, link, member, rfl, rfl⟩
  obtain ⟨i, source⟩ := exists_position source
  obtain ⟨j, target⟩ := exists_position target
  simp only [source, target, Option.getD_some]
  exact mem_edges.mpr ⟨link, member, source, target⟩

theorem root_eq_iff_joined {source target : String} {i j : Nat}
    (atSource : tree.lastIndex? source = some i) (atTarget : tree.lastIndex? target = some j) :
    (Forest.ofTree tree).root i = (Forest.ofTree tree).root j ↔ tree.Joined source target := by
  rw [Forest.root_ofTree_eq_iff, joined_iff]
  constructor
  · intro path
    have named := eqvGen_feeds path
    rw [identifierAt_lastIndex? atSource, identifierAt_lastIndex? atTarget] at named
    exact ⟨mem_of_lastIndex? atSource, named⟩
  · rintro ⟨-, path⟩
    have placed := eqvGen_edges path
    rwa [atSource, atTarget] at placed

theorem mem_networkMembers {seeds : List String} {identifier : String} :
    identifier ∈ tree.networkMembers seeds ↔
      ∃ node i, tree.nodes[i]? = some node ∧ node.identifier = identifier ∧
        ∃ seed ∈ seeds, ∃ p, tree.lastIndex? seed = some p ∧
          (Forest.ofTree tree).root p = (Forest.ofTree tree).root i := by
  simp only [networkMembers, mem_sortedNames, List.mem_map, List.mem_filter,
    List.mem_zipIdx_iff_getElem?, List.contains_iff_mem, List.mem_filterMap, Prod.exists]
  constructor
  · rintro ⟨node, i, ⟨place, p, ⟨seed, member, found⟩, same⟩, named⟩
    exact ⟨node, i, place, named, seed, member, p, found, same⟩
  · rintro ⟨node, i, place, named, seed, member, p, found, same⟩
    exact ⟨node, i, ⟨place, p, ⟨seed, member, found⟩, same⟩, named⟩

/-- The members of the networks of the seeds are the nodes joined to a seed. -/
theorem mem_networkMembers_iff {seeds : List String} {identifier : String} :
    identifier ∈ tree.networkMembers seeds ↔ ∃ seed ∈ seeds, tree.Joined seed identifier := by
  rw [mem_networkMembers]
  constructor
  · rintro ⟨node, i, place, rfl, seed, member, p, found, same⟩
    have path := eqvGen_feeds ((Forest.root_ofTree_eq_iff tree).mp same)
    rw [identifierAt_lastIndex? found, identifierAt_of_getElem? place] at path
    exact ⟨seed, member, joined_iff.mpr ⟨mem_of_lastIndex? found, path⟩⟩
  · rintro ⟨seed, member, joined⟩
    obtain ⟨p, source⟩ := exists_position joined.1
    obtain ⟨i, target⟩ := exists_position joined.mem
    obtain ⟨node, place, named⟩ := lastIndex?_eq_some target
    exact ⟨node, i, place, named, seed, member, p, source,
      (root_eq_iff_joined source target).mpr joined⟩

end Tree

end FrameGraph
