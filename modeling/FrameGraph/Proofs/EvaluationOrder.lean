import FrameGraph.Proofs.Schedule

/-!
The evaluation order of a tree whose nodes have identifiers of their own. Main statement: there is
one exactly if the links have no cycle, and then it is the least of all orders in which sources go
first; else the nodes that a cycle leads to are named.
-/

namespace FrameGraph

namespace Tree

def identifiers (tree : Tree) : List String :=
  tree.nodes.map (·.identifier)

/-- Whether a link leads from the first node to the second, both of them nodes of the tree. -/
def Feeds (tree : Tree) (source target : String) : Prop :=
  source ∈ tree.identifiers ∧ target ∈ tree.identifiers ∧
    ∃ link ∈ tree.links, link.fromNode = source ∧ link.toNode = target

def OnCycle (tree : Tree) (node : String) : Prop :=
  Relation.TransGen tree.Feeds node node

/-- An order of all nodes in which the sources of links go first. -/
structure IsOrder (tree : Tree) (order : List String) : Prop where
  perm : order.Perm tree.identifiers
  sourcesFirst : SourcesFirst tree.Feeds order

def position (tree : Tree) (node : String) : Nat :=
  tree.identifiers.idxOf node

@[simp] theorem length_identifiers (tree : Tree) :
    tree.identifiers.length = tree.nodes.length := by
  simp [identifiers]

theorem getElem?_identifiers (tree : Tree) (i : Nat) :
    tree.identifiers[i]? = tree.nodes[i]?.map (·.identifier) := by
  simp [identifiers]

end Tree

theorem lastIndex?_lt {α : Type} {test : α → Bool} {items : List α} {i : Nat}
    (found : lastIndex? test items = some i) : i < items.length := by
  induction items generalizing i with
  | nil => simp [lastIndex?] at found
  | cons first rest ih =>
      unfold lastIndex? at found
      cases later : lastIndex? test rest with
      | some j =>
          have := ih later
          simp only [later, Option.some.injEq] at found
          simp only [List.length_cons]
          omega
      | none =>
          simp only [later] at found
          split at found
          · simp only [Option.some.injEq] at found
            simp only [List.length_cons]
            omega
          · contradiction

theorem lastIndex?_key {α : Type} {key : α → String} {items : List α}
    (distinct : (items.map key).Nodup) (name : String) :
    lastIndex? (fun item => key item = name) items =
      if name ∈ items.map key then some ((items.map key).idxOf name) else none := by
  induction items with
  | nil => rfl
  | cons first rest ih =>
      obtain ⟨absent, distinct⟩ := List.nodup_cons.mp distinct
      rw [lastIndex?, ih distinct]
      by_cases later : name ∈ rest.map key
      · have differs : key first ≠ name := fun same => absent (same ▸ later)
        simp only [later, if_true, List.map_cons, List.mem_cons, or_true]
        rw [List.idxOf_cons_ne _ differs]
      · by_cases same : key first = name
        · simp [later, same]
        · simp [later, same, Ne.symm same]

namespace Tree

variable {tree : Tree}

theorem bounded_edges (tree : Tree) :
    ∀ edge ∈ tree.edges, edge.1 < tree.nodes.length ∧ edge.2 < tree.nodes.length := by
  intro edge member
  obtain ⟨link, -, found⟩ := List.mem_filterMap.mp member
  split at found
  · rename_i source target foundSource foundTarget
    cases found
    exact ⟨lastIndex?_lt foundSource, lastIndex?_lt foundTarget⟩
  · contradiction

theorem lastIndex?_eq_some_iff (distinct : tree.identifiers.Nodup) {node : String} {i : Nat} :
    tree.lastIndex? node = some i ↔ node ∈ tree.identifiers ∧ tree.position node = i := by
  have found := lastIndex?_key distinct node
  unfold Tree.lastIndex? position identifiers
  rw [found]
  split
  · rename_i member
    simp [member]
  · rename_i absent
    simp [absent]

theorem mem_edges_iff (distinct : tree.identifiers.Nodup) {i j : Nat} :
    (i, j) ∈ tree.edges ↔
      ∃ source target, tree.Feeds source target ∧
        tree.position source = i ∧ tree.position target = j := by
  unfold edges
  rw [List.mem_filterMap]
  constructor
  · rintro ⟨link, member, found⟩
    split at found
    · rename_i a b foundSource foundTarget
      cases found
      obtain ⟨source, atSource⟩ := (lastIndex?_eq_some_iff distinct).mp foundSource
      obtain ⟨target, atTarget⟩ := (lastIndex?_eq_some_iff distinct).mp foundTarget
      exact ⟨_, _, ⟨source, target, link, member, rfl, rfl⟩, atSource, atTarget⟩
    · contradiction
  · rintro ⟨source, target, ⟨memSource, memTarget, link, member, rfl, rfl⟩, rfl, rfl⟩
    refine ⟨link, member, ?_⟩
    rw [(lastIndex?_eq_some_iff distinct).mpr ⟨memSource, rfl⟩,
      (lastIndex?_eq_some_iff distinct).mpr ⟨memTarget, rfl⟩]

/-! Positions below the number of nodes and identifiers of nodes stand for each other. -/

theorem identifiersAt_eq (tree : Tree) (positions : List Nat) :
    tree.identifiersAt positions = positions.filterMap (tree.identifiers[·]?) := by
  unfold identifiersAt
  congr 1
  funext i
  exact (tree.getElem?_identifiers i).symm

theorem identifiersAt_range (tree : Tree) :
    tree.identifiersAt (List.range tree.nodes.length) = tree.identifiers := by
  rw [identifiersAt_eq]
  apply List.ext_getElem?
  intro i
  rw [← length_identifiers]
  have all : ∀ (items : List String),
      (List.range items.length).filterMap (items[·]?) = items := by
    intro items
    induction items with
    | nil => rfl
    | cons first rest ih =>
        rw [List.length_cons, List.range_succ_eq_map, List.filterMap_cons]
        simpa [List.filterMap_map, Function.comp_def] using ih
  rw [all]

theorem position_lt {node : String} (member : node ∈ tree.identifiers) :
    tree.position node < tree.nodes.length := by
  rw [← length_identifiers]
  exact List.idxOf_lt_length_of_mem member

theorem identifier_position {node : String} (member : node ∈ tree.identifiers) :
    tree.identifiers[tree.position node]? = some node := by
  unfold position
  rw [List.getElem?_eq_getElem (List.idxOf_lt_length_of_mem member)]
  exact congrArg some (List.getElem_idxOf _)

theorem position_inj {a b : String} (member : a ∈ tree.identifiers)
    (same : tree.position a = tree.position b) : a = b :=
  (List.idxOf_inj member).mp same

theorem position_of_getElem? (distinct : tree.identifiers.Nodup) {node : String} {i : Nat}
    (found : tree.identifiers[i]? = some node) : tree.position node = i := by
  obtain ⟨inside, rfl⟩ := List.getElem?_eq_some_iff.mp found
  exact List.Nodup.idxOf_getElem distinct i inside

theorem map_position_identifiersAt (distinct : tree.identifiers.Nodup) {positions : List Nat}
    (inside : ∀ i ∈ positions, i < tree.nodes.length) :
    (tree.identifiersAt positions).map tree.position = positions := by
  rw [identifiersAt_eq]
  induction positions with
  | nil => rfl
  | cons i positions ih =>
      have bound := inside i List.mem_cons_self
      rw [← length_identifiers] at bound
      have found := List.getElem?_eq_getElem bound
      rw [List.filterMap_cons, found]
      simp only [List.map_cons, List.cons.injEq]
      exact ⟨position_of_getElem? distinct found,
        ih fun j member => inside j (List.mem_cons_of_mem _ member)⟩

theorem identifiersAt_map_position {order : List String}
    (nodes : ∀ node ∈ order, node ∈ tree.identifiers) :
    tree.identifiersAt (order.map tree.position) = order := by
  rw [identifiersAt_eq]
  induction order with
  | nil => rfl
  | cons node order ih =>
      rw [List.map_cons, List.filterMap_cons, identifier_position (nodes node List.mem_cons_self)]
      simp only [List.cons.injEq, true_and]
      exact ih fun other member => nodes other (List.mem_cons_of_mem _ member)

theorem map_position_identifiers (distinct : tree.identifiers.Nodup) :
    tree.identifiers.map tree.position = List.range tree.nodes.length := by
  rw [← identifiersAt_range]
  exact map_position_identifiersAt distinct fun i member => List.mem_range.mp member

theorem mem_identifiersAt (distinct : tree.identifiers.Nodup) {positions : List Nat}
    {node : String} :
    node ∈ tree.identifiersAt positions ↔
      node ∈ tree.identifiers ∧ tree.position node ∈ positions := by
  rw [identifiersAt_eq, List.mem_filterMap]
  constructor
  · rintro ⟨i, member, found⟩
    rw [position_of_getElem? distinct found]
    exact ⟨List.mem_of_getElem? found, member⟩
  · rintro ⟨node_mem, member⟩
    exact ⟨_, member, identifier_position node_mem⟩

/-! Paths along links are paths along edges. -/

def identifierAt (tree : Tree) (i : Nat) : String :=
  tree.identifiers.getD i ""

theorem identifierAt_position {node : String} (member : node ∈ tree.identifiers) :
    tree.identifierAt (tree.position node) = node := by
  rw [identifierAt, List.getD_eq_getElem?_getD, identifier_position member]
  rfl

theorem edge_of_feeds (distinct : tree.identifiers.Nodup) {a b : String}
    (feeds : tree.Feeds a b) : (tree.position a, tree.position b) ∈ tree.edges :=
  (mem_edges_iff distinct).mpr ⟨a, b, feeds, rfl, rfl⟩

theorem feeds_of_edge (distinct : tree.identifiers.Nodup) {i j : Nat}
    (edge : (i, j) ∈ tree.edges) : tree.Feeds (tree.identifierAt i) (tree.identifierAt j) := by
  obtain ⟨source, target, feeds, rfl, rfl⟩ := (mem_edges_iff distinct).mp edge
  rwa [identifierAt_position feeds.1, identifierAt_position feeds.2.1]

theorem OnCycle.mem {node : String} (cycle : tree.OnCycle node) : node ∈ tree.identifiers := by
  obtain ⟨next, feeds, -⟩ := Relation.TransGen.head'_iff.mp cycle
  exact feeds.1

/-- The nodes that a cycle leads to, by their positions. -/
theorem behind_cycle_iff (distinct : tree.identifiers.Nodup) {node : String}
    (member : node ∈ tree.identifiers) :
    (∃ c, Relation.TransGen (fun a b => (a, b) ∈ tree.edges) c c ∧
      Relation.ReflTransGen (fun a b => (a, b) ∈ tree.edges) c (tree.position node)) ↔
    ∃ c, tree.OnCycle c ∧ Relation.ReflTransGen tree.Feeds c node := by
  constructor
  · rintro ⟨c, cycle, path⟩
    refine ⟨tree.identifierAt c, ?_, ?_⟩
    · exact cycle.lift tree.identifierAt fun _ _ edge => feeds_of_edge distinct edge
    · rw [← identifierAt_position member]
      exact path.lift tree.identifierAt fun _ _ edge => feeds_of_edge distinct edge
  · rintro ⟨c, cycle, path⟩
    refine ⟨tree.position c, ?_, ?_⟩
    · exact cycle.lift tree.position fun _ _ feeds => edge_of_feeds distinct feeds
    · exact path.lift tree.position fun _ _ feeds => edge_of_feeds distinct feeds

/-! The order that the loop finds, and the nodes that it leaves. -/

theorem invariant_edges (tree : Tree) :
    Schedule.Invariant tree.nodes.length tree.edges
      (Schedule.ofEdges tree.nodes.length tree.edges).1
      (Schedule.ofEdges tree.nodes.length tree.edges).2 [] :=
  Schedule.invariant_ofEdges fun edge member => (tree.bounded_edges edge member).2

theorem position_not_mem_iff (distinct : tree.identifiers.Nodup) {node : String}
    (member : node ∈ tree.identifiers) :
    tree.position node ∉ (Schedule.ofEdges tree.nodes.length tree.edges).1 ↔
      ∃ c, tree.OnCycle c ∧ Relation.ReflTransGen tree.Feeds c node := by
  rw [← behind_cycle_iff distinct member]
  exact tree.invariant_edges.not_mem_iff (fun edge member => (tree.bounded_edges edge member).1)
    (position_lt member)

theorem length_order_eq_iff (distinct : tree.identifiers.Nodup) :
    (Schedule.ofEdges tree.nodes.length tree.edges).1.length = tree.nodes.length ↔
      ∀ node, ¬ tree.OnCycle node := by
  rw [tree.invariant_edges.length_eq_iff]
  constructor
  · intro complete node cycle
    have left := (position_not_mem_iff distinct cycle.mem).mpr ⟨node, cycle, .refl⟩
    exact left (complete _ (position_lt cycle.mem))
  · intro acyclic i inside
    rw [← length_identifiers] at inside
    have found := List.getElem?_eq_getElem inside
    have member : tree.identifiers[i] ∈ tree.identifiers := List.getElem_mem inside
    rw [← position_of_getElem? distinct found]
    by_contra left
    obtain ⟨c, cycle, -⟩ := (position_not_mem_iff distinct member).mp left
    exact acyclic c cycle

theorem evaluationOrder_eq (tree : Tree) :
    tree.evaluationOrder =
      if (Schedule.ofEdges tree.nodes.length tree.edges).1.length = tree.nodes.length then
        .ok (tree.identifiersAt (Schedule.ofEdges tree.nodes.length tree.edges).1)
      else
        .error (tree.identifiersAt ((List.range tree.nodes.length).filter fun i =>
          0 < (Schedule.ofEdges tree.nodes.length tree.edges).2.getD i 0)) :=
  rfl

theorem evaluationOrder_eq_ok_iff (distinct : tree.identifiers.Nodup) :
    (∃ order, tree.evaluationOrder = .ok order) ↔ ∀ node, ¬ tree.OnCycle node := by
  rw [← length_order_eq_iff distinct, evaluationOrder_eq]
  split
  · rename_i complete
    exact iff_of_true ⟨_, rfl⟩ complete
  · rename_i incomplete
    exact iff_of_false (by simp) incomplete

theorem evaluationOrder_eq_error_iff (distinct : tree.identifiers.Nodup) :
    (∃ nodes, tree.evaluationOrder = .error nodes) ↔ ∃ node, tree.OnCycle node := by
  rw [← not_iff_not, not_exists (p := tree.OnCycle), ← evaluationOrder_eq_ok_iff distinct]
  cases tree.evaluationOrder <;> simp

/-! What an order that was found is, and what the nodes are that were left. -/

theorem order_of_evaluationOrder {order : List String} (found : tree.evaluationOrder = .ok order) :
    (∀ i < tree.nodes.length, i ∈ (Schedule.ofEdges tree.nodes.length tree.edges).1) ∧
      order = tree.identifiersAt (Schedule.ofEdges tree.nodes.length tree.edges).1 := by
  rw [evaluationOrder_eq] at found
  split at found
  · rename_i complete
    exact ⟨tree.invariant_edges.length_eq_iff.mp complete, (Except.ok.inj found).symm⟩
  · contradiction

theorem perm_of_evaluationOrder {order : List String} (found : tree.evaluationOrder = .ok order) :
    order.Perm tree.identifiers := by
  obtain ⟨complete, rfl⟩ := order_of_evaluationOrder found
  rw [← identifiersAt_range tree, identifiersAt_eq, identifiersAt_eq]
  exact (tree.invariant_edges.perm_range complete).filterMap _

theorem sourcesFirst_identifiersAt (distinct : tree.identifiers.Nodup) {positions : List Nat}
    (inside : ∀ i ∈ positions, i < tree.nodes.length)
    (first : SourcesFirst (fun a b => (a, b) ∈ tree.edges) positions) :
    SourcesFirst tree.Feeds (tree.identifiersAt positions) := by
  intro before x after split a feeds
  have places := congrArg (List.map tree.position) split
  rw [map_position_identifiersAt distinct inside, List.map_append, List.map_cons] at places
  have early := first _ _ _ places (tree.position a) (edge_of_feeds distinct feeds)
  obtain ⟨b, member, same⟩ := List.mem_map.mp early
  rwa [position_inj feeds.1 same.symm]

theorem sourcesFirst_positions (distinct : tree.identifiers.Nodup) {order : List String}
    (nodes : ∀ node ∈ order, node ∈ tree.identifiers) (first : SourcesFirst tree.Feeds order) :
    SourcesFirst (fun a b => (a, b) ∈ tree.edges) (order.map tree.position) := by
  intro before i after split a edge
  obtain ⟨front, back, rfl, rfl, places⟩ := List.map_eq_append_iff.mp split
  obtain ⟨x, rest, rfl, rfl, rfl⟩ := List.map_eq_cons_iff.mp places
  obtain ⟨source, target, feeds, rfl, same⟩ := (mem_edges_iff distinct).mp edge
  obtain rfl := position_inj feeds.2.1 same
  exact List.mem_map_of_mem (first front target rest rfl source feeds)

theorem isOrder_evaluationOrder (distinct : tree.identifiers.Nodup) {order : List String}
    (found : tree.evaluationOrder = .ok order) : tree.IsOrder order := by
  refine ⟨perm_of_evaluationOrder found, ?_⟩
  obtain ⟨-, rfl⟩ := order_of_evaluationOrder found
  have inv := tree.invariant_edges
  exact sourcesFirst_identifiersAt distinct inv.lt_size inv.sourcesFirst

/-- By positions in the tree, no order in which sources go first comes before the one found. -/
theorem evaluationOrder_least (distinct : tree.identifiers.Nodup) {order other : List String}
    (found : tree.evaluationOrder = .ok order) (valid : tree.IsOrder other) :
    order = other ∨
      List.Lex (· < ·) (order.map tree.position) (other.map tree.position) := by
  have own := isOrder_evaluationOrder distinct found
  obtain ⟨-, rfl⟩ := order_of_evaluationOrder found
  have perm : ([] ++ other.map tree.position).Perm (List.range tree.nodes.length) := by
    rw [← map_position_identifiers distinct]
    exact valid.perm.map _
  have first := sourcesFirst_positions distinct (fun _ => valid.perm.mem_iff.mp)
    valid.sourcesFirst
  have bounded : ∀ edge ∈ tree.edges, edge.2 < tree.nodes.length :=
    fun edge member => (tree.bounded_edges edge member).2
  have least := Schedule.run_least tree.nodes.length (.init bounded) bounded perm first
  rw [map_position_identifiersAt distinct tree.invariant_edges.lt_size]
  rcases least with same | lower
  · left
    have restored := identifiersAt_map_position fun _ => valid.perm.mem_iff.mp
    exact (congrArg tree.identifiersAt same).trans restored
  · exact .inr lower

theorem mem_of_evaluationOrder_error (distinct : tree.identifiers.Nodup) {nodes : List String}
    (found : tree.evaluationOrder = .error nodes) :
    nodes.Sublist tree.identifiers ∧
      ∀ node, node ∈ nodes ↔ node ∈ tree.identifiers ∧
        ∃ c, tree.OnCycle c ∧ Relation.ReflTransGen tree.Feeds c node := by
  rw [evaluationOrder_eq] at found
  split at found
  · contradiction
  · obtain rfl := Except.error.inj found
    constructor
    · conv_rhs => rw [← identifiersAt_range tree]
      rw [identifiersAt_eq, identifiersAt_eq]
      exact List.filter_sublist.filterMap _
    · intro node
      rw [mem_identifiersAt distinct]
      apply and_congr_right
      intro member
      have inside := position_lt member
      rw [← position_not_mem_iff distinct member,
        ← tree.invariant_edges.left_pos_iff inside]
      simp [inside]

/-- There is an order exactly if no links lead in a circle. It holds every node once, sources
first, and no other such order comes before it by positions in the tree. Else the error names, in
tree order, the nodes that a circle leads to. On the way no count of links falls below zero and no
node is taken twice. -/
theorem evaluationOrder_least_or_cyclic (tree : Tree) (distinct : tree.identifiers.Nodup) :
    ((∃ order, tree.evaluationOrder = .ok order) ↔ ∀ node, ¬ tree.OnCycle node) ∧
    (∀ order, tree.evaluationOrder = .ok order →
      tree.IsOrder order ∧ ∀ other, tree.IsOrder other →
        order = other ∨ List.Lex (· < ·) (order.map tree.position) (other.map tree.position)) ∧
    (∀ nodes, tree.evaluationOrder = .error nodes →
      nodes.Sublist tree.identifiers ∧
        ∀ node, node ∈ nodes ↔ node ∈ tree.identifiers ∧
          ∃ c, tree.OnCycle c ∧ Relation.ReflTransGen tree.Feeds c node) ∧
    Schedule.ofEdgesChecked tree.nodes.length tree.edges =
      some (Schedule.ofEdges tree.nodes.length tree.edges) := by
  refine ⟨evaluationOrder_eq_ok_iff distinct, ?_, ?_, ?_⟩
  · intro order found
    exact ⟨isOrder_evaluationOrder distinct found,
      fun other valid => evaluationOrder_least distinct found valid⟩
  · intro nodes found
    exact mem_of_evaluationOrder_error distinct found
  · exact Schedule.ofEdgesChecked_eq fun edge member => (tree.bounded_edges edge member).2

def ofLinks (nodes : List String) (links : List (String × String)) : Tree where
  name := "Main"
  nodes := nodes.map (Node.ofKind · "")
  links := links.map fun link => ⟨link.1, "out", link.2, "in"⟩
  metadata := ⟨"", "", ""⟩
  revision := 0

/-- Two links from `b` to `a` and one from a missing node; and a circle of `b` and `c` before
`d`. -/
theorem evaluationOrder_least_or_cyclic_ofLinks :
    let plain := ofLinks ["a", "b", "c"] [("b", "a"), ("b", "a"), ("x", "b"), ("a", "c")]
    let circle := ofLinks ["a", "b", "c", "d"] [("b", "c"), ("c", "b"), ("c", "d"), ("a", "d")]
    (plain.identifiers.Nodup ∧ plain.evaluationOrder = .ok ["b", "a", "c"] ∧
      plain.IsOrder ["b", "a", "c"]) ∧
    (circle.identifiers.Nodup ∧ circle.evaluationOrder = .error ["b", "c", "d"] ∧
      ∃ c, circle.OnCycle c ∧ Relation.ReflTransGen circle.Feeds c "d") := by
  intro plain circle
  have plainOrder : plain.evaluationOrder = .ok ["b", "a", "c"] := by decide
  have circleOrder : circle.evaluationOrder = .error ["b", "c", "d"] := by decide
  have plainDistinct : plain.identifiers.Nodup := by decide
  have circleDistinct : circle.identifiers.Nodup := by decide
  obtain ⟨-, ordered, -⟩ := evaluationOrder_least_or_cyclic plain plainDistinct
  obtain ⟨-, -, cyclic, -⟩ := evaluationOrder_least_or_cyclic circle circleDistinct
  refine ⟨⟨plainDistinct, plainOrder, (ordered _ plainOrder).1⟩, circleDistinct, circleOrder, ?_⟩
  exact (((cyclic _ circleOrder).2 "d").mp (by decide)).2

end Tree

end FrameGraph
