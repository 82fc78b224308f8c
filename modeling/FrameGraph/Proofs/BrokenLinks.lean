import FrameGraph.Proofs.ExactFlags
import FrameGraph.Proofs.LinkIntegrity

/-!
The networks that broken links touch. Main statement: the nodes marked are those that links join to
a node at fault, and a link to a node without the socket puts one of its ends at fault, so all of
both ends' networks is marked. A link to a missing node puts no node at fault.
-/

namespace FrameGraph.Tree

/-- Whether validation finds fault with the nodes of the identifier themselves. -/
inductive AtFault (tree : Tree) (registry : Registry) : String → Prop
  | unnamed (member : "" ∈ tree.identifiers) : AtFault tree registry ""
  | shared {identifier : String} (several : 1 < tree.identifiers.count identifier) :
      AtFault tree registry identifier
  | unknownKind {node : Node} (member : node ∈ tree.nodes)
      (unknown : registry.kind? node.kind = none) : AtFault tree registry node.identifier
  | missingOutput {link : Link} {node : Node} (member : link ∈ tree.links)
      (found : tree.node? link.fromNode = some node)
      (missing : node.hasOutput link.fromSocket = false) : AtFault tree registry link.fromNode
  | missingInput {link : Link} {node : Node} (member : link ∈ tree.links)
      (found : tree.node? link.toNode = some node)
      (missing : node.hasInput link.toSocket = false) : AtFault tree registry link.toNode
  | crowdedInput {node : Node} {socket : Socket} (member : node ∈ tree.nodes)
      (inside : socket ∈ node.inputs)
      (crowded : 1 < tree.links.countP (·.entersInput node.identifier socket.identifier)) :
      AtFault tree registry node.identifier

/-- Whether the link names, at one of its ends, a node that does not have the socket. -/
def LacksSocket (tree : Tree) (link : Link) : Prop :=
  (∃ node, tree.node? link.fromNode = some node ∧ node.hasOutput link.fromSocket = false) ∨
    ∃ node, tree.node? link.toNode = some node ∧ node.hasInput link.toSocket = false

variable {tree : Tree} {registry : Registry} {seed : String}

theorem Joined.trans {source middle target : String} (first : tree.Joined source middle)
    (second : tree.Joined middle target) : tree.Joined source target :=
  ⟨first.1, first.2.trans second.2⟩

theorem joined_ends {link : Link} (member : link ∈ tree.links) {first second : String}
    (isEnd : first ∈ [link.fromNode, link.toNode])
    (isEndToo : second ∈ [link.fromNode, link.toNode])
    (inside : first ∈ tree.identifiers) (insideToo : second ∈ tree.identifiers) :
    tree.Joined first second := by
  simp only [List.mem_cons, List.not_mem_nil, or_false] at isEnd isEndToo
  refine ⟨inside, ?_⟩
  rcases isEnd with rfl | rfl
  · rcases isEndToo with rfl | rfl
    · exact .refl
    · exact .single (.inl ⟨inside, insideToo, link, member, rfl, rfl⟩)
  · rcases isEndToo with rfl | rfl
    · exact .single (.inr ⟨insideToo, inside, link, member, rfl, rfl⟩)
    · exact .refl

/-! The nodes that the problems of each list are about. -/

theorem mem_nodes_identifierProblems :
    seed ∈ tree.identifierProblems.flatMap Problem.nodes ↔
      (seed = "" ∧ seed ∈ tree.identifiers) ∨
        (seed ≠ "" ∧ 1 < tree.identifiers.count seed) := by
  have positions (node : Node) (i : Nat) :
      (node, i) ∈ tree.nodes.zipIdx ↔ tree.nodes[i]? = some node :=
    List.mem_zipIdx_iff_getElem?
  simp only [identifierProblems, List.mem_flatMap, List.mem_filterMap, Prod.exists, positions]
  constructor
  · rintro ⟨problem, ⟨node, i, place, reported⟩, about⟩
    have member : node.identifier ∈ tree.identifiers :=
      List.mem_map_of_mem (List.mem_of_getElem? place)
    split at reported
    · rename_i empty
      obtain rfl := Option.some.inj reported
      obtain rfl : seed = "" := List.mem_singleton.mp about
      exact .inl ⟨rfl, empty ▸ member⟩
    · rename_i named
      split at reported
      · rename_i found
        obtain rfl := Option.some.inj reported
        obtain rfl : seed = node.identifier := List.mem_singleton.mp about
        rw [count_identifiers, Bool.and_eq_true, decide_eq_true_eq] at found
        exact .inr ⟨named, found.1⟩
      · contradiction
  · rintro (⟨rfl, member⟩ | ⟨named, several⟩)
    · obtain ⟨node, inside, empty⟩ := List.mem_map.mp member
      obtain ⟨i, place⟩ := List.mem_iff_getElem?.mp inside
      exact ⟨_, ⟨node, i, place, if_pos empty⟩, List.mem_singleton_self ""⟩
    · have inside : tree.nodes.findIdx (·.identifier = seed) < tree.nodes.length := by
        have positive : 0 < tree.identifiers.count seed := by omega
        obtain ⟨node, member, same⟩ := List.mem_map.mp (List.count_pos_iff.mp positive)
        exact List.findIdx_lt_length_of_exists ⟨node, member, by simpa using same⟩
      have same : tree.nodes[tree.nodes.findIdx (·.identifier = seed)].identifier = seed := by
        simpa using List.findIdx_getElem (w := inside)
      have reported : 1 < tree.nodes.countP (·.identifier = seed) := by
        rwa [count_identifiers]
      refine ⟨.duplicateIdentifier seed (tree.nodes.countP (·.identifier = seed)),
        ⟨_, _, List.getElem?_eq_getElem inside, ?_⟩, List.mem_singleton_self seed⟩
      simp [same, named, reported]

theorem mem_nodes_kindProblems :
    seed ∈ (tree.kindProblems registry).flatMap Problem.nodes ↔
      ∃ node ∈ tree.nodes, registry.kind? node.kind = none ∧ node.identifier = seed := by
  simp only [kindProblems, List.flatMap_map, List.mem_flatMap, List.mem_filter, Registry.contains,
    Problem.nodes, List.mem_singleton, Bool.not_eq_true', Option.isSome_eq_false_iff,
    Option.isNone_iff_eq_none, and_assoc]
  simp only [eq_comm (a := seed)]

theorem mem_nodes_endProblem? {identifier socket : String} {hasSocket : Node → Bool}
    (inside : seed ∈ tree.identifiers) :
    seed ∈ (tree.endProblem? identifier socket hasSocket).toList.flatMap Problem.nodes ↔
      seed = identifier ∧ ∃ node, tree.node? identifier = some node ∧ hasSocket node = false := by
  unfold endProblem?
  cases found : tree.node? identifier with
  | none =>
      have other : seed ≠ identifier := by
        rintro rfl
        obtain ⟨node, present⟩ := exists_node? inside
        rw [found] at present
        cases present
      simp [Problem.nodes, other]
  | some node => cases missing : hasSocket node <;> simp [Problem.nodes, missing]

theorem mem_nodes_linkProblems (inside : seed ∈ tree.identifiers) :
    seed ∈ (tree.links.flatMap tree.linkProblems).flatMap Problem.nodes ↔
      ∃ link ∈ tree.links,
        (seed = link.fromNode ∧
          ∃ node, tree.node? link.fromNode = some node ∧ node.hasOutput link.fromSocket = false) ∨
        (seed = link.toNode ∧
          ∃ node, tree.node? link.toNode = some node ∧ node.hasInput link.toSocket = false) := by
  rw [List.flatMap_assoc]
  simp only [List.mem_flatMap (l := tree.links), linkProblems, List.flatMap_append, List.mem_append,
    mem_nodes_endProblem? inside]

theorem mem_nodes_inputProblems :
    seed ∈ (tree.nodes.flatMap tree.inputProblems).flatMap Problem.nodes ↔
      ∃ node ∈ tree.nodes, ∃ socket ∈ node.inputs,
        1 < tree.links.countP (·.entersInput node.identifier socket.identifier) ∧
          node.identifier = seed := by
  rw [List.flatMap_assoc]
  simp only [inputProblems, List.mem_flatMap, List.mem_filterMap]
  constructor
  · rintro ⟨node, member, problem, ⟨socket, inside, reported⟩, about⟩
    split at reported
    · rename_i crowded
      obtain rfl := Option.some.inj reported
      exact ⟨node, member, socket, inside, crowded, (List.mem_singleton.mp about).symm⟩
    · contradiction
  · rintro ⟨node, member, socket, inside, crowded, rfl⟩
    exact ⟨node, member, _, ⟨socket, inside, if_pos crowded⟩, List.mem_singleton_self _⟩

/-- The nodes of the tree that its problems are about are those at fault. -/
theorem mem_nodes_problems_iff (inside : seed ∈ tree.identifiers) :
    seed ∈ (tree.problems registry).flatMap Problem.nodes ↔ tree.AtFault registry seed := by
  simp only [problems, List.flatMap_append, List.mem_append, mem_nodes_identifierProblems,
    mem_nodes_kindProblems, mem_nodes_linkProblems inside, mem_nodes_inputProblems]
  constructor
  · rintro (((identifier | kind) | link) | input)
    · rcases identifier with ⟨rfl, member⟩ | ⟨-, several⟩
      · exact .unnamed member
      · exact .shared several
    · obtain ⟨node, member, unknown, rfl⟩ := kind
      exact .unknownKind member unknown
    · obtain ⟨link, member, ⟨rfl, node, found, missing⟩ | ⟨rfl, node, found, missing⟩⟩ := link
      · exact .missingOutput member found missing
      · exact .missingInput member found missing
    · obtain ⟨node, member, socket, has, crowded, rfl⟩ := input
      exact .crowdedInput member has crowded
  · intro fault
    cases fault with
    | unnamed member => exact .inl (.inl (.inl (.inl ⟨rfl, member⟩)))
    | shared several =>
        by_cases empty : seed = ""
        · exact .inl (.inl (.inl (.inl ⟨empty, inside⟩)))
        · exact .inl (.inl (.inl (.inr ⟨empty, several⟩)))
    | unknownKind member unknown => exact .inl (.inl (.inr ⟨_, member, unknown, rfl⟩))
    | missingOutput member found missing =>
        exact .inl (.inr ⟨_, member, .inl ⟨rfl, _, found, missing⟩⟩)
    | missingInput member found missing =>
        exact .inl (.inr ⟨_, member, .inr ⟨rfl, _, found, missing⟩⟩)
    | crowdedInput member has crowded => exact .inr ⟨_, member, _, has, crowded, rfl⟩

theorem mem_invalidNodes_problems_iff {identifier : String} :
    identifier ∈ tree.invalidNodes (tree.problems registry) ↔
      ∃ seed, tree.AtFault registry seed ∧ tree.Joined seed identifier := by
  rw [invalidNodes, mem_networkMembers_iff]
  exact exists_congr fun seed =>
    and_congr_left fun joined => mem_nodes_problems_iff joined.1

theorem LacksSocket.exists_atFault (registry : Registry) {link : Link}
    (member : link ∈ tree.links) (lacks : tree.LacksSocket link) :
    ∃ seed ∈ [link.fromNode, link.toNode], seed ∈ tree.identifiers ∧
      tree.AtFault registry seed := by
  have named {identifier : String} {node : Node} (found : tree.node? identifier = some node) :
      identifier ∈ tree.identifiers := by
    obtain ⟨inside, rfl⟩ := mem_of_node? found
    exact List.mem_map_of_mem inside
  rcases lacks with ⟨node, found, missing⟩ | ⟨node, found, missing⟩
  · exact ⟨_, by simp, named found, .missingOutput member found missing⟩
  · exact ⟨_, by simp, named found, .missingInput member found missing⟩

/-- Marked are the nodes that links join to a node at fault. Where a link names a node that lacks
the socket, this is all of the network of each of its ends that is a node. -/
theorem invalidNodes_problems (tree : Tree) (registry : Registry) :
    (∀ identifier, identifier ∈ tree.invalidNodes (tree.problems registry) ↔
      ∃ seed, tree.AtFault registry seed ∧ tree.Joined seed identifier) ∧
    ∀ link ∈ tree.links, tree.LacksSocket link →
      ∀ endpoint ∈ [link.fromNode, link.toNode], ∀ identifier, tree.Joined endpoint identifier →
        identifier ∈ tree.invalidNodes (tree.problems registry) := by
  refine ⟨fun _ => mem_invalidNodes_problems_iff, ?_⟩
  intro link member lacks endpoint isEnd identifier joined
  obtain ⟨seed, seedIsEnd, inside, fault⟩ := lacks.exists_atFault registry member
  have between := joined_ends member seedIsEnd isEnd inside joined.1
  exact mem_invalidNodes_problems_iff.mpr ⟨seed, fault, between.trans joined⟩

def danglingLinks : Tree :=
  { Tree.new "Main" ⟨0, ""⟩ with
    nodes := ["a", "b", "c"].map fun identifier =>
      (Recipe.pipe []).toKind.create (Node.ofKind identifier "pipe")
    links := [⟨"gone", "out", "a", "in"⟩, ⟨"b", "nope", "c", "in"⟩] }

theorem invalidNodes_problems_danglingLinks :
    danglingLinks.LacksSocket ⟨"b", "nope", "c", "in"⟩ ∧
      "c" ∈ danglingLinks.invalidNodes (danglingLinks.problems (.pipes [])) := by
  have lacks : danglingLinks.LacksSocket ⟨"b", "nope", "c", "in"⟩ := .inl ⟨_, rfl, rfl⟩
  have inside : "c" ∈ danglingLinks.identifiers := by decide
  exact ⟨lacks, (invalidNodes_problems danglingLinks (.pipes [])).2 ⟨"b", "nope", "c", "in"⟩
    (by decide) lacks "c" (by decide) "c" ⟨inside, .refl⟩⟩

/-- A link from a missing node leaves the node that it enters unmarked. -/
theorem not_marked_danglingLinks :
    ¬ ∀ (tree : Tree) (registry : Registry), ∀ link ∈ tree.links,
      ¬ (tree.hasSource link ∧ tree.hasTarget link) →
        ∀ endpoint ∈ [link.fromNode, link.toNode], ∀ identifier, tree.Joined endpoint identifier →
          identifier ∈ tree.invalidNodes (tree.problems registry) := by
  intro always
  have marked := always danglingLinks (.pipes []) ⟨"gone", "out", "a", "in"⟩ (by decide)
    (by decide) "a" (by decide) "a" ⟨by decide, .refl⟩
  have others : danglingLinks.invalidNodes (danglingLinks.problems (.pipes [])) = ["b", "c"] := by
    decide +kernel
  rw [others] at marked
  exact absurd marked (by decide)

end FrameGraph.Tree
