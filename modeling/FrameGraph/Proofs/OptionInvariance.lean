import FrameGraph.Proofs.ProcedureLines

/-!
What the options of a compilation decide. Main statement: they have no part in whether a tree
compiles, in its modules, its setup and its lines of code; comments stand above the lines of each
node that has code, and the warnings name the links between incompatible sockets.
-/

namespace FrameGraph

namespace SocketType

/-- Whether a value of the first type may enter a socket of the second: the types are the same, one
of them takes anything, or the value is widened. -/
inductive Compatible : SocketType → SocketType → Prop
  | same (type : SocketType) : Compatible type type
  | fromGeneric (target : SocketType) : Compatible generic target
  | toGeneric (source : SocketType) : Compatible source generic
  | fromEmpty (target : SocketType) : Compatible empty target
  | toEmpty (source : SocketType) : Compatible source empty
  | integerToFloat : Compatible integer float
  | booleanToInteger : Compatible boolean integer
  | booleanToFloat : Compatible boolean float

theorem feeds_iff {source target : SocketType} :
    source.feeds target = true ↔ Compatible source target := by
  constructor
  · intro feeds
    unfold SocketType.feeds at feeds
    split at feeds
    · exact .fromGeneric _
    · exact .toGeneric _
    · exact .fromEmpty _
    · exact .toEmpty _
    · exact .integerToFloat
    · exact .booleanToInteger
    · exact .booleanToFloat
    · obtain rfl := beq_iff_eq.mp feeds
      exact .same _
  · intro compatible
    cases compatible with
    | same => cases source <;> rfl
    | fromGeneric => cases target <;> rfl
    | toGeneric => cases source <;> rfl
    | fromEmpty => cases target <;> rfl
    | toEmpty => cases source <;> rfl
    | integerToFloat | booleanToInteger | booleanToFloat => rfl

end SocketType

def Registry.nameComment (registry : Registry) (node : Node) : String :=
  "# " ++ node.label.getD ((registry.kind? node.kind).elim "" (·.declaration.label)) ++ " (" ++
    node.identifier ++ ")"

theorem Socket.exists_find? {sockets : List Socket} {socket : Socket} (member : socket ∈ sockets) :
    ∃ first, Socket.find? sockets socket.identifier = some first := by
  rw [← Option.isSome_iff_exists, Socket.find?, List.find?_isSome]
  exact ⟨socket, member, by simp⟩

namespace Tree

def Types (tree : Tree) (link : Link) (source target : SocketType) : Prop :=
  ∃ sourceNode ∈ tree.node? link.fromNode, ∃ output ∈ sourceNode.output? link.fromSocket,
    ∃ targetNode ∈ tree.node? link.toNode, ∃ input ∈ targetNode.input? link.toSocket,
      output.type = source ∧ input.type = target

/-- The warnings for some links: one for each link between incompatible sockets, in the order of the
links. Every link has a type at either end. -/
inductive Warned (tree : Tree) : List Link → List Problem → Prop
  | nil : Warned tree [] []
  | mismatch {link : Link} {links : List Link} {warnings : List Problem}
      {source target : SocketType} (types : tree.Types link source target)
      (incompatible : ¬ source.Compatible target) (rest : Warned tree links warnings) :
      Warned tree (link :: links)
        (.typeMismatch link.fromNode link.fromSocket link.toNode link.toSocket source.idName
          target.idName :: warnings)
  | match {link : Link} {links : List Link} {warnings : List Problem}
      {source target : SocketType} (types : tree.Types link source target)
      (compatible : source.Compatible target) (rest : Warned tree links warnings) :
      Warned tree (link :: links) warnings

variable {tree : Tree} {registry : Registry} {options : CompileOptions} {node : Node}

theorem typeProblem?_eq {link : Link} {source target : SocketType}
    (types : tree.Types link source target) :
    tree.typeProblem? link =
      if source.feeds target then none
      else some (.typeMismatch link.fromNode link.fromSocket link.toNode link.toSocket source.idName
        target.idName) := by
  obtain ⟨sourceNode, foundSource, output, foundOutput, targetNode, foundTarget, input, foundInput,
    rfl, rfl⟩ := types
  rw [Option.mem_def] at foundSource foundOutput foundTarget foundInput
  simp only [typeProblem?, foundSource, foundOutput, foundTarget, foundInput, Option.bind_eq_bind,
    Option.bind_some]

theorem warned_filterMap {links : List Link}
    (typed : ∀ link ∈ links, ∃ source target, tree.Types link source target) :
    tree.Warned links (links.filterMap tree.typeProblem?) := by
  induction links with
  | nil => exact .nil
  | cons link links ih =>
      obtain ⟨⟨source, target, types⟩, others⟩ := List.forall_mem_cons.mp typed
      have first := typeProblem?_eq types
      cases feeds : source.feeds target with
      | true =>
          rw [feeds, if_pos rfl] at first
          rw [List.filterMap_cons_none first]
          exact .match types (SocketType.feeds_iff.mp feeds) (ih others)
      | false =>
          rw [feeds, if_neg Bool.false_ne_true] at first
          rw [List.filterMap_cons_some first]
          refine .mismatch types ?_ (ih others)
          rw [← SocketType.feeds_iff, feeds]
          exact Bool.false_ne_true

theorem WellFormed.exists_types (wellFormed : tree.WellFormed registry) {link : Link}
    (member : link ∈ tree.links) : ∃ source target, tree.Types link source target := by
  obtain ⟨sourceNode, inside, sameNode, output, written, sameSocket⟩ :=
    wellFormed.sources link member
  obtain ⟨targetNode, insideToo, sameTarget, input, read, sameInput⟩ :=
    wellFormed.targets link member
  obtain ⟨firstOutput, foundOutput⟩ := Socket.exists_find? written
  obtain ⟨firstInput, foundInput⟩ := Socket.exists_find? read
  rw [sameSocket] at foundOutput
  rw [sameInput] at foundInput
  have foundSource : tree.node? link.fromNode = some sourceNode :=
    sameNode ▸ find?_key wellFormed.distinct inside
  have foundTarget : tree.node? link.toNode = some targetNode :=
    sameTarget ▸ find?_key wellFormed.distinct insideToo
  exact ⟨firstOutput.type, firstInput.type, sourceNode, foundSource, firstOutput, foundOutput,
    targetNode, foundTarget, firstInput, foundInput, rfl, rfl⟩

theorem WellFormed.commentLines_eq (wellFormed : tree.WellFormed registry)
    (member : node ∈ tree.nodes) :
    tree.commentLines registry options node =
      if options.debugComments ∧ tree.codeLines registry node ≠ [] then
        [registry.nameComment node]
      else [] := by
  obtain ⟨kind, registered⟩ := wellFormed.registered node member
  have written := wellFormed.isEmpty_nodeLines member
  simp [commentLines, Registry.nameComment, registered, written, codeLines]

theorem flatMap_codeLines (registry : Registry) (comments : Bool) (nodes : List Node) :
    (nodes.flatMap fun node =>
      (if comments ∧ tree.codeLines registry node ≠ [] then [registry.nameComment node] else []) ++
        tree.codeLines registry node) =
    (nodes.filter fun node => tree.codeLines registry node ≠ []).flatMap fun node =>
      (if comments then [registry.nameComment node] else []) ++ tree.codeLines registry node := by
  induction nodes with
  | nil => rfl
  | cons node nodes ih =>
      by_cases silent : tree.codeLines registry node = []
      · simp only [List.flatMap_cons, List.filter_cons, ih, silent]
        simp
      · simp only [List.flatMap_cons, List.filter_cons, ih]
        simp [silent]

theorem modules_link (options other : CompileOptions) (assembled : List AssembledNode) :
    (Linking.link tree options assembled).modules =
      (Linking.link tree other assembled).modules := by
  simp only [Linking.link, List.flatMap_map, Linking.modules_linkNode]

/-- Either no options make the tree compile, and the error is always the same, or all do. Then the
modules, the setup and the lines of the nodes that have any are always the same, and the options
give the name of the function, its indentation, one comment above the lines of each node, and
whether the links between incompatible sockets are listed. -/
theorem compile_options (tree : Tree) (registry : Registry) :
    (∃ error, ∀ options, tree.compile registry options = .error error) ∨
    ∃ (order : List String) (nodes : List Node) (modules : List String) (warnings : List Problem),
      tree.evaluationOrder = .ok order ∧ order.map tree.node? = nodes.map some ∧
      nodes.Perm tree.nodes ∧ tree.Warned tree.links warnings ∧
      ∀ options : CompileOptions, ∃ stats, tree.compile registry options = .ok
        { procedure :=
            { tree := tree.name
              functionName := options.functionName
              modules
              setup := nodes.flatMap (tree.setupLines registry)
              body := (nodes.filter fun node => tree.codeLines registry node ≠ []).flatMap
                fun node =>
                  (if options.debugComments then [registry.nameComment node] else []) ++
                    tree.codeLines registry node
              indentWidth := options.indentWidth }
          warnings := if options.checkTypes then warnings else []
          stats } := by
  by_cases fault : tree.Fault registry
  · exact .inl ⟨_, fun _ => compile_eq_of_fault fault⟩
  have wellFormed := not_fault_iff.mp fault
  cases ordered : tree.evaluationOrder with
  | error cycle => exact .inl ⟨_, fun _ => wellFormed.compile_eq_of_cycle ordered⟩
  | ok order =>
      right
      obtain ⟨compiledNodes, compiledAll⟩ := wellFormed.exists_compileNodes order
      have success (options : CompileOptions) : tree.compile registry options = .ok _ :=
        wellFormed.compile_eq_ok ordered compiledAll
      obtain ⟨orderToo, nodes, orderedToo, found, perm, -, -⟩ := compile_lines (success .default)
      obtain rfl : order = orderToo := Except.ok.inj (ordered.symm.trans orderedToo)
      refine ⟨order, nodes, (Linking.link tree .default (compiledNodes.map (·.assembled))).modules,
        tree.typeProblems, rfl, found, perm, warned_filterMap fun _ => wellFormed.exists_types, ?_⟩
      intro options
      refine ⟨Compile.stats tree compiledNodes
        (Linking.link tree options (compiledNodes.map (·.assembled))), ?_⟩
      obtain ⟨others, nodesToo, orderedToo, foundToo, -, setup, body⟩ :=
        compile_lines (success options)
      obtain rfl : order = others := Except.ok.inj (ordered.symm.trans orderedToo)
      obtain rfl : nodes = nodesToo :=
        List.map_injective_iff.mpr (Option.some_injective _) (found.symm.trans foundToo)
      have comments (node : Node) (member : node ∈ nodes) :
          tree.commentLines registry options node = _ :=
        wellFormed.commentLines_eq (perm.subset member)
      rw [List.flatMap_congr fun node member => congrArg (· ++ _) (comments node member),
        flatMap_codeLines] at body
      rw [success options, ← setup, ← body, ← modules_link options .default]
      rfl

end Tree

end FrameGraph
