import FrameGraph.Compile
import FrameGraph.Proofs.Outcomes
import FrameGraph.Proofs.Validation

/-!
What compiling a tree leads to. Main statement: a tree with a structural fault is refused for it,
one without but with a cycle is refused for that, and every other tree is compiled.
-/

namespace FrameGraph

namespace Tree

/-- Whether links lead from an identifier back to it. -/
def HasCycle (tree : Tree) : Prop :=
  ∃ node, Relation.TransGen
    (fun a b => ∃ link ∈ tree.links, link.fromNode = a ∧ link.toNode = b) node node

variable {tree : Tree} {registry : Registry} {options : CompileOptions}

theorem WellFormed.feeds (wellFormed : tree.WellFormed registry) {link : Link}
    (member : link ∈ tree.links) : tree.Feeds link.fromNode link.toNode := by
  obtain ⟨source, source_mem, sameSource, -⟩ := wellFormed.sources link member
  obtain ⟨target, target_mem, sameTarget, -⟩ := wellFormed.targets link member
  exact ⟨List.mem_map.mpr ⟨source, source_mem, sameSource⟩,
    List.mem_map.mpr ⟨target, target_mem, sameTarget⟩, link, member, rfl, rfl⟩

theorem WellFormed.hasCycle_iff (wellFormed : tree.WellFormed registry) :
    tree.HasCycle ↔ ∃ node, tree.OnCycle node := by
  apply exists_congr
  intro node
  constructor
  · intro cycle
    refine Relation.TransGen.mono ?_ _ _ cycle
    rintro a b ⟨link, member, rfl, rfl⟩
    exact wellFormed.feeds member
  · intro cycle
    exact Relation.TransGen.mono (fun _ _ feeds => feeds.2.2) _ _ cycle

theorem node?_of_mem_order {order : List String} (found : tree.evaluationOrder = .ok order)
    {identifier : String} (member : identifier ∈ order) :
    ∃ node, tree.node? identifier = some node :=
  exists_node? ((perm_of_evaluationOrder found).mem_iff.mp member)

theorem WellFormed.exists_compileNodes (wellFormed : tree.WellFormed registry)
    (order : List String) : ∃ nodes, Compile.compileNodes tree registry order = .ok nodes := by
  apply exists_mapM
  intro node member
  obtain ⟨identifier, -, found⟩ := List.mem_filterMap.mp member
  obtain ⟨kind, registered⟩ := wellFormed.registered node (mem_of_node? found).1
  simp [Compile.compileNode, registered]

theorem compile_eq_of_fault (fault : tree.Fault registry) :
    tree.compile registry options =
      .error (.invalidNetwork tree.name (tree.problems registry)) := by
  have reported : tree.problems registry ≠ [] := by
    rw [Ne, problems_eq_nil_iff_wellFormed, ← not_fault_iff, not_not]
    exact fault
  simp [compile, reported]

theorem WellFormed.compile_eq_of_cycle (wellFormed : tree.WellFormed registry)
    {nodes : List String} (cyclic : tree.evaluationOrder = .error nodes) :
    tree.compile registry options = .error (.cycle nodes) := by
  have unreported := problems_eq_nil_iff_wellFormed.mpr wellFormed
  simp [compile, unreported, cyclic]

theorem WellFormed.compile_eq_ok (wellFormed : tree.WellFormed registry) {order : List String}
    {nodes : List CompiledNode} (ordered : tree.evaluationOrder = .ok order)
    (compiled : Compile.compileNodes tree registry order = .ok nodes) :
    tree.compile registry options =
      .ok
        { procedure := Linking.link tree options (nodes.map (·.assembled))
          warnings := if options.checkTypes then tree.typeProblems else []
          stats := Compile.stats tree nodes
            (Linking.link tree options (nodes.map (·.assembled))) } := by
  have unreported := problems_eq_nil_iff_wellFormed.mpr wellFormed
  simp [compile, unreported, ordered, compiled, bind, Except.bind, pure, Except.pure]

theorem WellFormed.exists_compile (wellFormed : tree.WellFormed registry) {order : List String}
    (ordered : tree.evaluationOrder = .ok order) :
    ∃ compiled, tree.compile registry options = .ok compiled := by
  obtain ⟨nodes, compiled⟩ := wellFormed.exists_compileNodes order
  exact ⟨_, wellFormed.compile_eq_ok ordered compiled⟩

theorem compile_ok {compiled : Compiled} (done : tree.compile registry options = .ok compiled) :
    tree.WellFormed registry ∧ ∃ order nodes, tree.evaluationOrder = .ok order ∧
      Compile.compileNodes tree registry order = .ok nodes ∧
      compiled =
        { procedure := Linking.link tree options (nodes.map (·.assembled))
          warnings := if options.checkTypes then tree.typeProblems else []
          stats := Compile.stats tree nodes
            (Linking.link tree options (nodes.map (·.assembled))) } := by
  have wellFormed : tree.WellFormed registry := by
    rw [← not_fault_iff]
    intro fault
    rw [compile_eq_of_fault fault] at done
    contradiction
  refine ⟨wellFormed, ?_⟩
  cases ordered : tree.evaluationOrder with
  | error nodes =>
      rw [wellFormed.compile_eq_of_cycle ordered] at done
      contradiction
  | ok order =>
      obtain ⟨nodes, compiledNodes⟩ := wellFormed.exists_compileNodes order
      rw [wellFormed.compile_eq_ok ordered compiledNodes, Except.ok.injEq] at done
      exact ⟨order, nodes, rfl, compiledNodes, done.symm⟩

theorem compile_cases (tree : Tree) (registry : Registry) (options : CompileOptions) :
    (tree.Fault registry ∧
      tree.compile registry options =
        .error (.invalidNetwork tree.name (tree.problems registry))) ∨
    (¬ tree.Fault registry ∧ tree.HasCycle ∧
      ∃ nodes, tree.compile registry options = .error (.cycle nodes)) ∨
    (¬ tree.Fault registry ∧ ¬ tree.HasCycle ∧
      ∃ compiled, tree.compile registry options = .ok compiled) := by
  by_cases fault : tree.Fault registry
  · exact .inl ⟨fault, compile_eq_of_fault fault⟩
  · have wellFormed := not_fault_iff.mp fault
    right
    cases found : tree.evaluationOrder with
    | error nodes =>
        have cycle := (evaluationOrder_eq_error_iff wellFormed.distinct).mp ⟨nodes, found⟩
        exact .inl ⟨fault, wellFormed.hasCycle_iff.mpr cycle, nodes,
          wellFormed.compile_eq_of_cycle found⟩
    | ok order =>
        have acyclic := (evaluationOrder_eq_ok_iff wellFormed.distinct).mp ⟨order, found⟩
        refine .inr ⟨fault, ?_, wellFormed.exists_compile found⟩
        rw [wellFormed.hasCycle_iff, not_exists]
        exact acyclic

/-- The tree alone decides how its compilation ends. No kind and no node is missed once the order is
known. -/
theorem compile_outcome (tree : Tree) (registry : Registry) (options : CompileOptions) :
    ((∃ problems, tree.compile registry options = .error (.invalidNetwork tree.name problems)) ↔
      tree.Fault registry) ∧
    ((∃ nodes, tree.compile registry options = .error (.cycle nodes)) ↔
      ¬ tree.Fault registry ∧ tree.HasCycle) ∧
    ((∃ compiled, tree.compile registry options = .ok compiled) ↔
      ¬ tree.Fault registry ∧ ¬ tree.HasCycle) ∧
    (∀ node kind, tree.compile registry options ≠ .error (.unknownKind node kind)) ∧
    (∀ order, tree.evaluationOrder = .ok order →
      ∀ identifier ∈ order, ∃ node, tree.node? identifier = some node) := by
  have found : ∀ order, tree.evaluationOrder = .ok order →
      ∀ identifier ∈ order, ∃ node, tree.node? identifier = some node :=
    fun _ ordered _ member => node?_of_mem_order ordered member
  rcases compile_cases tree registry options with
    ⟨fault, ended⟩ | ⟨sound, cycle, nodes, ended⟩ | ⟨sound, acyclic, compiled, ended⟩
  · simpa [ended, fault] using found
  · simpa [ended, sound, cycle] using found
  · simpa [ended, sound, acyclic] using found

end Tree

end FrameGraph
