import FrameGraph.Proofs.ProcedureBody
import Mathlib.Data.List.Sort

/-!
Links in another order. Main statement: trees that differ only in the order of their links compile
to the same procedure, or are refused for the same reason, with what is reported in another order.
-/

namespace FrameGraph

namespace Schedule

section LinkOrder

variable {size : Nat} {edges others : List (Nat × Nat)} {taken degrees ready counts idle : List Nat}

theorem waiting_perm (perm : edges.Perm others) (taken : List Nat) (i : Nat) :
    waiting edges taken i = waiting others taken i :=
  perm.countP_eq _

/-- What is ready after the same positions does not depend on the order of the links. -/
theorem Invariant.ready_eq (inv : Invariant size edges taken degrees ready)
    (other : Invariant size others taken counts idle) (perm : edges.Perm others) :
    ready = idle := by
  refine inv.sorted.eq_of_mem_iff other.sorted fun i => ?_
  rw [inv.mem_ready, other.mem_ready, waiting_perm perm]

theorem Invariant.run_eq (fuel : Nat) (inv : Invariant size edges taken degrees ready)
    (other : Invariant size others taken counts idle) (perm : edges.Perm others)
    (bounded : ∀ edge ∈ edges, edge.2 < size) :
    (Schedule.run edges fuel degrees ready).1 = (Schedule.run others fuel counts idle).1 := by
  induction fuel generalizing taken degrees ready counts idle with
  | zero => rfl
  | succ fuel ih =>
      obtain rfl := inv.ready_eq other perm
      cases ready with
      | nil => rfl
      | cons current ready =>
          have boundedOther : ∀ edge ∈ others, edge.2 < size :=
            fun edge member => bounded edge (perm.mem_iff.mpr member)
          exact congrArg (current :: ·) (ih (inv.step bounded) (other.step boundedOther))

theorem ofEdges_perm (perm : edges.Perm others) (bounded : ∀ edge ∈ edges, edge.2 < size) :
    (ofEdges size edges).1 = (ofEdges size others).1 ∧
      ∀ i, (ofEdges size edges).2.getD i 0 = (ofEdges size others).2.getD i 0 := by
  have boundedOther : ∀ edge ∈ others, edge.2 < size :=
    fun edge member => bounded edge (perm.mem_iff.mpr member)
  have order := (Invariant.init bounded).run_eq size (.init boundedOther) perm bounded
  refine ⟨order, fun i => ?_⟩
  have own := (invariant_ofEdges bounded).degree i
  have other := (invariant_ofEdges boundedOther).degree i
  rw [own, other, waiting_perm perm]
  exact congrArg (waiting others · i) order

end LinkOrder

end Schedule

namespace Tree

/-- Whether trees have the same name, nodes and links, the links in any order. -/
structure Relinked (tree other : Tree) : Prop where
  name : other.name = tree.name
  nodes : other.nodes = tree.nodes
  links : other.links.Perm tree.links

variable {tree other : Tree} {registry : Registry} {options : CompileOptions}

theorem Relinked.node? (relinked : tree.Relinked other) : other.node? = tree.node? := by
  funext identifier
  rw [Tree.node?, relinked.nodes]
  rfl

theorem Relinked.edges (relinked : tree.Relinked other) : other.edges.Perm tree.edges := by
  have positions : other.lastIndex? = tree.lastIndex? := by
    funext identifier
    rw [Tree.lastIndex?, relinked.nodes]
    rfl
  rw [Tree.edges, positions]
  exact relinked.links.filterMap _

theorem Relinked.evaluationOrder (relinked : tree.Relinked other) :
    other.evaluationOrder = tree.evaluationOrder := by
  obtain ⟨order, left⟩ := Schedule.ofEdges_perm relinked.edges
    fun edge member => (other.bounded_edges edge member).2
  have named : other.identifiersAt = tree.identifiersAt := by
    funext positions
    rw [identifiersAt, relinked.nodes]
    rfl
  rw [evaluationOrder_eq, evaluationOrder_eq, named]
  simp only [relinked.nodes] at order left ⊢
  simp only [order, left]

/-! Validation and types -/

theorem Relinked.countP_links (relinked : tree.Relinked other) (node socket : String) :
    other.links.countP (·.entersInput node socket) =
      tree.links.countP (·.entersInput node socket) :=
  relinked.links.countP_eq _

theorem Relinked.problems (relinked : tree.Relinked other) (registry : Registry) :
    (other.problems registry).Perm (tree.problems registry) := by
  have ends : other.linkProblems = tree.linkProblems := by
    funext link
    simp only [linkProblems, endProblem?, relinked.node?]
  have inputs : other.inputProblems = tree.inputProblems := by
    funext node
    simp only [inputProblems, relinked.countP_links]
  rw [Tree.problems, Tree.problems, identifierProblems, kindProblems, relinked.nodes, ends, inputs]
  exact ((relinked.links.flatMap_right _).append_left _).append_right _

theorem Relinked.typeProblems (relinked : tree.Relinked other) :
    other.typeProblems.Perm tree.typeProblems := by
  have each : other.typeProblem? = tree.typeProblem? := by
    funext link
    simp only [typeProblem?, relinked.node?]
  rw [Tree.typeProblems, each]
  exact relinked.links.filterMap _

/-! Code and linking -/

theorem Relinked.compileNode (relinked : tree.Relinked other) :
    Compile.compileNode other registry = Compile.compileNode tree registry := by
  have context : LinkContext.ofNode other = LinkContext.ofNode tree := by
    funext node
    have inputs : other.isInputLinked node.identifier = tree.isInputLinked node.identifier :=
      funext fun _ => relinked.links.any_eq
    have outputs : other.isOutputLinked node.identifier = tree.isOutputLinked node.identifier :=
      funext fun _ => relinked.links.any_eq
    rw [LinkContext.ofNode, inputs, outputs]
    rfl
  funext node
  simp only [Compile.compileNode, context]

theorem Relinked.compileNodes (relinked : tree.Relinked other) (order : List String) :
    Compile.compileNodes other registry order = Compile.compileNodes tree registry order := by
  rw [Compile.compileNodes, relinked.node?, relinked.compileNode]
  rfl

theorem Relinked.inputSource? (relinked : tree.Relinked other)
    (wellFormed : tree.WellFormed registry) : other.inputSource? = tree.inputSource? := by
  funext node socket
  have single := wellFormed.single node socket
  have found : other.links.reverse.find? (·.entersInput node socket) =
      tree.links.reverse.find? (·.entersInput node socket) :=
    find?_eq_of_perm
      ((List.reverse_perm _).trans (relinked.links.trans (List.reverse_perm _).symm))
      (by rwa [List.countP_reverse])
  rw [Tree.inputSource?, found, relinked.nodes]
  rfl

theorem Relinked.link (relinked : tree.Relinked other) (wellFormed : tree.WellFormed registry)
    (assembled : List AssembledNode) :
    Linking.link other options assembled = Linking.link tree options assembled := by
  have names : Variables.ofTree other = Variables.ofTree tree := by
    rw [Variables.ofTree, relinked.nodes]
    rfl
  have same : Linking.linkNode other (Variables.ofTree tree) options =
      Linking.linkNode tree (Variables.ofTree tree) options := by
    funext assembled
    refine Linking.linkNode_congr options (fun name => ?_) rfl fun _ => rfl
    rw [Linking.inputText, relinked.inputSource? wellFormed]
    rfl
  simp only [Linking.link, names, same, relinked.name]

/-! The result -/

theorem Relinked.wellFormed_iff (relinked : tree.Relinked other) :
    other.WellFormed registry ↔ tree.WellFormed registry := by
  rw [← problems_eq_nil_iff_wellFormed, ← problems_eq_nil_iff_wellFormed]
  rw [← List.length_eq_zero_iff, ← List.length_eq_zero_iff, (relinked.problems registry).length_eq]

theorem Relinked.stats (relinked : tree.Relinked other) :
    Compile.stats other = Compile.stats tree := by
  funext nodes procedure
  rw [Compile.stats, relinked.nodes, relinked.links.length_eq]
  rfl

/-- Whether compilations end in the same way, except for the order of what they report. -/
inductive SameButOrder : Except CompileError Compiled → Except CompileError Compiled → Prop
  | compiled (procedure : Procedure) (stats : CompileStats) {warnings others : List Problem}
      (perm : others.Perm warnings) :
      SameButOrder (.ok ⟨procedure, warnings, stats⟩) (.ok ⟨procedure, others, stats⟩)
  | cycle (nodes : List String) : SameButOrder (.error (.cycle nodes)) (.error (.cycle nodes))
  | invalidNetwork (name : String) {problems others : List Problem}
      (perm : others.Perm problems) :
      SameButOrder (.error (.invalidNetwork name problems)) (.error (.invalidNetwork name others))

theorem Relinked.warnings (relinked : tree.Relinked other) (options : CompileOptions) :
    (if options.checkTypes then other.typeProblems else []).Perm
      (if options.checkTypes then tree.typeProblems else []) := by
  cases options.checkTypes with
  | false => exact .refl _
  | true => exact relinked.typeProblems

/-- The order of the links decides neither whether a tree compiles nor to which procedure; only
problems that are found link by link are reported in another order. -/
theorem Relinked.sameButOrder_compile (relinked : tree.Relinked other) (registry : Registry)
    (options : CompileOptions) :
    SameButOrder (tree.compile registry options) (other.compile registry options) := by
  by_cases wellFormed : tree.WellFormed registry
  · have otherWellFormed := relinked.wellFormed_iff.mpr wellFormed
    cases ordered : tree.evaluationOrder with
    | error nodes =>
        rw [wellFormed.compile_eq_of_cycle ordered,
          otherWellFormed.compile_eq_of_cycle (relinked.evaluationOrder.trans ordered)]
        exact .cycle nodes
    | ok order =>
        obtain ⟨nodes, compiled⟩ := wellFormed.exists_compileNodes order
        rw [wellFormed.compile_eq_ok ordered compiled,
          otherWellFormed.compile_eq_ok (relinked.evaluationOrder.trans ordered)
            (relinked.compileNodes order ▸ compiled), relinked.link wellFormed, relinked.stats]
        exact .compiled _ _ (relinked.warnings options)
  · have fault : tree.Fault registry := by
      by_contra sound
      exact wellFormed (not_fault_iff.mp sound)
    have otherFault : other.Fault registry := by
      by_contra sound
      exact wellFormed (relinked.wellFormed_iff.mp (not_fault_iff.mp sound))
    rw [compile_eq_of_fault fault, compile_eq_of_fault otherFault, relinked.name]
    exact .invalidNetwork _ (relinked.problems registry)

def sumOfTexts (links : List Link) : Tree where
  name := "texts"
  nodes :=
    [(((Node.ofKind "t" "sum").addInput (.ofType .integer "Value" "value")).addInput
        (.ofType .integer "Offset" "offset")).addOutput (.ofType .integer "Total" "total"),
      (Node.ofKind "a" "source").addOutput (.ofType .string "Text" "text"),
      (Node.ofKind "b" "source").addOutput (.ofType .string "Text" "text")]
  links
  metadata := ⟨"", "", ""⟩
  revision := 0

theorem Relinked.sameButOrder_sumOfTexts :
    let first : Link := ⟨"a", "text", "t", "value"⟩
    let second : Link := ⟨"b", "text", "t", "offset"⟩
    let warning (link : Link) : Problem :=
      .typeMismatch link.fromNode link.fromSocket link.toNode link.toSocket "an_StringSocket"
        "an_IntegerSocket"
    (sumOfTexts [first, second]).Relinked (sumOfTexts [second, first]) ∧
      ((sumOfTexts [first, second]).compile .sourceAndSum .default).toOption.map (·.warnings) =
        some [warning first, warning second] ∧
      ((sumOfTexts [second, first]).compile .sourceAndSum .default).toOption.map (·.warnings) =
        some [warning second, warning first] ∧
      SameButOrder ((sumOfTexts [first, second]).compile .sourceAndSum .default)
        ((sumOfTexts [second, first]).compile .sourceAndSum .default) := by
  intro first second warning
  have relinked : (sumOfTexts [first, second]).Relinked (sumOfTexts [second, first]) :=
    ⟨rfl, rfl, .swap first second []⟩
  exact ⟨relinked, by decide +kernel, by decide +kernel,
    relinked.sameButOrder_compile .sourceAndSum .default⟩

end Tree

end FrameGraph
