import FrameGraph.Problem.List
import FrameGraph.Proofs.CompileOutcome
import FrameGraph.Proofs.InvalidFlags

/-!
The problems that compiling a tree reports, and how a list takes them up. Main statements: what is
reported of a tree depends neither on the flags of its nodes nor on the host, and a list from which
the tree was cleared takes it up in order, without repetition, and keeps what it holds for others.
-/

namespace FrameGraph

theorem foldl_append_absent {α : Type} [DecidableEq α] (before items : List α) :
    items.foldl (fun found item => if item ∈ found then found else found ++ [item]) before =
      before ++ (items.removeAll before).eraseDups := by
  induction items generalizing before with
  | nil => simp [List.removeAll]
  | cons item items ih =>
      rw [List.foldl_cons, ih]
      by_cases present : item ∈ before
      · simp [List.removeAll, present]
      · have later : items.removeAll (before ++ [item]) =
            (items.removeAll before).filter fun other => !other == item := by
          simp only [List.removeAll, List.filter_filter]
          refine List.filter_congr fun other _ => ?_
          simp [Bool.and_comm, beq_eq_decide]
        have first : (item :: items).removeAll before = item :: items.removeAll before := by
          simp [List.removeAll, present]
        rw [if_neg present, later, first, List.eraseDups_cons]
        simp

namespace ProblemList

variable {list : ProblemList}

theorem mem_entries_iff {tree : String} {problem : Problem} :
    (⟨tree, problem⟩ : ReportedProblem) ∈ list.entries ↔ problem ∈ list.forTree tree := by
  simp only [forTree, List.mem_map, List.mem_filter, decide_eq_true_eq]
  constructor
  · intro member
    exact ⟨_, ⟨member, rfl⟩, rfl⟩
  · rintro ⟨⟨_, _⟩, ⟨member, rfl⟩, rfl⟩
    exact member

theorem forTree_report (list : ProblemList) (tree : String) (problem : Problem) :
    (list.report tree problem).forTree tree =
      if problem ∈ list.forTree tree then list.forTree tree
      else list.forTree tree ++ [problem] := by
  rw [report]
  by_cases present : problem ∈ list.forTree tree
  · rw [if_pos (mem_entries_iff.mpr present), if_pos present]
  · rw [if_neg (mt mem_entries_iff.mp present), if_neg present]
    simp [forTree]

theorem forTree_report_of_ne {tree other : String} (differs : other ≠ tree) (problem : Problem) :
    (list.report tree problem).forTree other = list.forTree other := by
  rw [report]
  split
  · rfl
  · simp [forTree, differs.symm]

theorem forTree_reportAll (list : ProblemList) (tree : String) (problems : List Problem) :
    (list.reportAll tree problems).forTree tree =
      problems.foldl (fun found problem => if problem ∈ found then found else found ++ [problem])
        (list.forTree tree) := by
  induction problems generalizing list with
  | nil => rfl
  | cons problem problems ih =>
      rw [List.foldl_cons, ← forTree_report]
      exact ih _

theorem forTree_reportAll_of_ne {tree other : String} (differs : other ≠ tree)
    (problems : List Problem) :
    (list.reportAll tree problems).forTree other = list.forTree other := by
  induction problems generalizing list with
  | nil => rfl
  | cons problem problems ih => exact ih.trans (forTree_report_of_ne differs problem)

theorem forTree_clearTree (list : ProblemList) (tree other : String) :
    (list.clearTree tree).forTree other = if other = tree then [] else list.forTree other := by
  by_cases same : other = tree
  · rw [if_pos same, same, forTree_clearTree_self]
  · have kept (entry : ReportedProblem) :
        (decide (entry.tree = other) && decide (entry.tree ≠ tree)) =
          decide (entry.tree = other) := by
      by_cases own : entry.tree = other <;> simp [own, same]
    simp only [if_neg same, clearTree, forTree, List.filter_filter, kept]

theorem nodup_reportAll (distinct : list.entries.Nodup) (tree : String) (problems : List Problem) :
    (list.reportAll tree problems).entries.Nodup := by
  induction problems generalizing list with
  | nil => exact distinct
  | cons problem problems ih => exact ih (nodup_report distinct tree problem)

theorem nodup_clearTree (distinct : list.entries.Nodup) (tree : String) :
    (list.clearTree tree).entries.Nodup :=
  distinct.filter _

/-- A tree that is cleared and reported anew has what was reported, once each. -/
theorem forTree_reportAll_clearTree (list : ProblemList) (tree : String)
    (problems : List Problem) :
    ((list.clearTree tree).reportAll tree problems).forTree tree = problems.eraseDups := by
  rw [forTree_reportAll, forTree_clearTree_self, foldl_append_absent]
  simp [List.removeAll]

end ProblemList

namespace Tree

def reported (tree : Tree) (registry : Registry) (options : CompileOptions) : List Problem :=
  match tree.compile registry options with
  | .ok compiled => compiled.warnings
  | .error error => error.problems

variable {tree : Tree} {registry : Registry} {options : CompileOptions}

/-- Kinds matter to what is reported only in that they are registered. -/
theorem reported_eq : tree.reported registry options =
    if tree.problems registry = [] then
      match tree.evaluationOrder with
      | .ok _ => if options.checkTypes then tree.typeProblems else []
      | .error nodes => [.cycle nodes]
    else tree.problems registry := by
  unfold reported
  by_cases sound : tree.problems registry = []
  · have wellFormed := problems_eq_nil_iff_wellFormed.mp sound
    rw [if_pos sound]
    cases ordered : tree.evaluationOrder with
    | error nodes => simp [wellFormed.compile_eq_of_cycle ordered, CompileError.problems]
    | ok order =>
        obtain ⟨compiled, done⟩ : ∃ compiled, tree.compile registry options = .ok compiled :=
          wellFormed.exists_compile ordered
        obtain ⟨-, _, _, -, -, rfl⟩ := compile_ok done
        simp [done]
  · have fault : tree.Fault registry := by
      by_contra none
      exact sound (problems_eq_nil_iff_wellFormed.mpr (not_fault_iff.mp none))
    simp [sound, compile_eq_of_fault fault, CompileError.problems]

theorem reported_flagInvalid (invalid : List String) :
    (tree.flagInvalid invalid).reported registry options = tree.reported registry options := by
  simp only [reported_eq, problems_flagInvalid, evaluationOrder_flagInvalid,
    typeProblems_flagInvalid]

theorem executionFailed_not_mem_reported (message : String) :
    .executionFailed message ∉ tree.reported registry options := by
  have ends (node socket : String) (hasSocket : Node → Bool) :
      tree.endProblem? node socket hasSocket ≠ some (.executionFailed message) := by
    unfold endProblem?
    split
    · simp
    · split <;> simp
  have identifiers : Problem.executionFailed message ∉ tree.identifierProblems := by
    rw [identifierProblems, List.mem_filterMap]
    rintro ⟨⟨node, i⟩, -, problem⟩
    simp only at problem
    split at problem
    · simp at problem
    · split at problem <;> simp at problem
  have structural : Problem.executionFailed message ∉ tree.problems registry := by
    simp [problems, identifiers, kindProblems, linkProblems, inputProblems, ends]
  rw [reported_eq]
  split
  · split
    · have typed : Problem.executionFailed message ∉ tree.typeProblems := by
        simp [typeProblems, typeProblem?, Option.bind_eq_some_iff]
      split
      · exact typed
      · exact List.not_mem_nil
    · simp
  · exact structural

end Tree

end FrameGraph
