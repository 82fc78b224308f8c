import FrameGraph.Proofs.CompileProblems
import FrameGraph.Proofs.HostAnswers
import FrameGraph.Proofs.SessionTrees
import Mathlib.Data.List.Infix

/-!
The list of reported problems along a session. Main statement: after a frame, a tree of the document
is listed with what compiling it reports, once each and in order, and then with its failure in the
host if it failed there at its present revision and was not retried; what is listed for other names
stays as it was.
-/

namespace FrameGraph

/-- A runner whose list is accurate for the trees that its cache is current for. The trees have
revisions of their own below the limit, and a failure that stands is in the cache. -/
structure ObservedRunner.Accurate (registry : Registry) (options : CompileOptions)
    (observed : ObservedRunner) (limit : Nat) (trees : List Tree) : Prop where
  settings : observed.runner.registry = registry ∧ observed.runner.options = options
  distinct : (trees.map (·.revision)).Nodup
  below : ∀ tree ∈ trees, tree.revision < limit
  stored : ∀ name entry, observed.runner.entry? name = some entry → entry.revision < limit
  named : ∀ name revision procedure,
    observed.runner.entry? name = some ⟨revision, .ready procedure⟩ → procedure.tree = name
  standing : ∀ name failure, observed.failures name = some failure →
    observed.runner.entry? name = some ⟨failure.revision, .failed⟩
  current : ∀ tree ∈ trees, ∀ state,
    observed.runner.entry? tree.name = some ⟨tree.revision, state⟩ →
      observed.runner.problems.forTree tree.name =
        (tree.reported registry options).eraseDups ++ observed.failures.problems tree
  nodup : observed.runner.problems.entries.Nodup

/-- Whether two runners know the same, and list the same, for names that are not among these. -/
def Runner.SameOutside (names : List String) (runner next : Runner) : Prop :=
  ∀ name, name ∉ names → next.entry? name = runner.entry? name ∧
    next.problems.forTree name = runner.problems.forTree name

namespace Runner

theorem SameOutside.trans {names : List String} {runner middle next : Runner}
    (first : runner.SameOutside names middle) (second : middle.SameOutside names next) :
    runner.SameOutside names next :=
  fun name outside => ⟨(second name outside).1.trans (first name outside).1,
    (second name outside).2.trans (first name outside).2⟩

theorem SameOutside.mono {names more : List String} {runner next : Runner}
    (same : runner.SameOutside names next) (fewer : names ⊆ more) :
    runner.SameOutside more next :=
  fun name outside => same name fun member => outside (fewer member)

def recompiled (runner : Runner) (tree : Tree) : Runner :=
  { runner with
    problems :=
      (runner.problems.clearTree tree.name).reportAll tree.name (runner.judge tree).2.1 }.setEntry
    tree.name ⟨tree.revision, (runner.judge tree).1⟩

variable {runner : Runner} {tree : Tree}

theorem prepare_eq (runner : Runner) (tree : Tree) : runner.prepare tree =
    if runner.isCurrent tree then (false, runner, tree)
    else (true, runner.recompiled tree, tree.flagInvalid (runner.judge tree).2.2) :=
  rfl

theorem settles_recompiled (runner : Runner) (tree : Tree) :
    runner.Settles tree (runner.judge tree).1 (runner.recompiled tree) :=
  ⟨rfl, rfl, entry?_setEntry _ _⟩

theorem forTree_recompiled (runner : Runner) (tree : Tree) :
    (runner.recompiled tree).problems.forTree tree.name =
      (tree.reported runner.registry runner.options).eraseDups := by
  have listed : (runner.judge tree).2.1 = tree.reported runner.registry runner.options := by
    unfold judge Tree.reported
    cases tree.compile runner.registry runner.options <;> rfl
  rw [← listed]
  exact ProblemList.forTree_reportAll_clearTree _ _ _

theorem sameOutside_recompiled (runner : Runner) (tree : Tree) :
    runner.SameOutside [tree.name] (runner.recompiled tree) := by
  intro name outside
  have differs : name ≠ tree.name := by simpa using outside
  refine ⟨by rw [(runner.settles_recompiled tree).entry, if_neg differs], ?_⟩
  exact (ProblemList.forTree_reportAll_of_ne differs _).trans
    (by rw [ProblemList.forTree_clearTree, if_neg differs])

theorem tree_of_judge {procedure : Procedure}
    (ready : (runner.judge tree).1 = .ready procedure) : procedure.tree = tree.name := by
  unfold judge at ready
  cases done : tree.compile runner.registry runner.options with
  | error error => simp [done] at ready
  | ok compiled =>
      obtain ⟨-, _, _, -, -, rfl⟩ := Tree.compile_ok done
      simp only [done, CacheState.ready.injEq] at ready
      rw [← ready]
      rfl

def failing (runner : Runner) (tree : Tree) (error : HostError) : Runner :=
  { runner with
    problems := runner.problems.report tree.name (.executionFailed error.message) }.setEntry
    tree.name ⟨tree.revision, .failed⟩

theorem settles_failing {state : CacheState}
    (present : runner.entry? tree.name = some ⟨tree.revision, state⟩) (error : HostError) :
    runner.Settles tree .failed (runner.failing tree error) :=
  (settles_self present).fail _

theorem sameOutside_failing {state : CacheState}
    (present : runner.entry? tree.name = some ⟨tree.revision, state⟩) (error : HostError) :
    runner.SameOutside [tree.name] (runner.failing tree error) := by
  intro name outside
  have differs : name ≠ tree.name := by simpa using outside
  exact ⟨by rw [(settles_failing present error).entry, if_neg differs],
    ProblemList.forTree_report_of_ne differs _⟩

theorem forTree_foldl_retryTree (trees : List String) (name : String) :
    (trees.foldl retryTree runner).problems.forTree name =
      if name ∈ trees then [] else runner.problems.forTree name := by
  induction trees generalizing runner with
  | nil => simp
  | cons tree trees ih =>
      rw [List.foldl_cons, ih]
      by_cases same : name = tree
      · simp [retryTree, same]
      · simp [retryTree, ProblemList.forTree_clearTree, same]

theorem nodup_foldl_retryTree (distinct : runner.problems.entries.Nodup) (trees : List String) :
    (trees.foldl retryTree runner).problems.entries.Nodup := by
  induction trees generalizing runner with
  | nil => exact distinct
  | cons tree trees ih => exact ih (ProblemList.nodup_clearTree distinct tree)

theorem forTree_retry (name : String) :
    runner.retry.problems.forTree name =
      if runner.isFailed name then [] else runner.problems.forTree name := by
  rw [retry, forTree_foldl_retryTree]
  by_cases failed : runner.isFailed name
  · rw [if_pos (List.mem_filter.mpr ⟨mem_cache_of_isFailed failed, failed⟩), if_pos failed]
  · have kept : name ∉ (runner.cache.map (·.1)).filter runner.isFailed :=
      fun member => failed (List.mem_filter.mp member).2
    rw [if_neg kept, if_neg failed]

end Runner

namespace ObservedRunner.Accurate

variable {registry : Registry} {options : CompileOptions} {observed next : ObservedRunner}
  {limit : Nat} {tree : Tree} {trees others : List Tree}

theorem subperm (accurate : Accurate registry options observed limit trees)
    (fewer : others.Subperm trees) : Accurate registry options observed limit others :=
  have ⟨_, same, inside⟩ := fewer
  { accurate with
    distinct := (same.map (·.revision)).nodup_iff.mp (accurate.distinct.sublist (inside.map _))
    below := fun tree member => accurate.below tree (fewer.subset member)
    current := fun tree member => accurate.current tree (fewer.subset member) }

theorem mono (accurate : Accurate registry options observed limit trees) :
    Accurate registry options observed (limit + 1) trees :=
  { accurate with
    below := fun tree member => Nat.lt_succ_of_lt (accurate.below tree member)
    stored := fun name entry found => Nat.lt_succ_of_lt (accurate.stored name entry found) }

theorem cons (accurate : Accurate registry options observed limit trees)
    (fresh : tree.revision = limit) :
    Accurate registry options observed (limit + 1) (tree :: trees) := by
  refine { accurate.mono with distinct := ?_, below := ?_, current := ?_ }
  · exact nodup_revisions_cons accurate.distinct fun other inside =>
      fresh ▸ accurate.below other inside
  · rw [List.forall_mem_cons]
    exact ⟨by omega, accurate.mono.below⟩
  · rw [List.forall_mem_cons]
    refine ⟨fun state found => ?_, accurate.current⟩
    have old := accurate.stored _ _ found
    simp only at old
    omega

theorem flagInvalid (accurate : Accurate registry options observed limit (tree :: others))
    (invalid : List String) :
    Accurate registry options observed limit (tree.flagInvalid invalid :: others) := by
  refine { accurate with distinct := ?_, below := ?_, current := ?_ }
  · exact accurate.distinct
  · rw [List.forall_mem_cons]
    exact List.forall_mem_cons.mp accurate.below
  · rw [List.forall_mem_cons, Tree.reported_flagInvalid]
    exact List.forall_mem_cons.mp accurate.current

theorem apart (accurate : Accurate registry options observed limit (tree :: others)) {other : Tree}
    (member : other ∈ others) : other.revision ≠ tree.revision :=
  revision_ne_of_nodup accurate.distinct member

theorem update {state : CacheState}
    (accurate : Accurate registry options observed limit (tree :: others))
    (settles : observed.runner.Settles tree state next.runner)
    (named : ∀ procedure, state = .ready procedure → procedure.tree = tree.name)
    (failed : ∀ failure, next.failures tree.name = some failure →
      failure.revision = tree.revision ∧ state = .failed)
    (own : next.runner.problems.forTree tree.name =
      (tree.reported registry options).eraseDups ++ next.failures.problems tree)
    (kept : ∀ name, name ≠ tree.name →
      next.failures name = observed.failures name ∧
        next.runner.problems.forTree name = observed.runner.problems.forTree name)
    (nodup : next.runner.problems.entries.Nodup) :
    Accurate registry options next limit (tree :: others) where
  settings := ⟨settles.registry.trans accurate.settings.1,
    settles.options.trans accurate.settings.2⟩
  distinct := accurate.distinct
  below := accurate.below
  stored name entry found := by
    rw [settles.entry] at found
    split at found
    · obtain rfl := Option.some.inj found
      exact accurate.below tree List.mem_cons_self
    · exact accurate.stored name entry found
  named name revision procedure found := by
    rw [settles.entry] at found
    split at found
    · rename_i same
      obtain ⟨-, rfl⟩ : tree.revision = revision ∧ state = .ready procedure := by simpa using found
      rw [same, named procedure rfl]
    · exact accurate.named name revision procedure found
  standing name failure found := by
    rw [settles.entry]
    by_cases same : name = tree.name
    · obtain ⟨revision, rfl⟩ := failed failure (same ▸ found)
      rw [if_pos same, revision]
    · rw [if_neg same]
      exact accurate.standing name failure ((kept name same).1 ▸ found)
  current := by
    rw [List.forall_mem_cons]
    refine ⟨fun _ _ => own, fun other member found present => ?_⟩
    rw [settles.entry] at present
    by_cases same : other.name = tree.name
    · rw [if_pos same] at present
      have revision : tree.revision = other.revision := by
        simpa using congrArg (Option.map CacheEntry.revision) present
      exact absurd revision.symm (accurate.apart member)
    · rw [if_neg same] at present
      have before := accurate.current other (List.mem_cons_of_mem _ member) found present
      rw [(kept _ same).2, before, HostFailures.problems, HostFailures.problems, (kept _ same).1]
  nodup := nodup

/-- The runner and the observer forget names. Where an entry stays, what is listed and what stands
stay too, and what stands is in an entry that stays. -/
theorem drop (accurate : Accurate registry options observed limit trees)
    (sameRegistry : next.runner.registry = observed.runner.registry)
    (sameOptions : next.runner.options = observed.runner.options)
    (entry : ∀ name entry, next.runner.entry? name = some entry →
      observed.runner.entry? name = some entry ∧ next.failures name = observed.failures name ∧
        next.runner.problems.forTree name = observed.runner.problems.forTree name)
    (failure : ∀ name failure, next.failures name = some failure →
      observed.failures name = some failure ∧
        next.runner.entry? name = observed.runner.entry? name)
    (nodup : next.runner.problems.entries.Nodup) :
    Accurate registry options next limit trees where
  settings := ⟨sameRegistry.trans accurate.settings.1, sameOptions.trans accurate.settings.2⟩
  distinct := accurate.distinct
  below := accurate.below
  stored name found present := accurate.stored name found (entry name found present).1
  named name revision procedure present :=
    accurate.named name revision procedure (entry name _ present).1
  standing name found stands := by
    obtain ⟨before, same⟩ := failure name found stands
    rw [same]
    exact accurate.standing name found before
  current tree member state present := by
    obtain ⟨before, failures, problems⟩ := entry _ _ present
    rw [problems, accurate.current tree member state before, HostFailures.problems,
      HostFailures.problems, failures]
  nodup := nodup

theorem settle_none (accurate : Accurate registry options observed limit trees) {state : CacheState}
    (present : observed.runner.entry? tree.name = some ⟨tree.revision, state⟩) :
    observed.failures.settle tree none = observed.failures := by
  apply Function.update_eq_self_iff.mpr
  cases found : observed.failures tree.name with
  | none => rfl
  | some failure =>
      have failed := accurate.standing _ _ found
      rw [present] at failed
      have revision : tree.revision = failure.revision := by simp_all
      simp [revision]

/-- Preparing a tree makes the list accurate for it. An old failure of a tree that has changed no
longer stands. -/
theorem prepare (accurate : Accurate registry options observed limit (tree :: others)) :
    ∃ compiled middle changed, observed.runner.prepare tree = (compiled, middle, changed) ∧
      (changed.name = tree.name ∧ changed.revision = tree.revision) ∧
      (∃ state, middle.entry? tree.name = some ⟨tree.revision, state⟩) ∧
      observed.runner.SameOutside [tree.name] middle ∧
      Accurate registry options ⟨middle, observed.failures.settle tree none⟩ limit
        (changed :: others) := by
  by_cases isCurrent : observed.runner.isCurrent tree
  · obtain ⟨state, present⟩ := Runner.isCurrent_iff.mp isCurrent
    refine ⟨false, observed.runner, tree, by simp [Runner.prepare, isCurrent], ⟨rfl, rfl⟩,
      ⟨state, present⟩, fun _ _ => ⟨rfl, rfl⟩, ?_⟩
    rw [accurate.settle_none present]
    exact accurate
  · have old : observed.failures.settle tree none tree.name = none := by
      rw [HostFailures.settle, Function.update_self]
      cases found : observed.failures tree.name with
      | none => rfl
      | some failure =>
          have failed := accurate.standing _ _ found
          have changed : failure.revision ≠ tree.revision := fun same =>
            isCurrent (Runner.isCurrent_iff.mpr ⟨.failed, same ▸ failed⟩)
          simp [changed]
    have outside := observed.runner.sameOutside_recompiled tree
    refine ⟨true, observed.runner.recompiled tree,
      tree.flagInvalid (observed.runner.judge tree).2.2,
      by rw [Runner.prepare_eq, if_neg isCurrent], ⟨rfl, rfl⟩, ?_, outside, ?_⟩
    · exact ⟨_, by rw [(observed.runner.settles_recompiled tree).entry, if_pos rfl]⟩
    · apply flagInvalid
      refine accurate.update (observed.runner.settles_recompiled tree) ?_ ?_ ?_ ?_ ?_
      · exact fun procedure ready => Runner.tree_of_judge ready
      · intro failure stands
        exact absurd (old.symm.trans stands) (Option.some_ne_none failure).symm
      · simp only [Runner.forTree_recompiled, accurate.settings, HostFailures.problems_of_none old,
          List.append_nil]
      · intro name differs
        exact ⟨HostFailures.settle_of_ne differs none, (outside name (by simpa using differs)).2⟩
      · exact ProblemList.nodup_reportAll (ProblemList.nodup_clearTree accurate.nodup _) _ _

theorem unfailed_of_ready (accurate : Accurate registry options observed limit trees)
    {name : String} {revision : Nat} {procedure : Procedure}
    (present : observed.runner.entry? name = some ⟨revision, .ready procedure⟩) :
    observed.failures name = none := by
  by_contra stands
  obtain ⟨failure, found⟩ := Option.ne_none_iff_exists'.mp stands
  simpa [present] using accurate.standing _ _ found

theorem fail {procedure : Procedure}
    (accurate : Accurate registry options observed limit (tree :: others))
    (present : observed.runner.entry? tree.name = some ⟨tree.revision, .ready procedure⟩)
    {answer : HostAnswer} {error : HostError} (answered : answer.error = some error) :
    Accurate registry options
      ⟨observed.runner.failing tree error, observed.failures.settle tree (some answer)⟩ limit
      (tree :: others) := by
  have listed : observed.runner.problems.forTree tree.name =
      (tree.reported registry options).eraseDups := by
    rw [accurate.current tree List.mem_cons_self _ present,
      HostFailures.problems_of_none (accurate.unfailed_of_ready present), List.append_nil]
  have unlisted : .executionFailed error.message ∉
      observed.runner.problems.forTree tree.name := by
    rw [listed, List.mem_eraseDups]
    exact Tree.executionFailed_not_mem_reported _
  have failed : observed.failures.settle tree (some answer) tree.name =
      some ⟨tree.revision, error.message⟩ := by
    rw [HostFailures.settle_self, answered, Option.map_some]
  refine accurate.update (Runner.settles_failing present error) ?_ ?_ ?_ ?_ ?_
  · exact fun _ ready => nomatch ready
  · intro failure stands
    obtain rfl := Option.some.inj (failed.symm.trans stands)
    exact ⟨rfl, rfl⟩
  · rw [HostFailures.problems_of_some failed, ← listed]
    exact (ProblemList.forTree_report _ _ _).trans (if_neg unlisted)
  · intro name differs
    exact ⟨HostFailures.settle_of_ne differs (some answer),
      ProblemList.forTree_report_of_ne differs _⟩
  · exact ProblemList.nodup_report accurate.nodup _ _

/-- Executing a tree that was prepared keeps the list accurate, with the answer of the host if it
was asked. -/
theorem execute {σ : Type} {state : CacheState}
    (accurate : Accurate registry options observed limit (tree :: others))
    (present : observed.runner.entry? tree.name = some ⟨tree.revision, state⟩) (host : Host σ)
    (before : σ) (report : FrameReport) :
    ∃ next after ended answer,
      observed.runner.execute host tree before report = (next, after, ended) ∧
      observed.runner.answers host tree.name before = Option.toList answer ∧
      (∀ noted ∈ answer, noted.tree = tree.name) ∧
      (∃ state, next.entry? tree.name = some ⟨tree.revision, state⟩) ∧
      observed.runner.SameOutside [tree.name] next ∧
      Accurate registry options ⟨next, observed.failures.settle tree answer⟩ limit
        (tree :: others) := by
  cases state with
  | failed =>
      refine ⟨observed.runner, before, _, none, by simp [Runner.execute, present]; rfl, ?_, ?_,
        ⟨_, present⟩, fun _ _ => ⟨rfl, rfl⟩, ?_⟩
      · simp [Runner.answers, Runner.procedure?, present]
      · simp
      · rw [accurate.settle_none present]
        exact accurate
  | ready procedure =>
      have named := accurate.named _ _ _ present
      have answers : observed.runner.answers host tree.name before =
          [⟨procedure.tree, (host procedure before).1⟩] := by
        simp [Runner.answers, Runner.procedure?, present]
      cases answered : host procedure before with
      | mk error after =>
          rw [answered] at answers
          cases error with
          | none =>
              have same : observed.failures.settle tree (some ⟨procedure.tree, none⟩) =
                  observed.failures :=
                Function.update_eq_self_iff.mpr (accurate.unfailed_of_ready present).symm
              refine ⟨observed.runner, after, _, some ⟨procedure.tree, none⟩,
                by simp [Runner.execute, present, answered]; rfl, answers, by simpa using named,
                ⟨_, present⟩, fun _ _ => ⟨rfl, rfl⟩, ?_⟩
              rw [same]
              exact accurate
          | some error =>
              refine ⟨observed.runner.failing tree error, after, _,
                some ⟨procedure.tree, some error⟩,
                by simp [Runner.execute, Runner.failing, present, answered]; rfl, answers,
                by simpa using named, ⟨.failed, ?_⟩, Runner.sameOutside_failing present error,
                accurate.fail present rfl⟩
              rw [(Runner.settles_failing present error).entry, if_pos rfl]

theorem runTree {σ : Type}
    (accurate : Accurate registry options observed limit (tree :: others)) (host : Host σ)
    (before : σ) (report : FrameReport) :
    ∃ changed next after ended answer,
      observed.runner.runTree host tree before report = (changed, next, after, ended) ∧
      (observed.runner.prepare tree).2.1.answers host changed.name before =
        Option.toList answer ∧
      (∀ noted ∈ answer, noted.tree = tree.name) ∧
      changed.name = tree.name ∧
      (∃ state, next.entry? changed.name = some ⟨changed.revision, state⟩) ∧
      observed.runner.SameOutside [tree.name] next ∧
      Accurate registry options ⟨next, observed.failures.settle tree answer⟩ limit
        (changed :: others) := by
  obtain ⟨compiled, middle, changed, prepared, ⟨name, revision⟩, ⟨state, present⟩, outside,
    between⟩ := accurate.prepare
  rw [← name, ← revision] at present
  obtain ⟨next, after, ended, answer, executed, answers, own, entry, further, final⟩ :=
    between.execute present host before
      (if compiled then { report with compiled := report.compiled ++ [changed.name] } else report)
  have settled : (observed.failures.settle tree none).settle changed answer =
      observed.failures.settle tree answer := by
    rw [HostFailures.settle_congr name revision, HostFailures.settle_settle]
  rw [settled] at final
  rw [name] at own further
  refine ⟨changed, next, after, ended, answer, ?_, ?_, own, name, entry, outside.trans further,
    final⟩
  · simp only [Runner.runTree, prepared, executed]
  · rw [prepared]
    exact answers

theorem runTrees {σ : Type}
    (accurate : Accurate registry options observed limit (trees ++ others))
    (names : (trees.map (·.name)).Nodup) (host : Host σ) (before : σ) (noted : List HostAnswer)
    (report : FrameReport) :
    ∃ next after ended flagged answers,
      observed.runner.runTrees host.answering (before, noted) report trees =
        (next, (after, noted ++ answers), ended, flagged) ∧
      (∀ answer ∈ answers, answer.tree ∈ trees.map (·.name)) ∧
      flagged.map (·.name) = trees.map (·.name) ∧
      (∀ tree ∈ flagged, ∃ state, next.entry? tree.name = some ⟨tree.revision, state⟩) ∧
      observed.runner.SameOutside (trees.map (·.name)) next ∧
      Accurate registry options ⟨next, observed.failures.settleAll trees answers⟩ limit
        (flagged ++ others) := by
  induction trees generalizing observed before noted report others with
  | nil =>
      exact ⟨observed.runner, before, report, [], [], by simp [Runner.runTrees], by simp, rfl,
        by simp, fun _ _ => ⟨rfl, rfl⟩, accurate⟩
  | cons tree rest ih =>
      rw [List.map_cons, List.nodup_cons] at names
      obtain ⟨changed, middle, after, ended, answer, ran, answered, own, name, ⟨state, present⟩,
        outside, between⟩ := accurate.runTree host before report
      have reordered : Accurate registry options ⟨middle, observed.failures.settle tree answer⟩
          limit (rest ++ changed :: others) := between.subperm List.perm_middle.subperm
      obtain ⟨next, last, total, flagged, answers, ranRest, inside, sameNames, entries, further,
        final⟩ := ih reordered names.2 after (noted ++ answer.toList) ended
      have found : (answer.toList ++ answers).find? (·.tree = tree.name) = answer :=
        HostFailures.find?_answer own fun other member same => names.1 (same ▸ inside other member)
      have settled : observed.failures.settleAll (tree :: rest) (answer.toList ++ answers) =
          (observed.failures.settle tree answer).settleAll rest answers := by
        rw [HostFailures.settleAll_cons, found, HostFailures.settleAll_append]
        intro other member
        rw [own other (by simpa using member)]
        exact names.1
      refine ⟨next, last, total, changed :: flagged, answer.toList ++ answers, ?_, ?_, ?_, ?_, ?_,
        ?_⟩
      · rw [Runner.runTrees_cons, Runner.runTree_answering, ran]
        simp only [answered, ranRest, List.append_assoc]
      · intro other member
        rcases List.mem_append.mp member with member | member
        · rw [own other (by simpa using member)]
          exact List.mem_cons_self
        · exact List.mem_cons_of_mem _ (inside other member)
      · rw [List.map_cons, List.map_cons, name, sameNames]
      · rw [List.forall_mem_cons]
        exact ⟨⟨state, by rw [(further _ (name ▸ names.1)).1, present]⟩, entries⟩
      · exact (outside.mono (by simp)).trans (further.mono (by simp))
      · rw [settled]
        exact final.subperm List.perm_middle.symm.subperm

theorem retain (accurate : Accurate registry options observed limit trees) (document : Document)
    {kept : List Tree} (same : kept.map (·.name) = document.trees.map (·.name)) :
    Accurate registry options
      ⟨observed.runner.retain document, observed.failures.retain kept⟩ limit trees := by
  have listed (name : String) :
      kept.any (·.name = name) = document.trees.any (·.name = name) := by
    have names := congrArg (List.any · fun other => decide (other = name)) same
    simpa [List.any_map, Function.comp_def] using names
  refine accurate.drop rfl rfl ?_ ?_ accurate.nodup
  · intro name entry found
    rw [Runner.entry?_retain] at found
    split at found
    · rename_i inside
      exact ⟨found, by simp only [HostFailures.retain, listed, if_pos inside], rfl⟩
    · contradiction
  · intro name failure found
    simp only [HostFailures.retain, listed] at found
    split at found
    · rename_i inside
      exact ⟨found, by rw [Runner.entry?_retain, if_pos inside]⟩
    · contradiction

theorem retryTree (accurate : Accurate registry options observed limit trees) (name : String) :
    Accurate registry options (observed.retryTree name) limit trees := by
  refine accurate.drop rfl rfl ?_ ?_ (ProblemList.nodup_clearTree accurate.nodup name)
  · intro other entry found
    simp only [ObservedRunner.retryTree, Runner.entry?_retryTree] at found
    split at found
    · contradiction
    · rename_i differs
      exact ⟨found, Function.update_of_ne differs _ _,
        (ProblemList.forTree_clearTree _ _ _).trans (if_neg differs)⟩
  · intro other failure found
    by_cases same : other = name
    · simp [ObservedRunner.retryTree, HostFailures.forget, same] at found
    · exact ⟨(Function.update_of_ne same _ _).symm.trans found,
        (Runner.entry?_retryTree _ _).trans (if_neg same)⟩

theorem retry (accurate : Accurate registry options observed limit trees) :
    Accurate registry options observed.retry limit trees := by
  refine accurate.drop observed.runner.settings_retry.1 observed.runner.settings_retry.2 ?_ ?_
    (Runner.nodup_foldl_retryTree accurate.nodup _)
  · intro name entry found
    simp only [ObservedRunner.retry, Runner.entry?_retry] at found
    split at found
    · contradiction
    · rename_i kept
      refine ⟨found, ?_, (Runner.forTree_retry name).trans (if_neg kept)⟩
      cases stands : observed.failures name with
      | none => rfl
      | some failure =>
          have failed := accurate.standing _ _ stands
          simp [Runner.isFailed, failed] at kept
  · intro name failure found
    contradiction

theorem moved (accurate : Accurate registry options observed limit trees) {later : Nat}
    (moved : TreesMoved limit trees later others) :
    Accurate registry options observed later others := by
  cases moved with
  | same same => exact accurate.subperm same.subperm
  | counted same => exact (accurate.subperm same.subperm).mono
  | stamped fresh kept same =>
      exact ((accurate.subperm kept).cons fresh).subperm same.subperm

end ObservedRunner.Accurate

namespace Session

variable {σ : Type} {registry : Registry} {options : CompileOptions}
  {session : Session ObservedRunner σ}

/-- The trees of the session have their problems listed where the cache is current. -/
def Accurate (registry : Registry) (options : CompileOptions)
    (session : Session ObservedRunner σ) : Prop :=
  session.runner.Accurate registry options session.revision session.trees

theorem accurate_start (registry : Registry) (options : CompileOptions) (host : σ) :
    Accurate registry options (start (.new registry options) host) where
  settings := ⟨rfl, rfl⟩
  distinct := .nil
  below _ member := nomatch member
  stored _ _ found := nomatch found
  named _ _ _ found := nomatch found
  standing _ _ found := nomatch found
  current _ member := nomatch member
  nodup := .nil

theorem Accurate.moved {next : Session ObservedRunner σ}
    (accurate : session.Accurate registry options) (moved : session.Moved next) :
    next.Accurate registry options := by
  rw [Accurate, moved.runner]
  exact ObservedRunner.Accurate.moved accurate moved.trees

theorem Accurate.runFrame (accurate : session.Accurate registry options)
    (names : (session.document.trees.map (·.name)).Nodup) (host : Host σ) :
    let next := session.runFrame (.observed _) host
    next.Accurate registry options ∧
      (∀ tree ∈ next.document.trees, ∃ state,
        next.runner.runner.entry? tree.name = some ⟨tree.revision, state⟩) ∧
      next.document.trees.map (·.name) = session.document.trees.map (·.name) ∧
      ∀ name, name ∉ session.document.trees.map (·.name) →
        next.runner.runner.problems.forTree name =
          session.runner.runner.problems.forTree name := by
  obtain ⟨next, ⟨after, procedures⟩, ended, flagged, answers, ran, -, sameNames, entries, outside,
    final⟩ := ObservedRunner.Accurate.runTrees accurate names host.noting (session.host, []) []
      .empty
  simp only [Session.runFrame, FrameDriver.observed, Runner.runFrame, ran, List.nil_append]
  refine ⟨final.retain ⟨flagged⟩ sameNames.symm, ?_, sameNames,
    fun name other => (outside name other).2⟩
  intro tree member
  have listed : flagged.any (·.name = tree.name) :=
    List.any_eq_true.mpr ⟨tree, member, decide_eq_true rfl⟩
  obtain ⟨state, present⟩ := entries tree member
  exact ⟨state, by rw [Runner.entry?_retain, if_pos listed, present]⟩

theorem Accurate.step (accurate : session.Accurate registry options)
    (names : (session.document.trees.map (·.name)).Nodup) (action : SessionAction σ) :
    (session.step (.observed _) action).Accurate registry options := by
  cases action with
  | edit kinds tree edit => exact accurate.moved (session.moved_edit kinds tree edit)
  | makeTree tree => exact accurate.moved (session.moved_makeTree tree)
  | addTree position => exact accurate.moved (session.moved_addTree position)
  | removeTree name => exact accurate.moved (session.moved_removeTree name)
  | frame host => exact (accurate.runFrame names host).1
  | retry => exact ObservedRunner.Accurate.retry accurate
  | retryTree name => exact ObservedRunner.Accurate.retryTree accurate name

theorem Accurate.run (accurate : session.Accurate registry options)
    {actions : List (SessionAction σ)}
    (names : ∀ earlier, earlier <+: actions →
      ((session.run (.observed _) earlier).document.trees.map (·.name)).Nodup) :
    (session.run (.observed _) actions).Accurate registry options := by
  -- From the end, since the last action finds the names of every document before it distinct.
  induction actions using List.reverseRecOn with
  | nil => exact accurate
  | append_singleton earlier action ih =>
      have before := ih fun first start => names first (start.trans (List.prefix_append _ _))
      rw [Session.run, List.foldl_append]
      exact before.step (names earlier (List.prefix_append _ _)) action

/-- In a session on documents with distinct names of trees, a frame leaves listed for each tree of
the document what compiling the tree reports, once each and in order, and after that its failure if
the tree failed in the host at its present revision and was not retried. For other names the list
stays as it was. -/
theorem problems_after_frame (registry : Registry) (options : CompileOptions) (host : σ)
    (actions : List (SessionAction σ)) (frameHost : Host σ)
    (names : ∀ earlier, earlier <+: actions →
      (((start (ObservedRunner.new registry options) host).run (.observed _)
        earlier).document.trees.map (·.name)).Nodup) :
    let before := (start (ObservedRunner.new registry options) host).run (.observed _) actions
    let after := before.step (.observed _) (.frame frameHost)
    after.unobserved = (start (Runner.new registry options) host).run (.caching _)
        (actions ++ [.frame frameHost]) ∧
      (∀ tree ∈ after.document.trees,
        after.runner.runner.problems.forTree tree.name =
          (tree.reported registry options).eraseDups ++ after.runner.failures.problems tree) ∧
      after.runner.runner.problems.entries.Nodup ∧
      ∀ name, name ∉ after.document.trees.map (·.name) →
        after.runner.runner.problems.forTree name =
          before.runner.runner.problems.forTree name := by
  intro before after
  have accurate : before.Accurate registry options :=
    (accurate_start registry options host).run names
  obtain ⟨listed, entries, sameNames, outside⟩ :=
    accurate.runFrame (names actions (List.prefix_refl _)) frameHost
  refine ⟨?_, ?_, listed.nodup, fun name absent => outside name (sameNames ▸ absent)⟩
  · have seen := (start (ObservedRunner.new registry options) host).unobserved_run
      (actions ++ [.frame frameHost])
    rw [Session.run, List.foldl_append] at seen
    exact seen
  · intro tree member
    obtain ⟨state, present⟩ := entries tree member
    exact listed.current tree (List.mem_append_left _ member) state present

def strange : Tree :=
  { Tree.new "strange" ⟨0, ""⟩ with nodes := [Node.ofKind "n" "gone"] }

def failing : List (SessionAction Unit) :=
  let broken : Host Unit := fun _ state => (some (.script "broken"), state)
  [.makeTree (.new "main" ⟨0, ""⟩), .addTree 0, .makeTree strange, .addTree 0,
    .edit Catalog.registry "main" (.newNode "an_QuaternionMathNode" "q"), .frame broken, .retry,
    .frame broken]

theorem problems_after_frame_failing :
    let working : Host Unit := fun _ state => (none, state)
    let before :=
      (start (ObservedRunner.new Catalog.registry .default) ()).run (.observed _) failing
    let after := before.step (.observed _) (.frame working)
    (∀ earlier, earlier <+: failing →
      (((start (ObservedRunner.new Catalog.registry .default) ()).run (.observed _)
        earlier).document.trees.map (·.name)).Nodup) ∧
    (∀ tree ∈ after.document.trees,
      after.runner.runner.problems.forTree tree.name =
        (tree.reported Catalog.registry .default).eraseDups ++
          after.runner.failures.problems tree) ∧
    after.runner.runner.problems.forTree "main" = [.executionFailed "broken"] ∧
    after.runner.runner.problems.forTree "strange" = [.unknownNodeKind "n" "gone"] := by
  intro working before after
  have names : ∀ earlier, earlier <+: failing →
      (((start (ObservedRunner.new Catalog.registry .default) ()).run (.observed _)
        earlier).document.trees.map (·.name)).Nodup := by
    have each : ∀ earlier ∈ failing.inits,
        (((start (ObservedRunner.new Catalog.registry .default) ()).run (.observed _)
          earlier).document.trees.map (·.name)).Nodup := by
      decide +kernel
    exact fun earlier start => each earlier ((List.mem_inits _ _).mpr start)
  exact ⟨names, (problems_after_frame Catalog.registry .default () failing working names).2.1,
    by decide +kernel, by decide +kernel⟩

/-- The document has lost the tree; its problem is still listed, and retrying does not help. -/
theorem problems_of_removed_strange :
    let idle : Host Unit := fun _ state => (none, state)
    let session := (start (Runner.new Catalog.registry .default) ()).run (.caching _)
      [.makeTree strange, .addTree 0, .frame idle, .removeTree "strange", .frame idle]
    session.document.trees.map (·.name) = [] ∧
      session.runner.problems.forTree "strange" = [.unknownNodeKind "n" "gone"] ∧
      (session.run (.caching _) [.retry, .frame idle]).runner.problems.forTree "strange" =
        [.unknownNodeKind "n" "gone"] := by
  decide +kernel

end Session

end FrameGraph
