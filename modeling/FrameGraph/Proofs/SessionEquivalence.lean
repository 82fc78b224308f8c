import FrameGraph.Proofs.CachedFrames
import FrameGraph.Proofs.PlainRunner
import FrameGraph.Proofs.Revisions
import Mathlib.Data.List.Perm.Basic

/-!
Sessions with and without a cache. Main statement: no session can tell the two runners apart, and
every tree of a frame is executed, failed or skipped.
-/

namespace FrameGraph

theorem updateFirst_of_find? {α : Type} {test : α → Bool} (change : α → α) {items : List α} {a : α}
    (found : items.find? test = some a) :
    ∃ before after, items = before ++ a :: after ∧
      updateFirst test change items = before ++ change a :: after := by
  induction items with
  | nil => contradiction
  | cons first rest ih =>
      by_cases hit : test first
      · obtain rfl : first = a := by simpa [hit] using found
        exact ⟨[], rest, rfl, by simp [updateFirst, hit]⟩
      · obtain ⟨before, after, split, updated⟩ := ih (by simpa [hit] using found)
        exact ⟨first :: before, after, by simp [split], by simp [updateFirst, hit, updated]⟩

/-! What a frame accounts for -/

namespace FrameReport

theorem outcomes_executed (report : FrameReport) (name : String) :
    ({ report with executed := report.executed ++ [name] } : FrameReport).outcomes.Perm
      (name :: report.outcomes) := by
  simp [outcomes, List.append_assoc]

theorem outcomes_failed (report : FrameReport) (name : String) :
    ({ report with failed := report.failed ++ [name] } : FrameReport).outcomes.Perm
      (name :: report.outcomes) := by
  have moved : (report.executed ++ report.failed ++ name :: report.skipped).Perm
      (name :: (report.executed ++ report.failed ++ report.skipped)) := List.perm_middle
  simpa [outcomes, List.append_assoc] using moved

theorem outcomes_skipped (report : FrameReport) (name : String) :
    ({ report with skipped := report.skipped ++ [name] } : FrameReport).outcomes.Perm
      (name :: report.outcomes) := by
  rw [outcomes, ← List.append_assoc]
  exact List.perm_append_singleton name _

end FrameReport

namespace PlainRunner

variable {σ : Type}

theorem outcomes_runTree (runner : PlainRunner) (host : Host σ) (tree : Tree) (state : σ)
    (report : FrameReport) :
    (runner.runTree host tree state report).2.2.outcomes.Perm (tree.name :: report.outcomes) := by
  let compiled := { report with compiled := report.compiled ++ [tree.name] }
  unfold runTree
  simp only
  split
  · exact compiled.outcomes_skipped tree.name
  · split
    · exact compiled.outcomes_skipped tree.name
    · split
      · exact compiled.outcomes_executed tree.name
      · exact compiled.outcomes_failed tree.name

theorem outcomes_runTrees (runner : PlainRunner) (host : Host σ) (state : σ)
    (report : FrameReport) (trees : List Tree) :
    (runner.runTrees host state report trees).2.2.1.outcomes.Perm
      (trees.map (·.name) ++ report.outcomes) := by
  induction trees generalizing runner state report with
  | nil => exact .refl _
  | cons tree rest ih =>
      have head := runner.outcomes_runTree host tree state report
      have tail := ih (runner.runTree host tree state report).1
        (runner.runTree host tree state report).2.1 (runner.runTree host tree state report).2.2
      exact tail.trans ((head.append_left _).trans List.perm_middle)

end PlainRunner

namespace Session

variable {σ : Type}

/-- Two sessions that cannot be told apart, with runners in step. -/
structure Agrees (cached : Session Runner σ) (plain : Session PlainRunner σ) : Prop where
  document : cached.document = plain.document
  outside : cached.outside = plain.outside
  revision : cached.revision = plain.revision
  host : cached.host = plain.host
  frames : cached.frames = plain.frames
  inStep : InStep cached.runner plain.runner cached.revision cached.trees
  accounted : ∀ frame ∈ cached.frames,
    (frame.executed ++ frame.failed ++ frame.skipped).Perm frame.trees

theorem agrees_start {registry : Registry} (ignores : registry.IgnoresFlags)
    (options : CompileOptions) (host : σ) :
    Agrees (start (.new registry options) host) (start (.new registry options) host) := by
  refine ⟨rfl, rfl, rfl, rfl, rfl, ⟨ignores, rfl, rfl, .nil, ?_, ?_, ?_, ?_⟩, ?_⟩
  · intro tree member
    contradiction
  · intro name entry found
    contradiction
  · intro name revision found
    contradiction
  · intro tree member
    contradiction
  · intro frame member
    contradiction

variable {cached : Session Runner σ} {plain : Session PlainRunner σ}

theorem Agrees.edit (agrees : Agrees cached plain) (registry : Registry) (name : String)
    (edit : Edit) : Agrees (cached.edit registry name edit) (plain.edit registry name edit) := by
  obtain ⟨runner, document, outside, revision, host, frames⟩ := cached
  obtain ⟨plainRunner, _, _, _, _, _⟩ := plain
  obtain ⟨rfl, rfl, rfl, rfl, rfl, inStep, accounted⟩ := agrees
  unfold Session.edit
  cases found : document.tree? name with
  | none => exact ⟨rfl, rfl, rfl, rfl, rfl, inStep, accounted⟩
  | some tree =>
      simp only [stamp]
      cases done : edit.apply registry ⟨revision, ""⟩ tree with
      | error error => exact ⟨rfl, rfl, rfl, rfl, rfl, inStep, accounted⟩
      | ok outcome =>
          obtain ⟨result, changed⟩ := outcome
          obtain ⟨before, after, split, updated⟩ :=
            updateFirst_of_find? (fun _ => changed) found
          have moved : InStep runner plainRunner revision
              (tree :: (before ++ (after ++ outside))) := by
            apply inStep.perm
            simp [trees, split]
          have edited : InStep runner plainRunner (revision + 1)
              (changed :: (before ++ (after ++ outside))) := by
            rcases Edit.apply_keptOrStamped done with rfl | stamped
            · exact moved.mono
            · exact moved.tail.cons stamped
          refine ⟨rfl, rfl, rfl, rfl, rfl, edited.perm ?_, accounted⟩
          simpa [trees, Document.updateTree, updated] using List.perm_middle.symm

theorem Agrees.makeTree (agrees : Agrees cached plain) (tree : Tree) :
    Agrees (cached.makeTree tree) (plain.makeTree tree) := by
  obtain ⟨runner, document, outside, revision, host, frames⟩ := cached
  obtain ⟨plainRunner, _, _, _, _, _⟩ := plain
  obtain ⟨rfl, rfl, rfl, rfl, rfl, inStep, accounted⟩ := agrees
  have made : InStep runner plainRunner (revision + 1)
      ({ tree with revision } :: (document.trees ++ outside)) := inStep.cons rfl
  exact ⟨rfl, rfl, rfl, rfl, rfl, made.perm List.perm_middle.symm, accounted⟩

theorem Agrees.addTree (agrees : Agrees cached plain) (position : Nat) :
    Agrees (cached.addTree position) (plain.addTree position) := by
  obtain ⟨runner, document, outside, revision, host, frames⟩ := cached
  obtain ⟨plainRunner, _, _, _, _, _⟩ := plain
  obtain ⟨rfl, rfl, rfl, rfl, rfl, inStep, accounted⟩ := agrees
  unfold Session.addTree
  cases found : outside[position]? with
  | none => exact ⟨rfl, rfl, rfl, rfl, rfl, inStep, accounted⟩
  | some tree =>
      refine ⟨rfl, rfl, rfl, rfl, rfl, inStep.perm ?_, accounted⟩
      obtain ⟨inside, rfl⟩ := List.getElem?_eq_some_iff.mp found
      simp only [trees, Document.addTree, List.append_assoc, List.singleton_append]
      exact (List.getElem_cons_eraseIdx_perm inside).symm.append_left _

theorem Agrees.removeTree (agrees : Agrees cached plain) (name : String) :
    Agrees (cached.removeTree name) (plain.removeTree name) := by
  obtain ⟨runner, document, outside, revision, host, frames⟩ := cached
  obtain ⟨plainRunner, _, _, _, _, _⟩ := plain
  obtain ⟨rfl, rfl, rfl, rfl, rfl, inStep, accounted⟩ := agrees
  refine ⟨rfl, rfl, rfl, rfl, rfl, inStep.perm ?_, accounted⟩
  have parted := List.filter_append_perm (fun tree : Tree => decide (tree.name ≠ name))
    document.trees
  simp only [trees, Session.removeTree]
  rw [← List.append_assoc]
  refine List.Perm.append_right _ (parted.symm.trans ?_)
  simp

theorem Agrees.runFrame (agrees : Agrees cached plain) (host : Host σ) :
    Agrees (cached.runFrame (.caching _) host) (plain.runFrame (.plain _) host) := by
  obtain ⟨runner, document, outside, revision, state, frames⟩ := cached
  obtain ⟨plainRunner, _, _, _, _, _⟩ := plain
  obtain ⟨rfl, rfl, rfl, rfl, rfl, inStep, accounted⟩ := agrees
  have whole : InStep runner plainRunner revision (document.trees ++ outside) := inStep
  have blank : FrameReport.empty.SameOutcomes .empty := ⟨rfl, rfl, rfl⟩
  obtain ⟨next, nextPlain, ⟨nextState, procedures⟩, report, plainReport, flagged, ran, ranPlain,
    same, ended⟩ := whole.runTrees host.noting (state, []) blank
  have outcomes := plainRunner.outcomes_runTrees host.noting (state, []) .empty document.trees
  simp only [Session.runFrame, FrameDriver.caching, FrameDriver.plain, Runner.runFrame,
    PlainRunner.runFrame, ran, ranPlain, same.executed, same.failed, same.skipped]
  rw [ranPlain] at outcomes
  refine ⟨rfl, rfl, rfl, rfl, rfl, ended.retain _, ?_⟩
  intro frame member
  rcases List.mem_append.mp member with member | member
  · exact accounted frame member
  · obtain rfl := List.mem_singleton.mp member
    simpa [FrameReport.outcomes, FrameReport.empty] using outcomes

theorem Agrees.step (agrees : Agrees cached plain) (action : SessionAction σ) :
    Agrees (cached.step (.caching _) action) (plain.step (.plain _) action) := by
  cases action with
  | edit registry tree edit => exact agrees.edit registry tree edit
  | makeTree tree => exact agrees.makeTree tree
  | addTree position => exact agrees.addTree position
  | removeTree name => exact agrees.removeTree name
  | frame host => exact agrees.runFrame host
  | retry => exact { agrees with inStep := agrees.inStep.retry }
  | retryTree name => exact { agrees with inStep := agrees.inStep.retryTree name }

theorem Agrees.run (agrees : Agrees cached plain) (actions : List (SessionAction σ)) :
    Agrees (cached.run (.caching _) actions) (plain.run (.plain _) actions) := by
  induction actions generalizing cached plain with
  | nil => exact agrees
  | cons action rest ih => exact ih (agrees.step action)

/-- Whatever happens in a session, keeping procedures shows neither in the procedures that the host
is handed nor in what is reported of the trees, each of which is executed, failed or skipped. -/
theorem run_caching_eq_run_plain {registry : Registry} (ignores : registry.IgnoresFlags)
    (options : CompileOptions) (host : σ) (actions : List (SessionAction σ)) :
    let cached := (start (Runner.new registry options) host).run (.caching _) actions
    let plain := (start (PlainRunner.new registry options) host).run (.plain _) actions
    cached.frames = plain.frames ∧ cached.document = plain.document ∧ cached.host = plain.host ∧
      ∀ frame ∈ cached.frames,
        (frame.executed ++ frame.failed ++ frame.skipped).Perm frame.trees := by
  have agrees := (agrees_start ignores options host).run actions
  exact ⟨agrees.frames, agrees.document, agrees.host, agrees.accounted⟩

/-- A tree fails, is passed over, is retried, leaves the document and comes back, fails again and is
edited, with a frame after each. -/
def troubled : List (SessionAction Unit) :=
  let working : Host Unit := fun _ state => (none, state)
  let broken : Host Unit := fun _ state => (some (.script "broken"), state)
  [.makeTree (.new "main" ⟨0, ""⟩), .addTree 0,
    .edit Catalog.registry "main" (.newNode "an_QuaternionMathNode" "q"), .frame broken,
    .frame working, .retry, .frame working, .removeTree "main", .frame working, .addTree 0,
    .frame broken, .edit Catalog.registry "main" (.newNode "an_ColorMix" "c"), .frame working]

theorem run_caching_eq_run_plain_troubled :
    let cached := (start (Runner.new Catalog.registry .default) ()).run (.caching _) troubled
    let plain := (start (PlainRunner.new Catalog.registry .default) ()).run (.plain _) troubled
    (cached.frames = plain.frames ∧ cached.document = plain.document ∧ cached.host = plain.host ∧
      ∀ frame ∈ cached.frames,
        (frame.executed ++ frame.failed ++ frame.skipped).Perm frame.trees) ∧
    cached.frames.map (·.executed) = [[], [], ["main"], [], [], ["main"]] ∧
    cached.frames.map (·.failed) = [["main"], [], [], [], ["main"], []] ∧
    cached.frames.map (·.skipped) = [[], ["main"], [], [], [], []] :=
  ⟨run_caching_eq_run_plain Catalog.ignoresFlags_registry .default () troubled,
    by decide +kernel, by decide +kernel, by decide +kernel⟩

end Session

end FrameGraph
