import FrameGraph.Proofs.CachedFrames
import FrameGraph.Session
import Mathlib.Logic.Function.Basic

/-!
Failures in the host as an observer of a session counts them. The observer sees the answers of the
host, the document and the retries, and nothing of the runner. Main statement: a session runs the
same with the observer.
-/

namespace FrameGraph

structure HostAnswer where
  tree : String
  error : Option HostError
deriving DecidableEq, Repr

def Host.answering {σ : Type} (host : Host σ) : Host (σ × List HostAnswer) :=
  fun procedure state =>
    let (error, next) := host procedure state.1
    (error, next, state.2 ++ [⟨procedure.tree, error⟩])

structure HostFailure where
  revision : Nat
  message : String
deriving DecidableEq, Repr

abbrev HostFailures := String → Option HostFailure

namespace HostFailures

def none : HostFailures :=
  fun _ => .none

/-- What is known of a tree after a frame. An answer counts from now on; without one, a failure
stands as long as the tree has not changed. -/
def settle (failures : HostFailures) (tree : Tree) (answer : Option HostAnswer) : HostFailures :=
  Function.update failures tree.name <|
    match answer with
    | some answer => answer.error.map fun error => ⟨tree.revision, error.message⟩
    | .none => (failures tree.name).filter (·.revision = tree.revision)

def settleAll (failures : HostFailures) (trees : List Tree) (answers : List HostAnswer) :
    HostFailures :=
  trees.foldl
    (fun failures tree => failures.settle tree (answers.find? (·.tree = tree.name))) failures

def retain (failures : HostFailures) (trees : List Tree) : HostFailures :=
  fun name => if trees.any (·.name = name) then failures name else .none

def forget (failures : HostFailures) (tree : String) : HostFailures :=
  Function.update failures tree .none

def problems (failures : HostFailures) (tree : Tree) : List Problem :=
  match failures tree.name with
  | some failure =>
    if failure.revision = tree.revision then [.executionFailed failure.message] else []
  | .none => []

variable {failures : HostFailures} {tree : Tree}

theorem problems_of_none (unfailed : failures tree.name = .none) : failures.problems tree = [] := by
  rw [problems, unfailed]

theorem problems_of_some {message : String}
    (failed : failures tree.name = some ⟨tree.revision, message⟩) :
    failures.problems tree = [.executionFailed message] := by
  simp [problems, failed]

theorem settle_self (failures : HostFailures) (tree : Tree) (answer : HostAnswer) :
    failures.settle tree (some answer) tree.name =
      answer.error.map fun error => ⟨tree.revision, error.message⟩ :=
  Function.update_self _ _ _

theorem settle_of_ne {name : String} (differs : name ≠ tree.name) (answer : Option HostAnswer) :
    failures.settle tree answer name = failures name :=
  Function.update_of_ne differs _ _

theorem settle_congr {changed : Tree} (name : changed.name = tree.name)
    (revision : changed.revision = tree.revision) (answer : Option HostAnswer) :
    failures.settle changed answer = failures.settle tree answer := by
  unfold settle
  rw [name, revision]

theorem settle_settle (failures : HostFailures) (tree : Tree) (answer : Option HostAnswer) :
    (failures.settle tree .none).settle tree answer = failures.settle tree answer := by
  cases answer with
  | some answer => exact Function.update_idem _ _ _
  | none => simp [settle, Option.filter_filter]

theorem settleAll_cons (failures : HostFailures) (tree : Tree) (rest : List Tree)
    (answers : List HostAnswer) : failures.settleAll (tree :: rest) answers =
      (failures.settle tree (answers.find? (·.tree = tree.name))).settleAll rest answers :=
  rfl

theorem find?_answer {name : String} {answer : Option HostAnswer}
    (own : ∀ noted ∈ answer, noted.tree = name) {others : List HostAnswer}
    (apart : ∀ noted ∈ others, noted.tree ≠ name) :
    (answer.toList ++ others).find? (·.tree = name) = answer := by
  have missing : others.find? (fun noted => decide (noted.tree = name)) = .none := by
    rw [List.find?_eq_none]
    intro noted member
    simpa using apart noted member
  cases answer with
  | none => exact missing
  | some noted => simp [own noted rfl]

theorem settleAll_append {trees : List Tree} {first : List HostAnswer}
    (apart : ∀ answer ∈ first, answer.tree ∉ trees.map (·.name)) (answers : List HostAnswer) :
    failures.settleAll trees (first ++ answers) = failures.settleAll trees answers := by
  induction trees generalizing failures with
  | nil => rfl
  | cons tree rest ih =>
      simp only [List.map_cons, List.mem_cons, not_or] at apart
      have missing : first.find? (fun answer => decide (answer.tree = tree.name)) = .none := by
        rw [List.find?_eq_none]
        intro answer member
        simpa using (apart answer member).1
      rw [settleAll_cons, settleAll_cons, List.find?_append, missing, Option.none_or]
      exact ih fun answer member => (apart answer member).2

end HostFailures

/-- A runner under observation. -/
structure ObservedRunner where
  runner : Runner
  failures : HostFailures

namespace ObservedRunner

def new (registry : Registry) (options : CompileOptions) : ObservedRunner :=
  ⟨.new registry options, .none⟩

def retry (observed : ObservedRunner) : ObservedRunner :=
  ⟨observed.runner.retry, .none⟩

def retryTree (observed : ObservedRunner) (tree : String) : ObservedRunner :=
  ⟨observed.runner.retryTree tree, observed.failures.forget tree⟩

end ObservedRunner

def FrameDriver.observed (τ : Type) : FrameDriver ObservedRunner τ where
  runFrame observed host state document :=
    let frame := observed.runner.runFrame host.answering (state, []) document
    (⟨frame.runner,
      (observed.failures.settleAll document.trees frame.hostState.2).retain document.trees⟩,
      frame.document, frame.hostState.1, frame.report)
  retry := ObservedRunner.retry
  retryTree := ObservedRunner.retryTree

namespace Runner

variable {σ : Type}

def answers (runner : Runner) (host : Host σ) (tree : String) (state : σ) : List HostAnswer :=
  match runner.procedure? tree with
  | some procedure => [⟨procedure.tree, (host procedure state).1⟩]
  | none => []

theorem execute_answering (runner : Runner) (host : Host σ) (tree : Tree) (state : σ)
    (noted : List HostAnswer) (report : FrameReport) :
    runner.execute host.answering tree (state, noted) report =
      let (next, after, report) := runner.execute host tree state report
      (next, (after, noted ++ runner.answers host tree.name state), report) := by
  unfold execute answers procedure?
  cases runner.entry? tree.name with
  | none => simp
  | some entry =>
      obtain ⟨revision, _ | _⟩ := entry
      · rename_i procedure
        simp only [Host.answering]
        cases host procedure state with
        | mk error after => cases error <;> rfl
      · simp

theorem runTree_answering (runner : Runner) (host : Host σ) (tree : Tree) (state : σ)
    (noted : List HostAnswer) (report : FrameReport) :
    runner.runTree host.answering tree (state, noted) report =
      let (changed, next, after, ended) := runner.runTree host tree state report
      (changed, next,
        (after, noted ++ (runner.prepare tree).2.1.answers host changed.name state), ended) := by
  simp only [runTree, execute_answering]

theorem runTrees_answering (runner : Runner) (host : Host σ) (trees : List Tree) (state : σ)
    (noted : List HostAnswer) (report : FrameReport) :
    ∃ answers, runner.runTrees host.answering (state, noted) report trees =
      let (next, after, ended, flagged) := runner.runTrees host state report trees
      (next, (after, noted ++ answers), ended, flagged) := by
  induction trees generalizing runner state noted report with
  | nil => exact ⟨[], by simp [runTrees]⟩
  | cons tree rest ih =>
      rw [runTrees_cons, runTrees_cons, runTree_answering]
      obtain ⟨changed, next, after, ended⟩ := runner.runTree host tree state report
      let first := (runner.prepare tree).2.1.answers host changed.name state
      obtain ⟨answers, ran⟩ := ih next after (noted ++ first) ended
      refine ⟨first ++ answers, ?_⟩
      simp only [first] at ran
      simp only [ran, first, List.append_assoc]

end Runner

namespace Session

variable {σ : Type}

def unobserved (session : Session ObservedRunner σ) : Session Runner σ where
  runner := session.runner.runner
  document := session.document
  outside := session.outside
  revision := session.revision
  host := session.host
  frames := session.frames

theorem unobserved_step (session : Session ObservedRunner σ) (action : SessionAction σ) :
    (session.step (.observed _) action).unobserved =
      session.unobserved.step (.caching _) action := by
  cases action with
  | edit registry tree edit =>
      simp only [step, Session.edit]
      have same : session.unobserved.document = session.document := rfl
      rw [same]
      cases session.document.tree? tree with
      | none => rfl
      | some found =>
          have stamp : session.unobserved.stamp = session.stamp := rfl
          simp only [stamp]
          cases edit.apply registry session.stamp found <;> rfl
  | makeTree tree => rfl
  | addTree position =>
      simp only [step, Session.addTree]
      have same : session.unobserved.outside = session.outside := rfl
      rw [same]
      cases session.outside[position]? <;> rfl
  | removeTree name => rfl
  | frame host =>
      obtain ⟨answers, ran⟩ := session.runner.runner.runTrees_answering host.noting
        session.document.trees (session.host, []) [] .empty
      simp only [step, Session.runFrame, FrameDriver.observed, FrameDriver.caching,
        Runner.runFrame, unobserved, ran]
  | retry => rfl
  | retryTree name => rfl

/-- Observing a session changes nothing in it. -/
theorem unobserved_run (session : Session ObservedRunner σ) (actions : List (SessionAction σ)) :
    (session.run (.observed _) actions).unobserved =
      session.unobserved.run (.caching _) actions := by
  induction actions generalizing session with
  | nil => rfl
  | cons action rest ih => exact (ih _).trans (by rw [unobserved_step]; rfl)

end Session

end FrameGraph
