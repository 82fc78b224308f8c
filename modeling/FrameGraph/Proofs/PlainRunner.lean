import FrameGraph.Session

/-!
Running the trees of a document without keeping procedures: every tree is compiled in every frame,
and all that is remembered is at which revision a tree failed in the host.
-/

namespace FrameGraph

/-- The state between frames: under the name of a tree, the revision at which it failed last. -/
structure PlainRunner where
  registry : Registry
  options : CompileOptions
  failures : List (String × Nat)

namespace PlainRunner

def new (registry : Registry) (options : CompileOptions) : PlainRunner where
  registry
  options
  failures := []

def failure? (runner : PlainRunner) (tree : String) : Option Nat :=
  runner.failures.lookup tree

def forget (runner : PlainRunner) (tree : String) : PlainRunner :=
  { runner with failures := runner.failures.filter (·.1 ≠ tree) }

def remember (runner : PlainRunner) (tree : String) (revision : Nat) : PlainRunner :=
  { runner with failures := (tree, revision) :: (runner.forget tree).failures }

/-- The tree with its nodes flagged as compiling it now says. -/
def flag (runner : PlainRunner) (tree : Tree) : Tree :=
  match tree.compile runner.registry runner.options with
  | .ok _ => tree.flagInvalid []
  | .error error => tree.flagInvalid (tree.invalidNodes error.problems)

/-- Compiles the tree and hands its procedure to the host, unless it failed there and has not
changed since. What was remembered of another revision is forgotten. -/
def runTree {σ : Type} (runner : PlainRunner) (host : Host σ) (tree : Tree) (state : σ)
    (report : FrameReport) : PlainRunner × σ × FrameReport :=
  let report := { report with compiled := report.compiled ++ [tree.name] }
  if runner.failure? tree.name = some tree.revision then
    (runner, state, { report with skipped := report.skipped ++ [tree.name] })
  else
    let runner := runner.forget tree.name
    match tree.compile runner.registry runner.options with
    | .error _ => (runner, state, { report with skipped := report.skipped ++ [tree.name] })
    | .ok compiled =>
      match host compiled.procedure state with
      | (none, state) =>
        (runner, state, { report with executed := report.executed ++ [tree.name] })
      | (some _, state) =>
        (runner.remember tree.name tree.revision, state,
          { report with failed := report.failed ++ [tree.name] })

def runTrees {σ : Type} (runner : PlainRunner) (host : Host σ) (state : σ) (report : FrameReport) :
    List Tree → PlainRunner × σ × FrameReport × List Tree
  | [] => (runner, state, report, [])
  | tree :: rest =>
    let flagged := runner.flag tree
    let (runner, state, report) := runner.runTree host tree state report
    let (runner, state, report, trees) := runTrees runner host state report rest
    (runner, state, report, flagged :: trees)

def retain (runner : PlainRunner) (document : Document) : PlainRunner :=
  { runner with
    failures := runner.failures.filter fun entry => document.trees.any (·.name = entry.1) }

def runFrame {σ : Type} (runner : PlainRunner) (host : Host σ) (state : σ) (document : Document) :
    PlainRunner × Document × σ × FrameReport :=
  let (runner, state, report, trees) := runner.runTrees host state .empty document.trees
  (runner.retain ⟨trees⟩, ⟨trees⟩, state, report)

def retry (runner : PlainRunner) : PlainRunner :=
  { runner with failures := [] }

end PlainRunner

/-- A session on it, in which no procedure is kept. -/
def FrameDriver.plain (τ : Type) : FrameDriver PlainRunner τ where
  runFrame := PlainRunner.runFrame
  retry := PlainRunner.retry
  retryTree := PlainRunner.forget

/-! Look-up after entries are dropped by their keys. -/

theorem lookup_filter_key {α : Type} (keep : String → Bool) (entries : List (String × α))
    (name : String) :
    (entries.filter fun entry => keep entry.1).lookup name =
      if keep name then entries.lookup name else none := by
  induction entries with
  | nil => simp
  | cons entry rest ih =>
      obtain ⟨key, value⟩ := entry
      by_cases same : name = key
      · subst same
        cases kept : keep name with
        | true => simp [kept]
        | false => simp [kept, ih]
      · have differs : (name == key) = false := by simpa using same
        cases kept : keep key with
        | true => simp [kept, List.lookup_cons, differs, ih]
        | false => simp [kept, List.lookup_cons, differs, ih]

namespace PlainRunner

variable {runner : PlainRunner}

@[simp] theorem registry_forget (tree : String) :
    (runner.forget tree).registry = runner.registry := rfl

@[simp] theorem options_forget (tree : String) :
    (runner.forget tree).options = runner.options := rfl

theorem failure?_forget (tree name : String) :
    (runner.forget tree).failure? name = if name = tree then none else runner.failure? name := by
  have dropped := lookup_filter_key (fun key => decide (key ≠ tree)) runner.failures name
  by_cases same : name = tree
  · simpa [forget, failure?, same] using dropped
  · simpa [forget, failure?, same] using dropped

theorem failure?_remember (tree : String) (revision : Nat) (name : String) :
    (runner.remember tree revision).failure? name =
      if name = tree then some revision else runner.failure? name := by
  by_cases same : name = tree
  · simp [remember, failure?, same]
  · have others := runner.failure?_forget tree name
    have differs : (name == tree) = false := by simpa using same
    simpa [remember, failure?, List.lookup_cons, differs, same] using others

theorem failure?_retain (document : Document) (name : String) :
    (runner.retain document).failure? name =
      if document.trees.any (·.name = name) then runner.failure? name else none :=
  lookup_filter_key (fun key => document.trees.any (·.name = key)) runner.failures name

end PlainRunner

namespace Runner

variable {runner : Runner}

theorem entry?_setEntry (tree : String) (entry : CacheEntry) (name : String) :
    Runner.entry? (runner.setEntry tree entry) name =
      if name = tree then some entry else runner.entry? name := by
  by_cases same : name = tree
  · simp [setEntry, entry?, same]
  · have others := lookup_filter_key (fun key => decide (key ≠ tree)) runner.cache name
    have differs : (name == tree) = false := by simpa using same
    simpa [setEntry, entry?, List.lookup_cons, differs, same] using others

theorem entry?_retain (document : Document) (name : String) :
    Runner.entry? (runner.retain document) name =
      if document.trees.any (·.name = name) then runner.entry? name else none :=
  lookup_filter_key (fun key => document.trees.any (·.name = key)) runner.cache name

theorem entry?_retryTree (tree name : String) :
    Runner.entry? (runner.retryTree tree) name =
      if name = tree then none else runner.entry? name := by
  have dropped := lookup_filter_key (fun key => decide (key ≠ tree)) runner.cache name
  by_cases same : name = tree
  · simpa [retryTree, entry?, same] using dropped
  · simpa [retryTree, entry?, same] using dropped

theorem entry?_foldl_retryTree (trees : List String) (name : String) :
    Runner.entry? (trees.foldl retryTree runner) name =
      if name ∈ trees then none else runner.entry? name := by
  induction trees generalizing runner with
  | nil => simp
  | cons tree trees ih =>
      rw [List.foldl_cons, ih, entry?_retryTree]
      by_cases same : name = tree
      · simp [same]
      · simp [same]

theorem settings_retry (runner : Runner) :
    runner.retry.registry = runner.registry ∧ runner.retry.options = runner.options := by
  rw [retry]
  generalize (runner.cache.map (·.1)).filter runner.isFailed = trees
  induction trees generalizing runner with
  | nil => exact ⟨rfl, rfl⟩
  | cons tree trees ih => exact ih (runner.retryTree tree)

theorem mem_cache_of_isFailed {name : String} (failed : runner.isFailed name) :
    name ∈ runner.cache.map (·.1) := by
  unfold isFailed at failed
  split at failed
  · rename_i revision found
    obtain ⟨before, after, split, -⟩ := List.lookup_eq_some_iff.mp found
    simp [split]
  · contradiction

theorem entry?_retry (name : String) :
    runner.retry.entry? name = if runner.isFailed name then none else runner.entry? name := by
  rw [retry, entry?_foldl_retryTree]
  by_cases failed : runner.isFailed name
  · rw [if_pos (List.mem_filter.mpr ⟨mem_cache_of_isFailed failed, failed⟩), if_pos failed]
  · have kept : name ∉ (runner.cache.map (·.1)).filter runner.isFailed :=
      fun member => failed (List.mem_filter.mp member).2
    rw [if_neg kept, if_neg failed]

/-! Forgetting adds no entries. -/

theorem entry?_of_retain {document : Document} {name : String} {entry : CacheEntry}
    (found : Runner.entry? (runner.retain document) name = some entry) :
    runner.entry? name = some entry := by
  rw [entry?_retain] at found
  split at found
  · exact found
  · contradiction

theorem entry?_of_retryTree {tree name : String} {entry : CacheEntry}
    (found : Runner.entry? (runner.retryTree tree) name = some entry) :
    runner.entry? name = some entry := by
  rw [entry?_retryTree] at found
  split at found
  · contradiction
  · exact found

theorem entry?_of_retry {name : String} {entry : CacheEntry}
    (found : runner.retry.entry? name = some entry) : runner.entry? name = some entry := by
  rw [entry?_retry] at found
  split at found
  · contradiction
  · exact found

end Runner

end FrameGraph
