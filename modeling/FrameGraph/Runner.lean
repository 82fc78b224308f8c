import FrameGraph.Compile
import FrameGraph.Problem.List

/-!
Running the trees of a document once per frame. A tree is compiled again only when its revision has
changed; a tree that failed is passed over until it changes or is retried.
-/

namespace FrameGraph

inductive HostError
  | script (message : String)
  | missingModule (module : String)
deriving DecidableEq, Repr

namespace HostError

def message : HostError → String
  | script message => message
  | missingModule module => "module '" ++ module ++ "' is not available"

end HostError

/-- A host with states of type `σ`: running a procedure may fail and changes the state. -/
abbrev Host (σ : Type) := Procedure → σ → Option HostError × σ

inductive CacheState
  | ready (procedure : Procedure)
  | failed
deriving DecidableEq, Repr

structure CacheEntry where
  revision : Nat
  state : CacheState
deriving DecidableEq, Repr

structure FrameReport where
  compiled : List String
  executed : List String
  failed : List String
  skipped : List String
deriving DecidableEq, Repr

namespace FrameReport

def empty : FrameReport := ⟨[], [], [], []⟩

end FrameReport

/-- The state between frames; the cache holds at most one entry for a name. -/
structure Runner where
  registry : Registry
  options : CompileOptions
  cache : List (String × CacheEntry)
  problems : ProblemList

namespace Runner

def new (registry : Registry) (options : CompileOptions) : Runner where
  registry
  options
  cache := []
  problems := .empty

def entry? (runner : Runner) (tree : String) : Option CacheEntry :=
  runner.cache.lookup tree

def setEntry (runner : Runner) (tree : String) (entry : CacheEntry) : Runner :=
  { runner with cache := (tree, entry) :: runner.cache.filter (·.1 ≠ tree) }

def procedure? (runner : Runner) (tree : String) : Option Procedure :=
  match runner.entry? tree with
  | some ⟨_, .ready procedure⟩ => some procedure
  | _ => none

def isFailed (runner : Runner) (tree : String) : Bool :=
  match runner.entry? tree with
  | some ⟨_, .failed⟩ => true
  | _ => false

def isCurrent (runner : Runner) (tree : Tree) : Bool :=
  (runner.entry? tree.name).any (·.revision = tree.revision)

/-- What compiling the tree leads to: the state to remember, the problems to report, and the nodes
to flag. -/
def judge (runner : Runner) (tree : Tree) : CacheState × List Problem × List String :=
  match tree.compile runner.registry runner.options with
  | .ok compiled => (.ready compiled.procedure, compiled.warnings, [])
  | .error error => (.failed, error.problems, tree.invalidNodes error.problems)

/-- Compiles the tree unless the cache is current. Says whether it did, and flags the nodes of the
tree if so. -/
def prepare (runner : Runner) (tree : Tree) : Bool × Runner × Tree :=
  if runner.isCurrent tree then (false, runner, tree)
  else
    let (state, problems, invalid) := runner.judge tree
    let reported := (runner.problems.clearTree tree.name).reportAll tree.name problems
    (true, { runner with problems := reported }.setEntry tree.name ⟨tree.revision, state⟩,
      tree.flagInvalid invalid)

def execute {σ : Type} (runner : Runner) (host : Host σ) (tree : Tree) (state : σ)
    (report : FrameReport) : Runner × σ × FrameReport :=
  match runner.entry? tree.name with
  | none => (runner, state, report)
  | some ⟨_, .failed⟩ => (runner, state, { report with skipped := report.skipped ++ [tree.name] })
  | some ⟨revision, .ready procedure⟩ =>
    match host procedure state with
    | (none, state) =>
      (runner, state, { report with executed := report.executed ++ [tree.name] })
    | (some error, state) =>
      let problems := runner.problems.report tree.name (.executionFailed error.message)
      ({ runner with problems }.setEntry tree.name ⟨revision, .failed⟩, state,
        { report with failed := report.failed ++ [tree.name] })

def runTrees {σ : Type} (runner : Runner) (host : Host σ) (state : σ) (report : FrameReport) :
    List Tree → Runner × σ × FrameReport × List Tree
  | [] => (runner, state, report, [])
  | tree :: rest =>
    let (compiled, runner, tree) := runner.prepare tree
    let report :=
      if compiled then { report with compiled := report.compiled ++ [tree.name] } else report
    let (runner, state, report) := runner.execute host tree state report
    let (runner, state, report, trees) := runTrees runner host state report rest
    (runner, state, report, tree :: trees)

/-- Forgets the trees that the document does not have; what was reported for them stays. -/
def retain (runner : Runner) (document : Document) : Runner :=
  { runner with
    cache := runner.cache.filter fun entry => document.trees.any (·.name = entry.1) }

structure Frame (σ : Type) where
  runner : Runner
  document : Document
  hostState : σ
  report : FrameReport

def runFrame {σ : Type} (runner : Runner) (host : Host σ) (state : σ) (document : Document) :
    Frame σ :=
  let (runner, hostState, report, trees) := runner.runTrees host state .empty document.trees
  let document : Document := ⟨trees⟩
  { runner := runner.retain document, document, hostState, report }

/-- Lets a tree be compiled and run again, and withdraws what was reported for it. -/
def retryTree (runner : Runner) (tree : String) : Runner :=
  { runner with
    cache := runner.cache.filter (·.1 ≠ tree)
    problems := runner.problems.clearTree tree }

/-- Retries every tree that failed. -/
def retry (runner : Runner) : Runner :=
  ((runner.cache.map (·.1)).filter runner.isFailed).foldl retryTree runner

end Runner

end FrameGraph
