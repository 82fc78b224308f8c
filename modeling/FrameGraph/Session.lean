import FrameGraph.Edit
import FrameGraph.Runner

/-!
Sessions: trees are edited, added, removed and run in any order. A session may be driven by any
runner, and keeps a record of every frame.
-/

namespace FrameGraph

/-- What a session asks of a runner with states `ρ` on a host with states `τ`. -/
structure FrameDriver (ρ τ : Type) where
  runFrame : ρ → Host τ → τ → Document → ρ × Document × τ × FrameReport
  retry : ρ → ρ
  retryTree : ρ → String → ρ

/-- Procedures are kept until the revision of their tree changes. -/
def FrameDriver.caching (τ : Type) : FrameDriver Runner τ where
  runFrame runner host state document :=
    let frame := runner.runFrame host state document
    (frame.runner, frame.document, frame.hostState, frame.report)
  retry := Runner.retry
  retryTree := Runner.retryTree

/-- A host that also notes the procedures it is handed. -/
def Host.noting {σ : Type} (host : Host σ) : Host (σ × List Procedure) :=
  fun procedure state =>
    let (error, next) := host procedure state.1
    (error, next, state.2 ++ [procedure])

/-- What can be seen of a frame: the trees of the document, the procedures handed to the host, and
what happened to the trees. -/
structure FrameRecord where
  trees : List String
  procedures : List Procedure
  executed : List String
  failed : List String
  skipped : List String
deriving DecidableEq

inductive SessionAction (σ : Type)
  /-- The first tree of the name is edited with the kinds given. -/
  | edit (registry : Registry) (tree : String) (edit : Edit)
  /-- A tree is made, with nodes and links already in it; it is not in the document yet. -/
  | makeTree (tree : Tree)
  /-- The tree at the position outside of the document is added to it. -/
  | addTree (position : Nat)
  /-- The trees of the name leave the document. -/
  | removeTree (name : String)
  /-- A frame on a host that may behave differently in every frame. -/
  | frame (host : Host σ)
  | retry
  | retryTree (name : String)

/-- A document, the trees outside of it, and the runner and the host that it is run with. -/
structure Session (ρ σ : Type) where
  runner : ρ
  document : Document
  outside : List Tree
  /-- The next revision. -/
  revision : Nat
  host : σ
  frames : List FrameRecord

namespace Session

variable {ρ σ : Type}

def start (runner : ρ) (host : σ) : Session ρ σ where
  runner
  document := .empty
  outside := []
  revision := 1
  host
  frames := []

def trees (session : Session ρ σ) : List Tree :=
  session.document.trees ++ session.outside

def stamp (session : Session ρ σ) : Stamp :=
  ⟨session.revision, ""⟩

/-- Edits the first tree of the name. An edit that is refused changes nothing. -/
def edit (session : Session ρ σ) (registry : Registry) (name : String) (edit : Edit) :
    Session ρ σ :=
  match session.document.tree? name with
  | none => session
  | some tree =>
    match edit.apply registry session.stamp tree with
    | .error _ => session
    | .ok (_, changed) =>
      { session with
        document := session.document.updateTree name fun _ => changed
        revision := session.revision + 1 }

def makeTree (session : Session ρ σ) (tree : Tree) : Session ρ σ :=
  { session with
    outside := { tree with revision := session.revision } :: session.outside
    revision := session.revision + 1 }

def addTree (session : Session ρ σ) (position : Nat) : Session ρ σ :=
  match session.outside[position]? with
  | none => session
  | some tree =>
    { session with
      document := session.document.addTree tree
      outside := session.outside.eraseIdx position }

def removeTree (session : Session ρ σ) (name : String) : Session ρ σ :=
  { session with
    document := ⟨session.document.trees.filter (·.name ≠ name)⟩
    outside := session.document.trees.filter (·.name = name) ++ session.outside }

def runFrame (driver : FrameDriver ρ (σ × List Procedure)) (session : Session ρ σ)
    (host : Host σ) : Session ρ σ :=
  let (runner, document, (state, procedures), report) :=
    driver.runFrame session.runner host.noting (session.host, []) session.document
  { session with
    runner
    document
    host := state
    frames := session.frames ++
      [{ trees := session.document.trees.map (·.name)
         procedures
         executed := report.executed
         failed := report.failed
         skipped := report.skipped }] }

def step (driver : FrameDriver ρ (σ × List Procedure)) (session : Session ρ σ) :
    SessionAction σ → Session ρ σ
  | .edit registry tree edit => session.edit registry tree edit
  | .makeTree tree => session.makeTree tree
  | .addTree position => session.addTree position
  | .removeTree name => session.removeTree name
  | .frame host => session.runFrame driver host
  | .retry => { session with runner := driver.retry session.runner }
  | .retryTree name => { session with runner := driver.retryTree session.runner name }

def run (driver : FrameDriver ρ (σ × List Procedure)) (session : Session ρ σ)
    (actions : List (SessionAction σ)) : Session ρ σ :=
  actions.foldl (step driver) session

end Session

end FrameGraph
