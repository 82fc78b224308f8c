import FrameGraph.Catalog
import FrameGraph.CommandLine.Arguments
import FrameGraph.Compile
import FrameGraph.Config
import FrameGraph.Text.Blank
import FrameGraph.Tree.Repair

/-!
Carrying out commands. A command reads files, prints one text, and writes one file at most.
-/

namespace FrameGraph.CommandLine

structure FileAccess (m : Type → Type) where
  /-- The text of a file, if it can be read. -/
  read? : String → m (Option String)
  /-- Gives a file a text; says whether that could be done. -/
  write : String → String → m Bool

inductive OutsideCause
  | files
  | json
  | toml
deriving DecidableEq, Repr

inductive CommandError
  | unreadableConfig (path : String)
  | malformedConfig
  | unreadableDocument (path : String)
  | malformedDocument (path : String)
  | missingTree (document tree : String)
  | refusedTree (tree : String) (error : CompileError)
  | unwritable (path : String)
deriving DecidableEq, Repr

namespace CommandError

/-- The message, and the one that explains it where the program knows the cause. -/
def messages : CommandError → List String
  | unreadableConfig path => ["Failed to read config file " ++ path]
  | malformedConfig => ["Failed to parse config file"]
  | unreadableDocument path => ["Failed to read document " ++ path]
  | malformedDocument path => ["Failed to parse document " ++ path]
  | missingTree document tree => ["document " ++ document ++ " has no tree named '" ++ tree ++ "'"]
  | refusedTree tree error => ["Failed to compile tree '" ++ tree ++ "'", error.message]
  | unwritable path => ["Failed to write " ++ path]

def outsideCause? : CommandError → Option OutsideCause
  | unreadableConfig _ | unreadableDocument _ | unwritable _ => some .files
  | malformedDocument _ => some .json
  | malformedConfig => some .toml
  | missingTree .. | refusedTree .. => none

end CommandError

structure Surroundings where
  registry : Registry
  supply : Nat → String
  time : String

/-- The procedures of the trees in their order, without white space at their ends and with a blank
line between them. The first tree that is refused decides. -/
def compileTrees (registry : Registry) (options : CompileOptions) (trees : List Tree) :
    Except CommandError String := do
  let sources ← trees.mapM fun tree =>
    match tree.compile registry options with
    | .ok compiled => .ok (Text.trimEnd compiled.procedure.source)
    | .error e => .error (CommandError.refusedTree tree.name e)
  return "\n\n".intercalate sources

def selectTrees (path : String) (document : Document) : Option String →
    Except CommandError (List Tree)
  | none => .ok document.trees
  | some name =>
    match document.tree? name with
    | some tree => .ok [tree]
    | none => .error (.missingTree path name)

def listKinds (registry : Registry) : Option String → String
  | none => "\n".intercalate (registry.declarations.map (·.listing))
  | some term => "\n".intercalate ((registry.search term).map (·.listing))

section Running

variable {m : Type → Type} [Monad m] (files : FileAccess m)

def Arguments.configuration (arguments : Arguments) : ExceptT CommandError m Config := do
  let config ← match arguments.config with
    | none => pure {}
    | some path =>
      match ← files.read? path with
      | none => throw (.unreadableConfig path)
      | some text =>
        match Config.parse? text with
        | none => throw .malformedConfig
        | some config => pure config
  let config := match arguments.logLevel with
    | some logLevel => { config with logLevel }
    | none => config
  match arguments.command with
  | .compile _ _ false =>
    return { config with compilation := { config.compilation with debugComments := false } }
  | _ => return config

/-- A document in which every node has an identifier, and the number of those that had none. -/
def loadDocument (surroundings : Surroundings) (path : String) :
    ExceptT CommandError m (Document × Nat) := do
  match ← files.read? path with
  | none => throw (.unreadableDocument path)
  | some text =>
    match Document.parse? 1 text with
    | none => throw (.malformedDocument path)
    | some document =>
      let stamp : Stamp := ⟨document.trees.length + 1, surroundings.time⟩
      let (repaired, document) := document.repair surroundings.supply stamp
      return (document, repaired)

def Command.run (surroundings : Surroundings) (config : Config) :
    Command → ExceptT CommandError m String
  | .compile path tree _ => do
    let (document, _) ← loadDocument files surroundings path
    let trees ← liftExcept (selectTrees path document tree)
    liftExcept (compileTrees surroundings.registry config.compilation trees)
  | .repair path output => do
    let (document, repaired) ← loadDocument files surroundings path
    let target := output.getD path
    if ← files.write target document.text then
      return "repaired " ++ toString repaired ++ " identifier(s), wrote " ++ target
    else throw (.unwritable target)
  | .nodes search => return listKinds surroundings.registry search
where
  liftExcept {α : Type} (outcome : Except CommandError α) : ExceptT CommandError m α :=
    ExceptT.mk (pure outcome)

end Running

end FrameGraph.CommandLine
