import FrameGraph.CommandLine.Words

/-!
The commands of the program and the options that go with them.
-/

namespace FrameGraph.CommandLine

inductive Command
  /-- Prints the procedures of a document, or of one of its trees. -/
  | compile (document : String) (tree : Option String) (comments : Bool)
  /-- Gives identifiers to the nodes of a document, in place or into another file. -/
  | repair (document : String) (output : Option String)
  /-- Lists the node kinds, or those that mention a term. -/
  | nodes (search : Option String)
deriving DecidableEq, Repr

structure Arguments where
  /-- The path of the configuration file. -/
  config : Option String
  logLevel : Option String
  command : Command
deriving DecidableEq, Repr

inductive CommandName
  | compile
  | repair
  | nodes
deriving DecidableEq, Repr

namespace CommandName

def all : List CommandName :=
  [compile, repair, nodes]

def name : CommandName → String
  | compile => "compile"
  | repair => "repair"
  | nodes => "nodes"

def ofName? (name : String) : Option CommandName :=
  all.find? (·.name = name)

end CommandName

def helpOption : OptionSpec := ⟨"help", some 'h', .help⟩

def commonOptions : List OptionSpec :=
  [⟨"config", some 'c', .path⟩, ⟨"log-level", none, .text⟩, helpOption]

def helpCommand : String := "help"

def programSpec : CommandSpec where
  options := commonOptions
  operand := none
  subcommands := CommandName.all.map CommandName.name ++ [helpCommand]

def CommandName.spec : CommandName → CommandSpec
  | .compile => ⟨[⟨"tree", none, .text⟩, ⟨"no-comments", none, .nothing⟩] ++ commonOptions,
      some "document", []⟩
  | .repair => ⟨[⟨"output", some 'o', .path⟩] ++ commonOptions, some "document", []⟩
  | .nodes => ⟨⟨"search", none, .text⟩ :: commonOptions, none, []⟩

/-- What the help command shows: help on the program, or on the command that it names. -/
def helpFor : List String → UsageError
  | [] => .displayHelp
  | [name] => if name ∈ programSpec.subcommands then .displayHelp else .invalidSubcommand
  | _ => .invalidSubcommand

def CommandName.read (name : CommandName) (words : List String) :
    Except UsageError (List (String × String)) := do
  let spec := name.spec
  let read ← Reading.takeWords spec .start words
  let given := (← read.reading.resolve).given
  match spec.operand with
  | some operand =>
    if (given.lookup operand).isSome then return given else .error .missingRequiredArgument
  | none => return given

def CommandName.command (name : CommandName) (given : List (String × String)) : Command :=
  match name with
  | .compile => .compile ((given.lookup "document").getD "") (given.lookup "tree")
      (given.lookup "no-comments").isNone
  | .repair => .repair ((given.lookup "document").getD "") (given.lookup "output")
  | .nodes => .nodes (given.lookup "search")

/-- Reads a command line. An option that stands both before and after the name of the command has
the value after it. -/
def Arguments.ofWords (words : List String) : Except UsageError Arguments := do
  let read ← Reading.takeWords programSpec .start words
  match read.subcommand with
  | none =>
    let given := (← read.reading.resolve).given
    .error (if given.isEmpty then .displayHelpOnMissingArgumentOrSubcommand else .missingSubcommand)
  | some (word, rest) =>
    match CommandName.ofName? word with
    | none => .error (helpFor rest)
    | some name =>
      let inner ← name.read rest
      let outer := (← read.reading.resolve).given
      let common (option : String) := (inner.lookup option).or (outer.lookup option)
      return {
        config := common "config"
        logLevel := common "log-level"
        command := name.command inner }

end FrameGraph.CommandLine
