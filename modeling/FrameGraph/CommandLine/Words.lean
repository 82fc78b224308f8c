/-!
Command lines as words: options with long and short names, operands, and the subcommand. Words are
taken from the left, and the first fault decides. A value is looked at only when the next word that
belongs to the command has come, so a fault in that word may come first.
-/

namespace FrameGraph.CommandLine

inductive UsageError
  | unknownArgument
  | invalidSubcommand
  | missingSubcommand
  | missingRequiredArgument
  /-- An option that stands once at most is repeated. -/
  | argumentConflict
  /-- A value is missing, or is empty where it must not be. -/
  | invalidValue
  /-- A value is given to an option that takes none. -/
  | tooManyValues
  | displayHelp
  /-- Nothing is asked for, so help is shown. -/
  | displayHelpOnMissingArgumentOrSubcommand
deriving DecidableEq, Repr

inductive ValueKind
  | nothing
  | text
  /-- A text that is not empty. -/
  | path
  /-- The option asks for help. -/
  | help
deriving DecidableEq, Repr

structure OptionSpec where
  long : String
  short : Option Char
  kind : ValueKind
deriving DecidableEq, Repr

structure CommandSpec where
  options : List OptionSpec
  /-- The name of the operand, which must be given and is a path. -/
  operand : Option String
  subcommands : List String
deriving DecidableEq, Repr

/-- An argument whose value has been read but not looked at yet. -/
structure Pending where
  name : String
  kind : ValueKind
  value : Option String
deriving DecidableEq, Repr

structure Reading where
  /-- The arguments given so far; one that takes nothing has an empty value. -/
  given : List (String × String)
  pending : Option Pending
  /-- The pending option is still without its value. -/
  awaiting : Bool
  /-- A double hyphen has come, so only operands follow. -/
  onlyOperands : Bool
  hasOperand : Bool
deriving DecidableEq, Repr

/-- The command line after its last word, or up to the name of a subcommand, with the words that
follow that name. -/
structure ReadWords where
  reading : Reading
  subcommand : Option (String × List String)
deriving DecidableEq, Repr

namespace CommandSpec

def long? (spec : CommandSpec) (name : String) : Option OptionSpec :=
  spec.options.find? (·.long = name)

def short? (spec : CommandSpec) (c : Char) : Option OptionSpec :=
  spec.options.find? (·.short = some c)

end CommandSpec

namespace Reading

def start : Reading where
  given := []
  pending := none
  awaiting := false
  onlyOperands := false
  hasOperand := false

def resolve (r : Reading) : Except UsageError Reading :=
  match r.pending with
  | none => .ok r
  | some p =>
    match p.value with
    | none => .error .invalidValue
    | some value =>
      if (r.given.lookup p.name).isSome then .error .argumentConflict
      else if p.kind = .path && value.isEmpty then .error .invalidValue
      else .ok { r with given := r.given ++ [(p.name, value)], pending := none, awaiting := false }

def take (r : Reading) (name : String) (kind : ValueKind) (value : String) :
    Except UsageError Reading := do
  let r ← r.resolve
  { r with pending := some ⟨name, kind, some value⟩ }.resolve

def takeOption (r : Reading) (option : OptionSpec) : Except UsageError Reading := do
  match option.kind with
  | .help =>
    let _ ← r.resolve
    .error .displayHelp
  | .nothing => r.take option.long option.kind ""
  | .text | .path =>
    return { ← r.resolve with
      pending := some ⟨option.long, option.kind, none⟩
      awaiting := true }

def takeAttached (r : Reading) (option : OptionSpec) (value : String) :
    Except UsageError Reading :=
  match option.kind with
  | .help | .nothing => .error .tooManyValues
  | .text | .path => r.take option.long option.kind value

/-- Takes what follows a double hyphen: a name, and a value after the first equals sign. -/
def takeLong (r : Reading) (spec : CommandSpec) (word : List Char) : Except UsageError Reading :=
  let name := String.ofList (word.takeWhile (· != '='))
  match spec.long? name with
  | none => .error .unknownArgument
  | some option =>
    match word.dropWhile (· != '=') with
    | [] => r.takeOption option
    | _ :: value => r.takeAttached option (String.ofList value)

/-- Takes short options that follow a single hyphen. What follows an option with a value is the
value, perhaps after an equals sign. -/
def takeShort (r : Reading) (spec : CommandSpec) : List Char → Except UsageError Reading
  | [] => .ok r
  | c :: rest =>
    match spec.short? c with
    | none => .error .unknownArgument
    | some option =>
      match option.kind, rest with
      | .help, _ | .nothing, _ => do takeShort (← r.takeOption option) spec rest
      | .text, [] | .path, [] => r.takeOption option
      | .text, '=' :: value | .path, '=' :: value => r.takeAttached option (String.ofList value)
      | .text, value | .path, value => r.takeAttached option (String.ofList value)

def takeOperand (r : Reading) (spec : CommandSpec) (word : String) : Except UsageError Reading := do
  match spec.operand with
  | some name =>
    if r.hasOperand then .error .unknownArgument
    else
      return { ← r.resolve with
        pending := some ⟨name, .path, some word⟩
        hasOperand := true }
  | none =>
    if spec.subcommands.isEmpty || (r.onlyOperands && word ∈ spec.subcommands) then
      .error .unknownArgument
    else .error .invalidSubcommand

def takeWord (r : Reading) (spec : CommandSpec) (word : String) : Except UsageError Reading :=
  if r.onlyOperands then r.takeOperand spec word
  else
    match word.toList with
    | ['-', '-'] => .ok { r with onlyOperands := true, awaiting := false }
    | '-' :: '-' :: rest => r.takeLong spec rest
    | '-' :: c :: rest => r.takeShort spec (c :: rest)
    | _ =>
      if r.awaiting then
        .ok { r with
          pending := r.pending.map fun p => { p with value := some word }
          awaiting := false }
      else r.takeOperand spec word

/-- Takes words up to the name of a subcommand. The word after an option that takes a value is no
such name. -/
def takeWords (spec : CommandSpec) : Reading → List String → Except UsageError ReadWords
  | r, [] => .ok ⟨r, none⟩
  | r, word :: rest =>
    if !r.onlyOperands && !r.awaiting && word ∈ spec.subcommands then
      .ok ⟨r, some (word, rest)⟩
    else do takeWords spec (← r.takeWord spec word) rest

end Reading

end FrameGraph.CommandLine
