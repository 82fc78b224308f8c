import FrameGraph.Compile.Json
import FrameGraph.Toml.Reader

/-!
The configuration of the command line program. What a configuration file leaves out has a default,
and what it adds is passed over.
-/

namespace FrameGraph

structure Config where
  logLevel : String := "warn"
  compilation : CompileOptions := .default
deriving DecidableEq, Repr

namespace Toml

def text? : Toml → Option String
  | .string s => some s
  | _ => none

def boolean? : Toml → Option Bool
  | .boolean b => some b
  | _ => none

def natural? : Toml → Option Nat
  | .integer n => if 0 ≤ n then some n.toNat else none
  | _ => none

/-- The values of the named fields. A table gives them by name and an array in the order of the
names; a date or a time has none of them. -/
def fields? (names : List String) : Toml → Option (List (Option Toml))
  | .table _ entries => some (names.map fun name => entries.lookup name)
  | .array items => some ((List.range names.length).map fun i => items[i]?)
  | .tables items => some ((List.range names.length).map fun i => items[i]?.map (.table .header))
  | .moment _ => some (names.map fun _ => none)
  | _ => none

def field? {α : Type} (default : α) (read? : Toml → Option α) : Option Toml → Option α
  | none => some default
  | some value => read? value

end Toml

def CompileOptions.ofToml? (toml : Toml) : Option CompileOptions := do
  let [debugComments, checkTypes, functionName, indentWidth] ←
    toml.fields? ["debug_comments", "check_types", "function_name", "indent_width"] | none
  return {
    debugComments := ← Toml.field? default.debugComments Toml.boolean? debugComments
    checkTypes := ← Toml.field? default.checkTypes Toml.boolean? checkTypes
    functionName := ← Toml.field? default.functionName Toml.text? functionName
    indentWidth := ← Toml.field? default.indentWidth Toml.natural? indentWidth }

namespace Config

def ofEntries? (entries : TomlEntries) : Option Config := do
  return {
    logLevel := ← Toml.field? "warn" Toml.text? (entries.lookup "log_level")
    compilation :=
      ← Toml.field? .default CompileOptions.ofToml? (entries.lookup "compilation") }

def parse? (text : String) : Option Config := do
  ofEntries? (← Toml.parse? text)

def toJson (config : Config) : Json :=
  .ofMembers [("log_level", .ofString config.logLevel),
    ("compilation", config.compilation.toJson)]

end Config

end FrameGraph
