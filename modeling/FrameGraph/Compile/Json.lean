import FrameGraph.Compile
import FrameGraph.Document.Json

/-!
Compile options, procedures and statistics as JSON. Options that are missing take their defaults,
and unknown fields are passed over.
-/

namespace FrameGraph

namespace CompileOptions

/-- An unsigned number of 64 bits. -/
def width? : Json → Option Nat
  | .number n => n.toUInt64?.map UInt64.toNat
  | _ => none

def ofJson? (json : Json) : Option CompileOptions := do
  let [debugComments, checkTypes, functionName, indentWidth] ←
    json.fields? ["debug_comments", "check_types", "function_name", "indent_width"] | none
  return {
    debugComments := ← Json.optionalField? default.debugComments Json.boolean? debugComments
    checkTypes := ← Json.optionalField? default.checkTypes Json.boolean? checkTypes
    functionName := ← Json.optionalField? default.functionName Json.text? functionName
    indentWidth := ← Json.optionalField? default.indentWidth width? indentWidth }

def toJson (options : CompileOptions) : Json :=
  .ofMembers [("debug_comments", .boolean options.debugComments),
    ("check_types", .boolean options.checkTypes),
    ("function_name", .ofString options.functionName),
    ("indent_width", .number (.ofInt options.indentWidth))]

end CompileOptions

namespace Procedure

def toJson (procedure : Procedure) : Json :=
  let texts (items : List String) : Json := .array (items.map Json.ofString)
  .ofMembers [("tree", .ofString procedure.tree),
    ("function_name", .ofString procedure.functionName), ("modules", texts procedure.modules),
    ("setup", texts procedure.setup), ("body", texts procedure.body),
    ("indent_width", .number (.ofInt procedure.indentWidth)),
    ("source", .ofString procedure.source)]

end Procedure

namespace CompileStats

def toJson (stats : CompileStats) : Json :=
  let number (n : Nat) : Json := .number (.ofInt n)
  .ofMembers [("nodes", number stats.nodes), ("links", number stats.links),
    ("procedure_nodes", number stats.procedureNodes), ("raw_nodes", number stats.rawNodes),
    ("silent_nodes", number stats.silentNodes), ("lines", number stats.lines)]

end CompileStats

end FrameGraph
