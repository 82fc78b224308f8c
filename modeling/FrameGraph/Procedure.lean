import FrameGraph.Code.Imports
import FrameGraph.Text.Blank

/-!
The compiled code of a tree, and its source text.
-/

namespace FrameGraph

structure Procedure where
  tree : String
  functionName : String
  modules : List String
  /-- Lines that bind the node variables. -/
  setup : List String
  body : List String
  indentWidth : Nat
deriving DecidableEq, Repr

namespace Procedure

/-- The argument through which the host passes the nodes. -/
def nodesArgument : String := "nodes"

def lines (procedure : Procedure) : List String :=
  procedure.setup ++ procedure.body

def indent (procedure : Procedure) : String :=
  String.ofList (List.replicate procedure.indentWidth ' ')

/-- A line of the function as it stands in the source; a blank line is left empty. -/
def sourceLine (procedure : Procedure) (line : String) : String :=
  if Text.isBlank line then "" else procedure.indent ++ line

/-- The lines below the head of the function; `pass` if it has none. -/
def blockLines (procedure : Procedure) : List String :=
  if procedure.lines.isEmpty then [procedure.indent ++ "pass"]
  else procedure.lines.map procedure.sourceLine

def importLines (procedure : Procedure) : List String :=
  if procedure.modules.isEmpty then []
  else procedure.modules.map Imports.importLine ++ [""]

def headLine (procedure : Procedure) : String :=
  "def " ++ procedure.functionName ++ "(" ++ nodesArgument ++ "):"

def sourceLines (procedure : Procedure) : List String :=
  procedure.importLines ++ [procedure.headLine] ++ procedure.blockLines

/-- The source text, every line ended by a newline. -/
def source (procedure : Procedure) : String :=
  String.join (procedure.sourceLines.map (· ++ "\n"))

end Procedure

end FrameGraph
