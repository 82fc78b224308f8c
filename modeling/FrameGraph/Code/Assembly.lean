import FrameGraph.Code.Fragment
import FrameGraph.Kind

/-!
Turning what a node contributes into lines of tokens. Only the node itself is looked at; what its
names stand for is decided when the lines are linked.
-/

namespace FrameGraph.Assembly

def selfName : String := "self"

def commaSeparated (tokens : List Token) : List Token :=
  tokens.intersperse (.text ", ")

/-- The call of the node's own procedure on all inputs, unpacked into all outputs. -/
def procedureCall (node : Node) : Fragment :=
  let outputs := commaSeparated (node.outputs.map fun socket => .output socket.identifier)
  let inputs := commaSeparated (node.inputs.map fun socket => .input socket.identifier)
  let equals := if node.outputs.isEmpty then [] else [.text " = "]
  .ofTokens (outputs ++ equals ++ [.self, .text ".execute("] ++ inputs ++ [.text ")"])

/-- The token of a free-standing name: an input first, then an output, then the node itself. -/
def tokenOf (node : Node) (name : String) : Token :=
  if node.hasInput name then .input name
  else if node.hasOutput name then .output name
  else if name = selfName then .self
  else .text name

def tokens (node : Node) (code : String) : List Token :=
  Lexeme.mapNames (tokenOf node) Token.text false (Lexeme.lex code)

def rawLines (node : Node) (code : RawCode) : List Fragment :=
  if code.isEmpty then [] else (Fragment.ofTokens (tokens node code.joined)).splitLines

def assemble (node : Node) : Contribution → List Fragment
  | .procedure => [procedureCall node]
  | .raw code => rawLines node code

def markedLines (node : Node) (contribution : Contribution) : List String :=
  (assemble node contribution).map Fragment.marked

end FrameGraph.Assembly
