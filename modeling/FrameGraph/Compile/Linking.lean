import FrameGraph.Code.Assembly
import FrameGraph.Compile.Options
import FrameGraph.DataFlow
import FrameGraph.Procedure
import FrameGraph.Variables

/-!
Joining the lines of all nodes into one procedure: every token is replaced by the text that it
stands for.
-/

namespace FrameGraph

structure AssembledNode where
  node : Node
  label : String
  lines : List Fragment
  modules : List String
deriving DecidableEq

/-- What one node adds to a procedure; modules in the order in which they are requested. -/
structure LinkedNode where
  modules : List String
  setup : List String
  body : List String
deriving DecidableEq, Repr

namespace Linking

def nodeVariable (names : Variables) (node : Node) : String :=
  (names.node? node.identifier).getD node.identifier

/-- The text of an input and the module it needs. An input that does not exist stays as its name, so
that the mistake shows when the procedure runs. -/
def inputText (tree : Tree) (names : Variables) (node : Node) (name : String) :
    String × Option String :=
  match tree.inputSource? node.identifier name with
  | some (.output source socket) => ((names.output? source socket).getD name, none)
  | some (.literal text module) => (text, module)
  | none => (name, none)

def tokenText (tree : Tree) (names : Variables) (node : Node) : Token → String
  | .text s => s
  | .self => nodeVariable names node
  | .input name => (inputText tree names node name).1
  | .output name => (names.output? node.identifier name).getD name

def tokenModule? (tree : Tree) (names : Variables) (node : Node) : Token → Option String
  | .input name => (inputText tree names node name).2
  | _ => none

def lineText (tree : Tree) (names : Variables) (node : Node) (line : Fragment) : String :=
  String.join (line.tokens.map (tokenText tree names node))

def setupLine (names : Variables) (node : Node) : String :=
  nodeVariable names node ++ " = " ++ Procedure.nodesArgument ++ "[\"" ++ node.identifier ++ "\"]"

def commentLine (assembled : AssembledNode) : String :=
  "# " ++ assembled.node.label.getD assembled.label ++ " (" ++ assembled.node.identifier ++ ")"

/-- A node without lines still requests its modules. -/
def linkNode (tree : Tree) (names : Variables) (options : CompileOptions)
    (assembled : AssembledNode) : LinkedNode :=
  let node := assembled.node
  let lines := assembled.lines
  if lines.isEmpty then ⟨assembled.modules, [], []⟩
  else
    let tokens := lines.flatMap (·.tokens)
    ⟨assembled.modules ++ tokens.filterMap (tokenModule? tree names node),
      if lines.any (·.usesSelf) then [setupLine names node] else [],
      (if options.debugComments then [commentLine assembled] else []) ++
        lines.map (lineText tree names node)⟩

def link (tree : Tree) (options : CompileOptions) (assembled : List AssembledNode) : Procedure :=
  let names := Variables.ofTree tree
  let linked := assembled.map (linkNode tree names options)
  { tree := tree.name
    functionName := options.functionName
    modules := Imports.modules (linked.flatMap (·.modules))
    setup := linked.flatMap (·.setup)
    body := linked.flatMap (·.body)
    indentWidth := options.indentWidth }

end Linking

end FrameGraph
