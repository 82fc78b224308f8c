/-!
The phases of a compilation, as they are named to the user.
-/

namespace FrameGraph

inductive CompilePhase
  | validation
  | dataFlow
  | typing
  | assembly
  | linking
  | complete
deriving DecidableEq, Repr

namespace CompilePhase

def all : List CompilePhase := [validation, dataFlow, typing, assembly, linking, complete]

def name : CompilePhase → String
  | validation => "Validation"
  | dataFlow => "Data Flow Analysis"
  | typing => "Type Checking"
  | assembly => "Code Assembly"
  | linking => "Linking"
  | complete => "Complete"

def description : CompilePhase → String
  | validation => "Checking links, sockets and node kinds"
  | dataFlow => "Building data dependency graph and execution order"
  | typing => "Checking socket types of links"
  | assembly => "Tagging the code of every node"
  | linking => "Resolving names into one frame procedure"
  | complete => "Compilation completed successfully"

end CompilePhase

end FrameGraph
