/-!
The options of a compilation.
-/

namespace FrameGraph

structure CompileOptions where
  /-- Whether a comment names each node above its lines. -/
  debugComments : Bool := true
  /-- Whether links between incompatible sockets are reported. -/
  checkTypes : Bool := true
  functionName : String := "main"
  /-- The number of spaces before a line of the function. -/
  indentWidth : Nat := 4
deriving DecidableEq, Repr

namespace CompileOptions

def default : CompileOptions := {}

def production : CompileOptions := { debugComments := false }

end CompileOptions

end FrameGraph
