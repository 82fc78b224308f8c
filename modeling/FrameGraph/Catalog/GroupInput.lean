import FrameGraph.Kind

/-!
The entry node of a subprogram. Its outputs are the parameters, and after them an empty socket whose
links become parameters.
-/

namespace FrameGraph.Catalog

namespace GroupInput

def newParameterSocket : String := "newParameter"

def keepNewParameterLast (node : Node) : Node :=
  match Socket.find? node.outputs newParameterSocket with
  | some socket =>
    { node with
      outputs := node.outputs.eraseP (·.identifier = newParameterSocket) ++ [socket] }
  | none => node

def parameters (node : Node) : List Socket :=
  node.outputs.filter (·.identifier ≠ newParameterSocket)

def nextParameter (node : Node) : String :=
  node.nextIdentifier .output "parameter"

def addParameter (node : Node) (type : SocketType) (name : String) (value : Value) : Node :=
  keepNewParameterLast (node.addOutput ⟨name, "parameter", type, value⟩)

/-- Reads a parameter from the caller of the subprogram, with the value of the socket as default. -/
def parameterLine (socket : Socket) : String :=
  socket.identifier ++ " = self.parameters.get(\"" ++ socket.identifier ++ "\", " ++
    socket.literal.1 ++ ")"

end GroupInput

def groupInput : Kind where
  declaration :=
    { Declaration.named "an_GroupInput" "Group Input" with
      category := "System"
      searchTags := ["Subprogram"] }
  create node :=
    (node.setProperty "subprogramName" (.string "Group")).addOutput
      (.ofType .empty "New Parameter" GroupInput.newParameterSocket)
  code node context :=
    .raw (.lines (((GroupInput.parameters node).filter fun socket =>
      context.isOutputLinked socket.identifier).map GroupInput.parameterLine))
  usedModules node := (GroupInput.parameters node).filterMap fun socket => socket.literal.2
  socketChanged := GroupInput.keepNewParameterLast

end FrameGraph.Catalog
