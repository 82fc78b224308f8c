import FrameGraph.Dictionary
import FrameGraph.Value.Literal

/-!
Nodes and their sockets. A socket that is appended gets an identifier that no other socket of its
side has.
-/

namespace FrameGraph

/-- A socket: its display name, the identifier that code uses for it, and what it holds while it is
not linked. -/
structure Socket where
  name : String
  identifier : String
  type : SocketType
  value : Value
deriving DecidableEq

abbrev Properties := Dictionary Value

/-- A node of a tree. An empty identifier means that the node still needs one. -/
structure Node where
  identifier : String
  kind : String
  label : Option String
  inputs : List Socket
  outputs : List Socket
  properties : Properties
  inInvalidNetwork : Bool
deriving DecidableEq

inductive Side
  | input
  | output
deriving DecidableEq, Repr

namespace Socket

def ofType (type : SocketType) (name identifier : String) : Socket :=
  ⟨name, identifier, type, type.defaultValue⟩

/-- The literal that stands for the socket while it is not linked, and the module it needs. An
unset mesh is a new one. -/
def literal (socket : Socket) : String × Option String :=
  if socket.type = .mesh && socket.value = .none then ("bmesh.new()", some "bmesh")
  else (socket.value.literal, socket.value.requiredModule?)

def ordinal (n : Nat) : String :=
  let digits := (toString n).toList
  String.ofList (List.replicate (3 - digits.length) '0' ++ digits)

/-- The first of `identifier_00n`, `identifier_00(n+1)`, … that is not among `taken`. -/
def freeNumbered (taken : List String) (identifier : String) : Nat → Nat → String
  | 0, n => identifier ++ "_" ++ ordinal n
  | fuel + 1, n =>
    let candidate := identifier ++ "_" ++ ordinal n
    if candidate ∈ taken then freeNumbered taken identifier fuel (n + 1) else candidate

/-- The identifier itself if no socket has it, else the first free numbered one. There are more
candidates than sockets. -/
def freeIdentifier (sockets : List Socket) (identifier : String) : String :=
  let taken := sockets.map (·.identifier)
  if identifier ∈ taken then freeNumbered taken identifier sockets.length 1 else identifier

def find? (sockets : List Socket) (identifier : String) : Option Socket :=
  sockets.find? (·.identifier = identifier)

end Socket

namespace Node

def ofKind (identifier kind : String) : Node where
  identifier
  kind
  label := none
  inputs := []
  outputs := []
  properties := .empty
  inInvalidNetwork := false

def sockets (node : Node) : Side → List Socket
  | .input => node.inputs
  | .output => node.outputs

def setSockets (node : Node) (side : Side) (sockets : List Socket) : Node :=
  match side with
  | .input => { node with inputs := sockets }
  | .output => { node with outputs := sockets }

@[simp] theorem sockets_setSockets (node : Node) (side : Side) (sockets : List Socket) :
    (node.setSockets side sockets).sockets side = sockets := by
  cases side <;> rfl

def input? (node : Node) (identifier : String) : Option Socket :=
  Socket.find? node.inputs identifier

def output? (node : Node) (identifier : String) : Option Socket :=
  Socket.find? node.outputs identifier

def hasInput (node : Node) (identifier : String) : Bool :=
  node.inputs.any (·.identifier = identifier)

def hasOutput (node : Node) (identifier : String) : Bool :=
  node.outputs.any (·.identifier = identifier)

/-- Appends a socket; its identifier is made free on its side. -/
def addSocket (node : Node) (side : Side) (socket : Socket) : Node :=
  let sockets := node.sockets side
  let identifier := Socket.freeIdentifier sockets socket.identifier
  node.setSockets side (sockets ++ [{ socket with identifier }])

def addInput (node : Node) (socket : Socket) : Node :=
  node.addSocket .input socket

def addOutput (node : Node) (socket : Socket) : Node :=
  node.addSocket .output socket

def nextIdentifier (node : Node) (side : Side) (identifier : String) : String :=
  Socket.freeIdentifier (node.sockets side) identifier

def clearSockets (node : Node) : Node :=
  { node with inputs := [], outputs := [] }

def property? (node : Node) (name : String) : Option Value :=
  node.properties.get? name

def setProperty (node : Node) (name : String) (value : Value) : Node :=
  { node with properties := node.properties.insert name value }

def setFirstValue (identifier : String) (value : Value) : List Socket → List Socket
  | [] => []
  | socket :: rest =>
    if socket.identifier = identifier then { socket with value } :: rest
    else socket :: setFirstValue identifier value rest

def setInputValue (node : Node) (identifier : String) (value : Value) : Node :=
  { node with inputs := setFirstValue identifier value node.inputs }

def displayName (node : Node) : String :=
  node.label.getD node.kind

theorem hasInput_iff {node : Node} {identifier : String} :
    node.hasInput identifier = true ↔ identifier ∈ node.inputs.map (·.identifier) := by
  simp [hasInput]

theorem hasOutput_iff {node : Node} {identifier : String} :
    node.hasOutput identifier = true ↔ identifier ∈ node.outputs.map (·.identifier) := by
  simp [hasOutput]

theorem hasInput_eq_isSome (node : Node) (identifier : String) :
    node.hasInput identifier = (node.input? identifier).isSome := by
  simp [hasInput, input?, Socket.find?, List.isSome_find?]

end Node

end FrameGraph
