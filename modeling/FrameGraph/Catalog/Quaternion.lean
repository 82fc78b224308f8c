import FrameGraph.Kind

/-!
Quaternion arithmetic with a selectable operation, which decides on the inputs of the node. Main
statement: an operation is found under its own name.
-/

namespace FrameGraph.Catalog

inductive QuaternionOperation
  | add
  | subtract
  | combine
  | rotationDifference
  | multiply
  | divide
  | cross
  | normalize
  | scale
  | absolute
  | invert
  | conjugate
  | snap
deriving DecidableEq, Repr

namespace QuaternionOperation

def all : List QuaternionOperation :=
  [add, subtract, combine, rotationDifference, multiply, divide, cross, normalize, scale, absolute,
    invert, conjugate, snap]

theorem mem_all (operation : QuaternionOperation) : operation ∈ all := by
  cases operation <;> decide

def id : QuaternionOperation → String
  | add => "ADD"
  | subtract => "SUBTRACT"
  | combine => "COMBINE"
  | rotationDifference => "ROTATION_DIFFERENCE"
  | multiply => "MULTIPLY"
  | divide => "DIVIDE"
  | cross => "CROSS"
  | normalize => "NORMALIZE"
  | scale => "SCALE"
  | absolute => "ABSOLUTE"
  | invert => "INVERT"
  | conjugate => "CONJUGATE"
  | snap => "SNAP"

def ofId? (name : String) : Option QuaternionOperation :=
  all.find? (·.id = name)

theorem ofId?_id (operation : QuaternionOperation) : ofId? operation.id = some operation := by
  cases operation <;> decide

def name : QuaternionOperation → String
  | add => "Add"
  | subtract => "Subtract"
  | combine => "Combine"
  | rotationDifference => "RotationDifference"
  | multiply => "Multiply"
  | divide => "Divide"
  | cross => "Cross"
  | normalize => "Normalize"
  | scale => "Scale"
  | absolute => "Absolute"
  | invert => "Invert"
  | conjugate => "Conjugate"
  | snap => "Snap"

def label : QuaternionOperation → String
  | add => "A + B"
  | subtract => "A - B"
  | combine => "Combine Rotations"
  | rotationDifference => "Rotation Difference"
  | multiply => "A * B"
  | divide => "A / B"
  | cross => "A cross B"
  | normalize => "A normalize"
  | scale => "A * scale"
  | absolute => "abs A"
  | invert => "- A"
  | conjugate => "- xyz (A)"
  | snap => "snap A"

def usesSecond : QuaternionOperation → Bool
  | add | subtract | combine | rotationDifference | multiply | divide | cross => true
  | _ => false

def usesScale : QuaternionOperation → Bool
  | normalize | scale => true
  | _ => false

def code : QuaternionOperation → RawCode
  | add => .single "result = a + b"
  | subtract => .single "result = a - b"
  | combine => .single "result = a * b"
  | rotationDifference => .single "result = a.rotation_difference(b)"
  | multiply => .single "result = mathutils.Quaternion((A * B for A, B in zip(a, b)))"
  | divide => .lines
      ["result = mathutils.Quaternion((1, 0, 0, 0))",
        "if b[0] != 0: result[0] = a[0] / b[0]",
        "if b[1] != 0: result[1] = a[1] / b[1]",
        "if b[2] != 0: result[2] = a[2] / b[2]",
        "if b[3] != 0: result[3] = a[3] / b[3]"]
  | cross => .single "result = a.cross(b)"
  | normalize => .single "result = a.normalized() * scale"
  | scale => .single "result = a * scale"
  | absolute => .single "result = mathutils.Quaternion((abs(A) for A in a))"
  | invert => .single "result = a.inverted()"
  | conjugate => .single "result = a.conjugated()"
  | snap => .lines
      ["result = a.copy()",
        "if stepSize[0] != 0: result[0] = round(a[0] / stepSize[0]) * stepSize[0]",
        "if stepSize[1] != 0: result[1] = round(a[1] / stepSize[1]) * stepSize[1]",
        "if stepSize[2] != 0: result[2] = round(a[2] / stepSize[2]) * stepSize[2]",
        "if stepSize[3] != 0: result[3] = round(a[3] / stepSize[3]) * stepSize[3]"]

def tenth : Binary64 := .ofRatio false 1 10

def inputs (operation : QuaternionOperation) : List Socket :=
  [.ofType .quaternion "A" "a"] ++
  (if operation.usesSecond then [.ofType .quaternion "B" "b"] else []) ++
  (if operation.usesScale then [⟨"Scale", "scale", .float, .float (.ofNat 1)⟩] else []) ++
  (if operation = snap then
    [⟨"Step Size", "stepSize", .quaternion, .quaternion tenth tenth tenth tenth⟩]
  else [])

end QuaternionOperation

def operationProperty : String := "operation"

/-- The operation of a node; addition if the property names none. -/
def quaternionOperation (node : Node) : QuaternionOperation :=
  (((node.property? operationProperty).bind Value.asString?).bind QuaternionOperation.ofId?).getD
    .add

/-- The socket with the value of the first of `previous` that has its identifier and type. -/
def keepValue (previous : List Socket) (socket : Socket) : Socket :=
  match previous.find? fun s => s.identifier = socket.identifier && s.type = socket.type with
  | some kept => { socket with value := kept.value }
  | none => socket

/-- Declares the inputs of the current operation. An input that stays keeps its value, and its
links, because links go by identifier. -/
def rebuildInputs (node : Node) : Node :=
  ((quaternionOperation node).inputs.map (keepValue node.inputs)).foldl Node.addInput
    { node with inputs := [] }

def quaternionMath : Kind where
  declaration :=
    { Declaration.named "an_QuaternionMathNode" "Quaternion Math" with category := "Rotation" }
  create node :=
    let node := node.setProperty operationProperty (.string QuaternionOperation.add.id)
    (rebuildInputs node).addOutput (.ofType .quaternion "Result" "result")
  code node _ := .raw (quaternionOperation node).code
  usedModules _ := ["mathutils"]
  propertyChanged node property :=
    if property = operationProperty then rebuildInputs node else node

end FrameGraph.Catalog
