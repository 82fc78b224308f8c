import FrameGraph.Json.Reader
import FrameGraph.Json.Writer
import FrameGraph.Number.Shortest
import FrameGraph.Tree

/-!
Documents as JSON text. Structures are written as objects; a reader also takes an array of the
fields, and lets fields with a default be missing. Unknown fields are passed over.
-/

namespace FrameGraph

/-- JSON floats are written positionally from `0.00001` to below `1e16`; an exponent always has a
sign, and of two equally near decimals the even one is taken. -/
def jsonLayout : DecimalLayout where
  positionalFrom := -5
  positionalBelow := 16
  plusSign := true
  tie := .even

/-- A number; JSON has none for infinities and NaN. -/
def Binary64.toJson (x : Binary64) : Json :=
  if x.isFinite then .number (jsonLayout.ofBinary64 x) else .null

def nestingLimit : Nat := 127

namespace Json

/-- The entries under known keys; none if such a key stands twice or a key has no text. -/
def knownMembers? (known : List String) :
    List (Option String × Json) → Option (List (String × Json))
  | [] => some []
  | (none, _) :: _ => none
  | (some key, value) :: rest => do
    let others ← knownMembers? known rest
    if key ∈ known then
      if others.any (·.1 = key) then none else some ((key, value) :: others)
    else some others

/-- The values of the named fields, from an object or from an array in the order of the names, which
may end early. -/
def fields? (names : List String) : Json → Option (List (Option Json))
  | .object members => do
    let known ← knownMembers? names members
    return names.map fun name => known.lookup name
  | .array items =>
    if items.length ≤ names.length then
      some (items.map some ++ List.replicate (names.length - items.length) none)
    else none
  | _ => none

def boolean? : Json → Option Bool
  | .boolean b => some b
  | _ => none

def text? : Json → Option String
  | .string s => s
  | _ => none

def optionalText? : Json → Option (Option String)
  | .null => some none
  | .string s => s.map some
  | _ => none

def float? : Json → Option Binary64
  | .number n => n.toBinary64?
  | _ => none

def list? {α : Type} (item? : Json → Option α) : Json → Option (List α)
  | .array items => items.mapM item?
  | _ => none

def optionalField? {α : Type} (default : α) (read? : Json → Option α) :
    Option Json → Option α
  | none => some default
  | some json => read? json

end Json

namespace Value

mutual

def toJson : Value → Json
  | .none => .ofString "None"
  | .float x => .ofMembers [("Float", x.toJson)]
  | .integer n => .ofMembers [("Integer", .number (.ofInt n.toInt))]
  | .boolean b => .ofMembers [("Boolean", .boolean b)]
  | .string s => .ofMembers [("String", .ofString s)]
  | .vector x y z => .ofMembers [("Vector", .array [x.toJson, y.toJson, z.toJson])]
  | .euler x y z => .ofMembers [("Euler", .array [x.toJson, y.toJson, z.toJson])]
  | .quaternion w x y z =>
    .ofMembers [("Quaternion", .array [w.toJson, x.toJson, y.toJson, z.toJson])]
  | .color r g b a => .ofMembers [("Color", .array [r.toJson, g.toJson, b.toJson, a.toJson])]
  | .list items => .ofMembers [("List", .array (listToJson items))]

def listToJson : List Value → List Json
  | [] => []
  | item :: items => item.toJson :: listToJson items

end

/-- Reads a value in which at most the given number of arrays and objects is open at once. -/
def ofJson? : Nat → Json → Option Value
  | _, .string (some "None") => some .none
  | _ + 1, .object [(some "None", .null)] => some .none
  | _ + 1, .object [(some "Float", x)] => x.float?.map .float
  | _ + 1, .object [(some "Integer", .number n)] => n.toInt64?.map .integer
  | _ + 1, .object [(some "Boolean", .boolean b)] => some (.boolean b)
  | _ + 1, .object [(some "String", .string (some s))] => some (.string s)
  | _ + 2, .object [(some "Vector", .array [x, y, z])] => do
    return .vector (← x.float?) (← y.float?) (← z.float?)
  | _ + 2, .object [(some "Euler", .array [x, y, z])] => do
    return .euler (← x.float?) (← y.float?) (← z.float?)
  | _ + 2, .object [(some "Quaternion", .array [w, x, y, z])] => do
    return .quaternion (← w.float?) (← x.float?) (← y.float?) (← z.float?)
  | _ + 2, .object [(some "Color", .array [r, g, b, a])] => do
    return .color (← r.float?) (← g.float?) (← b.float?) (← a.float?)
  | depth + 2, .object [(some "List", .array items)] => (items.mapM (ofJson? depth)).map .list
  | _, _ => Option.none

end Value

namespace SocketType

def toJson (t : SocketType) : Json :=
  .ofString t.name

def ofJson? : Json → Option SocketType
  | .string (some name) => ofName? name
  | .object [(some name, .null)] => ofName? name
  | _ => none

end SocketType

namespace Socket

def toJson (socket : Socket) : Json :=
  .ofMembers [("name", .ofString socket.name), ("identifier", .ofString socket.identifier),
    ("socket_type", socket.type.toJson), ("value", socket.value.toJson)]

/-- Six arrays and objects are open around a socket, and the socket itself is one. -/
def ofJson? (json : Json) : Option Socket := do
  let [name, identifier, type, value] ←
    json.fields? ["name", "identifier", "socket_type", "value"] | none
  return {
    name := ← name.bind Json.text?
    identifier := ← identifier.bind Json.text?
    type := ← type.bind SocketType.ofJson?
    value := ← Json.optionalField? .none (Value.ofJson? (nestingLimit - 7)) value }

end Socket

def propertiesToJson (properties : Properties) : Json :=
  .ofMembers (properties.entries.map fun property => (property.1, property.2.toJson))

/-- Five arrays and objects are open around the properties, which are one themselves. Of several
properties of one name the last is kept. -/
def propertiesOfJson? : Json → Option Properties
  | .object members => do
    let pairs ← members.mapM fun (key, value) => do
      return (← key, ← Value.ofJson? (nestingLimit - 6) value)
    return Dictionary.ofList pairs
  | _ => none

namespace Node

def toJson (node : Node) : Json :=
  .ofMembers [("identifier", .ofString node.identifier), ("kind", .ofString node.kind),
    ("label", (node.label.map Json.ofString).getD .null),
    ("inputs", .array (node.inputs.map Socket.toJson)),
    ("outputs", .array (node.outputs.map Socket.toJson)),
    ("properties", propertiesToJson node.properties),
    ("in_invalid_network", .boolean node.inInvalidNetwork)]

def ofJson? (json : Json) : Option Node := do
  let [identifier, kind, label, inputs, outputs, properties, inInvalidNetwork] ←
    json.fields? ["identifier", "kind", "label", "inputs", "outputs", "properties",
      "in_invalid_network"] | none
  return {
    identifier := ← Json.optionalField? "" Json.text? identifier
    kind := ← kind.bind Json.text?
    label := ← Json.optionalField? none Json.optionalText? label
    inputs := ← Json.optionalField? [] (Json.list? Socket.ofJson?) inputs
    outputs := ← Json.optionalField? [] (Json.list? Socket.ofJson?) outputs
    properties := ← Json.optionalField? .empty propertiesOfJson? properties
    inInvalidNetwork := ← Json.optionalField? false Json.boolean? inInvalidNetwork }

end Node

namespace Link

def toJson (link : Link) : Json :=
  .ofMembers [("from_node", .ofString link.fromNode), ("from_socket", .ofString link.fromSocket),
    ("to_node", .ofString link.toNode), ("to_socket", .ofString link.toSocket)]

def ofJson? (json : Json) : Option Link := do
  let [fromNode, fromSocket, toNode, toSocket] ←
    json.fields? ["from_node", "from_socket", "to_node", "to_socket"] | none
  return {
    fromNode := ← fromNode.bind Json.text?
    fromSocket := ← fromSocket.bind Json.text?
    toNode := ← toNode.bind Json.text?
    toSocket := ← toSocket.bind Json.text? }

end Link

namespace TreeMetadata

def toJson (metadata : TreeMetadata) : Json :=
  .ofMembers [("description", .ofString metadata.description),
    ("created_at", .ofString metadata.createdAt), ("modified_at", .ofString metadata.modifiedAt)]

def ofJson? (json : Json) : Option TreeMetadata := do
  let [description, createdAt, modifiedAt] ←
    json.fields? ["description", "created_at", "modified_at"] | none
  return {
    description := ← Json.optionalField? "" Json.text? description
    createdAt := ← createdAt.bind Json.text?
    modifiedAt := ← modifiedAt.bind Json.text? }

end TreeMetadata

namespace Tree

/-- The revision is not written. -/
def toJson (tree : Tree) : Json :=
  .ofMembers [("name", .ofString tree.name), ("nodes", .array (tree.nodes.map Node.toJson)),
    ("links", .array (tree.links.map Link.toJson)), ("metadata", tree.metadata.toJson)]

def ofJson? (revision : Nat) (json : Json) : Option Tree := do
  let [name, nodes, links, metadata] ← json.fields? ["name", "nodes", "links", "metadata"] | none
  return {
    name := ← name.bind Json.text?
    nodes := ← nodes.bind (Json.list? Node.ofJson?)
    links := ← links.bind (Json.list? Link.ofJson?)
    metadata := ← metadata.bind TreeMetadata.ofJson?
    revision }

end Tree

namespace Document

def toJson (document : Document) : Json :=
  .ofMembers [("trees", .array (document.trees.map Tree.toJson))]

def ofJson? (revision : Nat) (json : Json) : Option Document := do
  let [trees] ← json.fields? ["trees"] | none
  match trees with
  | some (.array items) =>
    return ⟨← items.zipIdx.mapM fun (item, i) => Tree.ofJson? (revision + i) item⟩
  | _ => none

def text (document : Document) : String :=
  document.toJson.pretty

/-- Reads a stored document; its trees get consecutive revisions. -/
def parse? (revision : Nat) (text : String) : Option Document :=
  (Json.parse? text).bind (ofJson? revision)

end Document

end FrameGraph
