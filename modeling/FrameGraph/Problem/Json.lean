import FrameGraph.Document.Json
import FrameGraph.Problem.List

/-!
Problems as JSON: an object with the name of the problem over its fields.
-/

namespace FrameGraph

namespace Problem

private def named (name : String) (fields : List (String × Json)) : Json :=
  .ofMembers [(name, .ofMembers fields)]

def toJson : Problem → Json
  | unknownNodeKind node kind =>
    named "UnknownNodeKind" [("node", .ofString node), ("kind", .ofString kind)]
  | duplicateIdentifier node count =>
    named "DuplicateIdentifier" [("node", .ofString node), ("count", .number (.ofInt count))]
  | missingIdentifier kind => named "MissingIdentifier" [("kind", .ofString kind)]
  | missingNode node => named "MissingNode" [("node", .ofString node)]
  | missingSocket node socket =>
    named "MissingSocket" [("node", .ofString node), ("socket", .ofString socket)]
  | multipleInputLinks node socket count =>
    named "MultipleInputLinks" [("node", .ofString node), ("socket", .ofString socket),
      ("count", .number (.ofInt count))]
  | cycle nodes => named "Cycle" [("nodes", .array (nodes.map .ofString))]
  | typeMismatch fromNode fromSocket toNode toSocket fromType toType =>
    named "TypeMismatch" [("from_node", .ofString fromNode), ("from_socket", .ofString fromSocket),
      ("to_node", .ofString toNode), ("to_socket", .ofString toSocket),
      ("from_type", .ofString fromType), ("to_type", .ofString toType)]
  | executionFailed message => named "ExecutionFailed" [("message", .ofString message)]

private def count? : Json → Option Nat
  | .number n => n.toUInt64?.map UInt64.toNat
  | _ => none

private def texts? (names : List String) (json : Json) : Option (List String) := do
  (← json.fields? names).mapM fun value => value.bind Json.text?

def ofJson? : Json → Option Problem
  | .object [(some name, fields)] =>
    match name with
    | "UnknownNodeKind" => do
      let [node, kind] ← texts? ["node", "kind"] fields | none
      return unknownNodeKind node kind
    | "DuplicateIdentifier" => do
      let [node, count] ← fields.fields? ["node", "count"] | none
      return duplicateIdentifier (← node.bind Json.text?) (← count.bind count?)
    | "MissingIdentifier" => do
      let [kind] ← texts? ["kind"] fields | none
      return missingIdentifier kind
    | "MissingNode" => do
      let [node] ← texts? ["node"] fields | none
      return missingNode node
    | "MissingSocket" => do
      let [node, socket] ← texts? ["node", "socket"] fields | none
      return missingSocket node socket
    | "MultipleInputLinks" => do
      let [node, socket, count] ← fields.fields? ["node", "socket", "count"] | none
      return multipleInputLinks (← node.bind Json.text?) (← socket.bind Json.text?)
        (← count.bind count?)
    | "Cycle" => do
      let [nodes] ← fields.fields? ["nodes"] | none
      return cycle (← nodes.bind (Json.list? Json.text?))
    | "TypeMismatch" => do
      let [fromNode, fromSocket, toNode, toSocket, fromType, toType] ←
        texts? ["from_node", "from_socket", "to_node", "to_socket", "from_type", "to_type"] fields
        | none
      return typeMismatch fromNode fromSocket toNode toSocket fromType toType
    | "ExecutionFailed" => do
      let [message] ← texts? ["message"] fields | none
      return executionFailed message
    | _ => none
  | _ => none

end Problem

namespace ProblemList

def toJson (list : ProblemList) : Json :=
  .ofMembers [("entries", .array (list.entries.map fun entry =>
    .ofMembers [("tree", .ofString entry.tree), ("problem", entry.problem.toJson)]))]

end ProblemList

end FrameGraph
