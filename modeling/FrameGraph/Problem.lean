/-!
The problems that trees are reported for. Main statement: exactly the type mismatches are warnings.
-/

namespace FrameGraph

inductive Severity
  | warning
  | error
deriving DecidableEq, Repr

namespace Severity

def name : Severity → String
  | warning => "Warning"
  | error => "Error"

end Severity

inductive Problem
  | unknownNodeKind (node kind : String)
  | duplicateIdentifier (node : String) (count : Nat)
  | missingIdentifier (kind : String)
  | missingNode (node : String)
  | missingSocket (node socket : String)
  | multipleInputLinks (node socket : String) (count : Nat)
  | cycle (nodes : List String)
  | typeMismatch (fromNode fromSocket toNode toSocket fromType toType : String)
  | executionFailed (message : String)
deriving DecidableEq, Repr

namespace Problem

def text : Problem → String
  | unknownNodeKind node kind => "node '" ++ node ++ "' has unknown kind '" ++ kind ++ "'"
  | duplicateIdentifier node count =>
    "identifier '" ++ node ++ "' is shared by " ++ toString count ++ " nodes"
  | missingIdentifier kind => "a node of kind '" ++ kind ++ "' has no identifier"
  | missingNode node => "link references missing node '" ++ node ++ "'"
  | missingSocket node socket =>
    "link references missing socket '" ++ socket ++ "' on node '" ++ node ++ "'"
  | multipleInputLinks node socket count =>
    "input '" ++ socket ++ "' of node '" ++ node ++ "' has " ++ toString count ++ " incoming links"
  | cycle nodes => "cyclic dependency between nodes: " ++ ", ".intercalate nodes
  | typeMismatch fromNode fromSocket toNode toSocket fromType toType =>
    "link " ++ fromNode ++ "." ++ fromSocket ++ " -> " ++ toNode ++ "." ++ toSocket ++ ": " ++
      fromType ++ " is not compatible with " ++ toType
  | executionFailed message => "execution failed: " ++ message

def severity : Problem → Severity
  | typeMismatch .. => .warning
  | _ => .error

def isBlocking (problem : Problem) : Bool :=
  problem.severity = .error

/-- The nodes that the problem is about. A node without an identifier goes by the empty text. -/
def nodes : Problem → List String
  | unknownNodeKind node _ | duplicateIdentifier node _ | missingNode node | missingSocket node _
  | multipleInputLinks node _ _ => [node]
  | cycle nodes => nodes
  | typeMismatch fromNode _ toNode _ _ _ => [fromNode, toNode]
  | missingIdentifier _ => [""]
  | executionFailed _ => []

theorem isBlocking_eq_false_iff {problem : Problem} : problem.isBlocking = false ↔
    ∃ fromNode fromSocket toNode toSocket fromType toType,
      problem = typeMismatch fromNode fromSocket toNode toSocket fromType toType := by
  cases problem <;> simp [isBlocking, severity]

end Problem

end FrameGraph
