import FrameGraph.Kind.Registry
import FrameGraph.Network
import FrameGraph.Problem

/-!
The structural problems of a tree: identifiers, kinds, links and inputs, in this order.
-/

namespace FrameGraph.Tree

/-- Nodes without an identifier, and shared identifiers at their first node. -/
def identifierProblems (tree : Tree) : List Problem :=
  tree.nodes.zipIdx.filterMap fun (node, i) =>
    if node.identifier = "" then some (.missingIdentifier node.kind)
    else
      let count := tree.nodes.countP (·.identifier = node.identifier)
      let first := tree.nodes.findIdx (·.identifier = node.identifier) = i
      if 1 < count && first then some (.duplicateIdentifier node.identifier count) else none

def kindProblems (tree : Tree) (registry : Registry) : List Problem :=
  (tree.nodes.filter fun node => !registry.contains node.kind).map fun node =>
    .unknownNodeKind node.identifier node.kind

/-- What is wrong with an end of a link, given the test for its socket. -/
def endProblem? (tree : Tree) (node socket : String) (hasSocket : Node → Bool) : Option Problem :=
  match tree.node? node with
  | none => some (.missingNode node)
  | some n => if hasSocket n then none else some (.missingSocket node socket)

def linkProblems (tree : Tree) (link : Link) : List Problem :=
  (tree.endProblem? link.fromNode link.fromSocket (·.hasOutput link.fromSocket)).toList ++
    (tree.endProblem? link.toNode link.toSocket (·.hasInput link.toSocket)).toList

def inputProblems (tree : Tree) (node : Node) : List Problem :=
  node.inputs.filterMap fun socket =>
    let count := tree.links.countP (·.entersInput node.identifier socket.identifier)
    if 1 < count then some (.multipleInputLinks node.identifier socket.identifier count) else none

def problems (tree : Tree) (registry : Registry) : List Problem :=
  tree.identifierProblems ++ tree.kindProblems registry ++ tree.links.flatMap tree.linkProblems ++
    tree.nodes.flatMap tree.inputProblems

/-- The nodes of every network that a problem is about. -/
def invalidNodes (tree : Tree) (problems : List Problem) : List String :=
  tree.networkMembers (problems.flatMap Problem.nodes)

end FrameGraph.Tree
