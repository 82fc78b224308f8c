import FrameGraph.Problem
import FrameGraph.Tree

/-!
Links between sockets of incompatible types. The host may still convert the value, so these problems
are warnings.
-/

namespace FrameGraph.Tree

/-- The problem of a link from an output that may not feed its input; none if either is missing. -/
def typeProblem? (tree : Tree) (link : Link) : Option Problem := do
  let source ← (← tree.node? link.fromNode).output? link.fromSocket
  let target ← (← tree.node? link.toNode).input? link.toSocket
  if source.type.feeds target.type then none
  else
    some (.typeMismatch link.fromNode link.fromSocket link.toNode link.toSocket source.type.idName
      target.type.idName)

def typeProblems (tree : Tree) : List Problem :=
  tree.links.filterMap tree.typeProblem?

end FrameGraph.Tree
