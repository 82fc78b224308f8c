import FrameGraph.Catalog.GroupInput
import FrameGraph.Tree.Edit

/-!
Turning the links that leave the new-parameter socket of a group input into parameters.
-/

namespace FrameGraph.Catalog.GroupInput

def absorbTargets (tree : Tree) (node : String) : List (String × String) :=
  (tree.links.filter (·.leavesOutput node newParameterSocket)).map fun link =>
    (link.toNode, link.toSocket)

def typedInput? (tree : Tree) (node socket : String) : Option Socket :=
  ((tree.node? node).bind (·.input? socket)).filter (·.type ≠ .empty)

/-- Links a new parameter of its own to every typed target, and unlinks the other targets. Gives the
number of parameters added. -/
def absorbInto (node : String) (stamp : Stamp) :
    List (String × String) → Tree → Except EditError (Nat × Tree)
  | [], tree => .ok (0, tree)
  | (toNode, toSocket) :: rest, tree => do
    match typedInput? tree toNode toSocket with
    | none => absorbInto node stamp rest (tree.unlink toNode toSocket stamp).2
    | some target =>
      let group ← tree.requireNode node
      let parameter := nextParameter group
      let extended := tree.updateNode node (addParameter · target.type target.name target.value)
      let linked ← extended.link ⟨node, parameter, toNode, toSocket⟩ stamp
      let (count, tree) ← absorbInto node stamp rest linked
      return (count + 1, tree)

/-- Turns every link that leaves the new-parameter socket into a parameter of the type of its
target; links into empty or missing inputs are dropped. -/
def absorb (tree : Tree) (node : String) (stamp : Stamp) : Except EditError (Nat × Tree) := do
  let _ ← tree.requireNode node
  absorbInto node stamp (absorbTargets tree node) tree

end FrameGraph.Catalog.GroupInput
