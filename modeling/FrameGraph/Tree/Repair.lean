import FrameGraph.Tree

/-!
Identifiers for the nodes that have none. Identifiers that are there stay, also when nodes share
one.
-/

namespace FrameGraph

namespace Link

def rename (link : Link) (old new : String) : Link :=
  { link with
    fromNode := if link.fromNode = old then new else link.fromNode
    toNode := if link.toNode = old then new else link.toNode }

end Link

/-- Gives the nodes without an identifier those numbered from `first` on. The identifiers that are
given come first in the result. -/
def assignIdentifiers (fresh : Nat → String) (first : Nat) :
    List Node → List String × List Node
  | [] => ([], [])
  | node :: rest =>
    if node.identifier = "" then
      let (assigned, nodes) := assignIdentifiers fresh (first + 1) rest
      (fresh first :: assigned, { node with identifier := fresh first } :: nodes)
    else
      let (assigned, nodes) := assignIdentifiers fresh first rest
      (assigned, node :: nodes)

/-- Links that name the empty identifier follow the node if it is the only one without; with several
such nodes they are ambiguous and stay. The number of identifiers given comes first. -/
def Tree.repair (tree : Tree) (fresh : Nat → String) (first : Nat) (stamp : Stamp) : Nat × Tree :=
  match assignIdentifiers fresh first tree.nodes with
  | ([], _) => (0, tree)
  | ([identifier], nodes) =>
    (1, { tree with nodes, links := tree.links.map (Link.rename · "" identifier) }.touch stamp)
  | (assigned, nodes) => (assigned.length, { tree with nodes }.touch stamp)

/-- Repairs the trees in order. `repaired` counts the identifiers given so far; a tree that needs
any uses up a revision. -/
def repairTrees (fresh : Nat → String) (repaired : Nat) (stamp : Stamp) :
    List Tree → Nat × List Tree
  | [] => (repaired, [])
  | tree :: rest =>
    let (assigned, tree) := tree.repair fresh repaired stamp
    let next := if assigned = 0 then stamp else { stamp with revision := stamp.revision + 1 }
    let (repaired, trees) := repairTrees fresh (repaired + assigned) next rest
    (repaired, tree :: trees)

/-- Gives every node without an identifier a fresh one, and back how many those are. The revisions
used start with that of the stamp. -/
def Document.repair (document : Document) (fresh : Nat → String) (stamp : Stamp) :
    Nat × Document :=
  let (repaired, trees) := repairTrees fresh 0 stamp document.trees
  (repaired, ⟨trees⟩)

end FrameGraph
