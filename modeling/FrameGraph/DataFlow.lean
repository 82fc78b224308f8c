import FrameGraph.Network

/-!
Where the inputs of nodes come from, and the order in which the nodes run: sources first, and of the
nodes that are ready the first of the tree.
-/

namespace FrameGraph

inductive DataSource
  /-- The output of a node. -/
  | output (node socket : String)
  /-- The socket's own value, as a literal and the module that it needs. -/
  | literal (text : String) (module : Option String)
deriving DecidableEq, Repr

namespace Tree

/-- The last link into the input, else the value of the first socket of that name. -/
def inputSource? (tree : Tree) (node socket : String) : Option DataSource :=
  match tree.links.reverse.find? (·.entersInput node socket) with
  | some link => some (.output link.fromNode link.fromSocket)
  | none =>
    ((tree.nodes.filter (·.identifier = node)).findSome? (·.input? socket)).map fun s =>
      .literal s.literal.1 s.literal.2

end Tree

namespace Schedule

def insertReady (i : Nat) : List Nat → List Nat
  | [] => [i]
  | j :: rest => if i < j then i :: j :: rest else if i = j then i :: rest
    else j :: insertReady i rest

def inDegrees (size : Nat) (edges : List (Nat × Nat)) : List Nat :=
  (List.range size).map fun i => edges.countP (·.2 = i)

/-- Counts one link into each of the targets as done; a target without further links is ready. -/
def release : List Nat → List Nat × List Nat → List Nat × List Nat
  | [], state => state
  | target :: targets, (degrees, ready) =>
    let left := degrees.getD target 0 - 1
    release targets
      (degrees.set target left, if left = 0 then insertReady target ready else ready)

/-- Takes the first position that is ready, as long as there is one. Gives the positions taken and
the links left. No position is taken twice, so their number is fuel enough. -/
def run (edges : List (Nat × Nat)) : Nat → List Nat → List Nat → List Nat × List Nat
  | 0, degrees, _ => ([], degrees)
  | _ + 1, degrees, [] => ([], degrees)
  | fuel + 1, degrees, current :: ready =>
    let targets := (edges.filter (·.1 = current)).map (·.2)
    let (degrees, ready) := release targets (degrees, ready)
    let (order, left) := run edges fuel degrees ready
    (current :: order, left)

def ofEdges (size : Nat) (edges : List (Nat × Nat)) : List Nat × List Nat :=
  let degrees := inDegrees size edges
  let ready := (List.range size).filter fun i => degrees.getD i 0 = 0
  run edges size degrees ready

end Schedule

namespace Tree

def identifiersAt (tree : Tree) (positions : List Nat) : List String :=
  positions.filterMap fun i => tree.nodes[i]?.map (·.identifier)

/-- The order in which the nodes run, or the nodes that wait for each other, in tree order. -/
def evaluationOrder (tree : Tree) : Except (List String) (List String) :=
  let size := tree.nodes.length
  let (order, left) := Schedule.ofEdges size tree.edges
  if order.length = size then .ok (tree.identifiersAt order)
  else .error (tree.identifiersAt ((List.range size).filter fun i => 0 < left.getD i 0))

end Tree

end FrameGraph
