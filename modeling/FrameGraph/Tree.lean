import FrameGraph.Node

/-!
Node trees, the links in them, and documents of trees.
-/

namespace FrameGraph

structure Link where
  fromNode : String
  fromSocket : String
  toNode : String
  toSocket : String
deriving DecidableEq, Repr

structure TreeMetadata where
  description : String
  createdAt : String
  modifiedAt : String
deriving DecidableEq, Repr

/-- A tree. Its revision differs whenever its nodes, sockets or links do. -/
structure Tree where
  name : String
  nodes : List Node
  links : List Link
  metadata : TreeMetadata
  revision : Nat
deriving DecidableEq

/-- A moment at which a tree may change: an unused revision, and the time as text. -/
structure Stamp where
  revision : Nat
  time : String
deriving DecidableEq, Repr

structure Document where
  trees : List Tree
deriving DecidableEq

namespace Link

def entersInput (link : Link) (node socket : String) : Bool :=
  link.toNode = node && link.toSocket = socket

def leavesOutput (link : Link) (node socket : String) : Bool :=
  link.fromNode = node && link.fromSocket = socket

def touches (link : Link) (node : String) : Bool :=
  link.fromNode = node || link.toNode = node

end Link

namespace Tree

def new (name : String) (stamp : Stamp) : Tree where
  name
  nodes := []
  links := []
  metadata := ⟨"", stamp.time, stamp.time⟩
  revision := stamp.revision

def touch (tree : Tree) (stamp : Stamp) : Tree :=
  { tree with
    revision := stamp.revision
    metadata := { tree.metadata with modifiedAt := stamp.time } }

def node? (tree : Tree) (identifier : String) : Option Node :=
  tree.nodes.find? (·.identifier = identifier)

def inputLink? (tree : Tree) (node socket : String) : Option Link :=
  tree.links.find? (·.entersInput node socket)

def isInputLinked (tree : Tree) (node socket : String) : Bool :=
  tree.links.any (·.entersInput node socket)

def isOutputLinked (tree : Tree) (node socket : String) : Bool :=
  tree.links.any (·.leavesOutput node socket)

def origins (tree : Tree) (node : String) : List String :=
  ((tree.links.filter (·.toNode = node)).map (·.fromNode)).eraseDups

def unlinkedInputs (tree : Tree) (node : String) : List Socket :=
  match tree.node? node with
  | some n => n.inputs.filter fun socket => !tree.isInputLinked node socket.identifier
  | none => []

/-- Whether the first node named on the from side has the output. -/
def hasSource (tree : Tree) (link : Link) : Bool :=
  (tree.node? link.fromNode).any (·.hasOutput link.fromSocket)

def hasTarget (tree : Tree) (link : Link) : Bool :=
  (tree.node? link.toNode).any (·.hasInput link.toSocket)

end Tree

namespace Document

def empty : Document := ⟨[]⟩

def tree? (document : Document) (name : String) : Option Tree :=
  document.trees.find? (·.name = name)

def addTree (document : Document) (tree : Tree) : Document :=
  ⟨document.trees ++ [tree]⟩

end Document

def updateFirst {α : Type} (test : α → Bool) (change : α → α) : List α → List α
  | [] => []
  | a :: rest => if test a then change a :: rest else a :: updateFirst test change rest

namespace Tree

def updateNode (tree : Tree) (identifier : String) (change : Node → Node) : Tree :=
  { tree with nodes := updateFirst (·.identifier = identifier) change tree.nodes }

end Tree

namespace Document

def updateTree (document : Document) (name : String) (change : Tree → Tree) : Document :=
  ⟨updateFirst (·.name = name) change document.trees⟩

end Document

end FrameGraph
