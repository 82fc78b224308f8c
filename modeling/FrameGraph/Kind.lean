import FrameGraph.Text.Line
import FrameGraph.Tree

/-!
Node kinds: how nodes of a kind are declared, how they react to edits, and what code they
contribute.
-/

namespace FrameGraph

structure Declaration where
  idName : String
  label : String
  category : String
  searchTags : List String
  /-- Only the tags are searched, not the label. -/
  onlySearchTags : Bool
deriving DecidableEq, Repr

namespace Declaration

def named (idName label : String) : Declaration where
  idName
  label
  category := "General"
  searchTags := []
  onlySearchTags := false

end Declaration

/-- Code written in terms of the socket identifiers and `self`. -/
inductive RawCode
  | empty
  | single (code : String)
  | lines (ls : List String)
deriving DecidableEq, Repr

namespace RawCode

def joined : RawCode → String
  | empty => ""
  | single code => code
  | lines ls => Text.joinLines ls

def isEmpty : RawCode → Bool
  | empty => true
  | single code => code.isEmpty
  | lines ls => ls.all (·.isEmpty)

end RawCode

/-- How a node contributes code: by a call of its own procedure, or inline. -/
inductive Contribution
  | procedure
  | raw (code : RawCode)
deriving DecidableEq, Repr

structure LinkContext where
  inputs : List String
  outputs : List String
deriving DecidableEq, Repr

namespace LinkContext

def none : LinkContext := ⟨[], []⟩

def ofNode (tree : Tree) (node : Node) : LinkContext where
  inputs := (node.inputs.map (·.identifier)).filter (tree.isInputLinked node.identifier)
  outputs := (node.outputs.map (·.identifier)).filter (tree.isOutputLinked node.identifier)

def allLinked (node : Node) : LinkContext where
  inputs := node.inputs.map (·.identifier)
  outputs := node.outputs.map (·.identifier)

def isInputLinked (context : LinkContext) (socket : String) : Bool :=
  context.inputs.contains socket

def isOutputLinked (context : LinkContext) (socket : String) : Bool :=
  context.outputs.contains socket

def anyOutputLinked (context : LinkContext) : Bool :=
  !context.outputs.isEmpty

end LinkContext

/-- The behaviour of a node kind. The hooks on edits do nothing unless a kind says so. -/
structure Kind where
  declaration : Declaration
  /-- Declares the sockets and properties of a new node. -/
  create : Node → Node
  code : Node → LinkContext → Contribution
  /-- The host modules that the code of the node refers to. -/
  usedModules : Node → List String := fun _ => []
  edit : Node → Node := id
  /-- Adapts a copy; the second node is its source. -/
  duplicate : Node → Node → Node := fun copy _ => copy
  socketChanged : Node → Node := id
  propertyChanged : Node → String → Node := fun node _ => node

end FrameGraph
