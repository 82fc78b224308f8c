import FrameGraph.Kind

/-!
Node kinds given by data: fixed sockets and properties, code chosen by the links, and hooks that are
lists of acts.
-/

namespace FrameGraph

inductive HookAct
  | clearSockets
  | addSocket (side : Side) (socket : Socket)
  | setLabel (label : Option String)
  | setProperty (name : String) (value : Value)
deriving DecidableEq

structure CodeCase where
  input : Option String
  output : Option String
  anyOutput : Bool
  code : Contribution
deriving DecidableEq

structure Recipe where
  declaration : Declaration
  inputs : List Socket
  outputs : List Socket
  properties : List (String × Value)
  code : Contribution
  cases : List CodeCase
  modules : List String
  onEdit : List HookAct
  onDuplicate : List HookAct
  onSocketChanged : List HookAct
  onPropertyChanged : List HookAct
deriving DecidableEq

namespace HookAct

def apply (node : Node) : HookAct → Node
  | clearSockets => node.clearSockets
  | addSocket side socket => node.addSocket side socket
  | setLabel label => { node with label }
  | setProperty name value => node.setProperty name value

def applyAll (acts : List HookAct) (node : Node) : Node :=
  acts.foldl apply node

end HookAct

def CodeCase.hits (c : CodeCase) (context : LinkContext) : Bool :=
  c.input.any context.isInputLinked || c.output.any context.isOutputLinked ||
    (c.anyOutput && context.anyOutputLinked)

namespace Recipe

def create (recipe : Recipe) (node : Node) : Node :=
  let node := recipe.inputs.foldl Node.addInput node
  let node := recipe.outputs.foldl Node.addOutput node
  recipe.properties.foldl (fun node property => node.setProperty property.1 property.2) node

/-- The code of the first case that hits, else the general code. -/
def codeFor (recipe : Recipe) (context : LinkContext) : Contribution :=
  match recipe.cases.find? (·.hits context) with
  | some c => c.code
  | none => recipe.code

def toKind (recipe : Recipe) : Kind where
  declaration := recipe.declaration
  create := recipe.create
  code _ context := recipe.codeFor context
  usedModules _ := recipe.modules
  edit := HookAct.applyAll recipe.onEdit
  duplicate copy _ := HookAct.applyAll recipe.onDuplicate copy
  socketChanged := HookAct.applyAll recipe.onSocketChanged
  propertyChanged node _ := HookAct.applyAll recipe.onPropertyChanged node

end Recipe

end FrameGraph
