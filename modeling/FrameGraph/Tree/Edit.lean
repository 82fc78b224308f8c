import FrameGraph.Kind.Registry
import FrameGraph.Outcome
import FrameGraph.Tree.EditError

/-!
Edits of a tree. An edit that is refused leaves no tree behind, so nothing has changed; one that
changes nodes, sockets or links gives the tree the revision of its stamp.
-/

namespace FrameGraph

namespace Tree

def requireNode (tree : Tree) (identifier : String) : Except EditError Node :=
  match tree.node? identifier with
  | some node => .ok node
  | none => .error (.nodeNotFound identifier)

theorem requireNode_eq_ok {tree : Tree} {identifier : String} {node : Node} :
    tree.requireNode identifier = .ok node ↔ tree.node? identifier = some node := by
  unfold requireNode
  cases tree.node? identifier <;> simp

def requireKind (registry : Registry) (kind : String) : Except EditError Kind :=
  match registry.kind? kind with
  | some k => .ok k
  | none => .error (.unknownKind kind)

theorem requireKind_eq_ok {registry : Registry} {name : String} {kind : Kind} :
    requireKind registry name = .ok kind ↔ registry.kind? name = some kind := by
  unfold requireKind
  cases registry.kind? name <;> simp

def addNode (tree : Tree) (node : Node) (stamp : Stamp) : Tree :=
  { tree with nodes := tree.nodes ++ [node] }.touch stamp

/-- Creates a node of a registered kind under a fresh identifier, unless its hook gives it another;
the identifier it has comes first. -/
def newNode (tree : Tree) (registry : Registry) (kind fresh : String) (stamp : Stamp) :
    Except EditError (String × Tree) := do
  let k ← requireKind registry kind
  let node := k.create (Node.ofKind fresh kind)
  return (node.identifier, tree.addNode node stamp)

theorem newNode_eq_ok {tree changed : Tree} {registry : Registry} {kind fresh identifier : String}
    {stamp : Stamp} :
    tree.newNode registry kind fresh stamp = .ok (identifier, changed) ↔
      ∃ k, registry.kind? kind = some k ∧
        identifier = (k.create (.ofKind fresh kind)).identifier ∧
        changed = tree.addNode (k.create (.ofKind fresh kind)) stamp := by
  simp only [newNode, bind_eq_ok, pure_eq_ok, requireKind_eq_ok]
  grind

/-- Copies a node, without its links, under a fresh identifier, unless the hook gives the copy
another; the identifier it has comes first. -/
def duplicateNode (tree : Tree) (registry : Registry) (source fresh : String) (stamp : Stamp) :
    Except EditError (String × Tree) := do
  let node ← tree.requireNode source
  let k ← requireKind registry node.kind
  let copy := k.duplicate { node with identifier := fresh, inInvalidNetwork := false } node
  return (copy.identifier, tree.addNode copy stamp)

/-- Removes the first node with the identifier and every link that names the identifier. -/
def removeNode (tree : Tree) (identifier : String) (stamp : Stamp) :
    Except EditError (Node × Tree) := do
  let node ← tree.requireNode identifier
  let nodes := tree.nodes.eraseP (·.identifier = identifier)
  let links := tree.links.filter fun link => !link.touches identifier
  return (node, { tree with nodes, links }.touch stamp)

/-- The tree with a link in place of those that entered its input before. -/
def relink (tree : Tree) (new : Link) (stamp : Stamp) : Tree :=
  { tree with
    links := tree.links.filter (fun link => !Link.entersInput link new.toNode new.toSocket) ++
      [new] }.touch stamp

def link (tree : Tree) (new : Link) (stamp : Stamp) : Except EditError Tree := do
  let source ← tree.requireNode new.fromNode
  if !source.hasOutput new.fromSocket then
    .error (.socketNotFound new.fromNode new.fromSocket)
  let target ← tree.requireNode new.toNode
  if !target.hasInput new.toSocket then
    .error (.socketNotFound new.toNode new.toSocket)
  return tree.relink new stamp

theorem link_eq_ok {tree changed : Tree} {new : Link} {stamp : Stamp} :
    tree.link new stamp = .ok changed ↔
      ∃ source target, tree.node? new.fromNode = some source ∧ source.hasOutput new.fromSocket ∧
        tree.node? new.toNode = some target ∧ target.hasInput new.toSocket ∧
        changed = tree.relink new stamp := by
  unfold link requireNode
  cases tree.node? new.fromNode with
  | none => simp [bind, Except.bind]
  | some source =>
    cases output : source.hasOutput new.fromSocket with
    | false => simp [bind, Except.bind, output]
    | true =>
      cases tree.node? new.toNode with
      | none => simp [bind, Except.bind, output]
      | some target =>
        cases input : target.hasInput new.toSocket with
        | false => simp [bind, Except.bind, output, input]
        | true => simp [bind, Except.bind, pure, Except.pure, output, input, @eq_comm _ changed]

def unlink (tree : Tree) (node socket : String) (stamp : Stamp) : Bool × Tree :=
  if tree.isInputLinked node socket then
    let links := tree.links.filter fun link => !link.entersInput node socket
    (true, { tree with links }.touch stamp)
  else (false, tree)

def soundLinks (tree : Tree) : List Link :=
  tree.links.filter fun link => tree.hasSource link && tree.hasTarget link

def prune (tree : Tree) (stamp : Stamp) : Nat × Tree :=
  let links := tree.soundLinks
  let removed := tree.links.length - links.length
  (removed, if removed = 0 then tree else { tree with links }.touch stamp)

/-- Drops the links of which an end is missing and marks the tree as changed. -/
def settle (tree : Tree) (stamp : Stamp) : Tree :=
  { tree with links := tree.soundLinks }.touch stamp

def setProperty (tree : Tree) (registry : Registry) (node property : String) (value : Value)
    (stamp : Stamp) : Except EditError Tree := do
  let target ← tree.requireNode node
  let k ← requireKind registry target.kind
  let change (n : Node) := k.propertyChanged (n.setProperty property value) property
  return (tree.updateNode node change).settle stamp

def editNode (tree : Tree) (registry : Registry) (node : String) (stamp : Stamp) :
    Except EditError Tree := do
  let target ← tree.requireNode node
  let k ← requireKind registry target.kind
  return (tree.updateNode node k.edit).settle stamp

def requireSocket (node : Node) (side : Side) (socket : String) : Except EditError Socket :=
  match Socket.find? (node.sockets side) socket with
  | some s => .ok s
  | none => .error (.socketNotFound node.identifier socket)

theorem requireSocket_eq_ok {node : Node} {side : Side} {name : String} {socket : Socket} :
    requireSocket node side name = .ok socket ↔
      Socket.find? (node.sockets side) name = some socket := by
  unfold requireSocket
  cases Socket.find? (node.sockets side) name <;> simp

def removeSocket (tree : Tree) (registry : Registry) (node socket : String) (side : Side)
    (stamp : Stamp) : Except EditError (Socket × Tree) := do
  let target ← tree.requireNode node
  let k ← requireKind registry target.kind
  let removed ← requireSocket target side socket
  let change (n : Node) :=
    k.socketChanged (n.setSockets side ((n.sockets side).eraseP (·.identifier = socket)))
  return (removed, (tree.updateNode node change).settle stamp)

/-- Moves the first socket with the identifier to an index of its side, at most to the end. -/
def moveSocket (tree : Tree) (registry : Registry) (node socket : String) (side : Side)
    (index : Nat) (stamp : Stamp) : Except EditError Tree := do
  let target ← tree.requireNode node
  let k ← requireKind registry target.kind
  let moved ← requireSocket target side socket
  let change (n : Node) :=
    let rest := (n.sockets side).eraseP (·.identifier = socket)
    k.socketChanged (n.setSockets side (rest.take index ++ moved :: rest.drop index))
  return (tree.updateNode node change).touch stamp

end Tree

end FrameGraph
