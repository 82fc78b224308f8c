import FrameGraph.Catalog.Absorb
import FrameGraph.Tree.Edit

/-!
The edits of a tree as values, so that a history of a tree is a list of them.
-/

namespace FrameGraph

/-- An edit of a tree; the identifiers of new nodes are part of it. -/
inductive Edit
  | newNode (kind fresh : String)
  | addNode (node : Node)
  | duplicateNode (source fresh : String)
  | removeNode (node : String)
  | link (link : Link)
  | unlink (node socket : String)
  | prune
  | setProperty (node property : String) (value : Value)
  | editNode (node : String)
  | removeSocket (node socket : String) (side : Side)
  | moveSocket (node socket : String) (side : Side) (index : Nat)
  | absorbParameters (node : String)

inductive HookCall
  | create
  | edit (node : String)
  | duplicate (source : String)
  | delete (node : String)
  | socketChanged (node : String)
  | propertyChanged (node property : String)
deriving DecidableEq, Repr

inductive EditResult
  | done
  | identifier (identifier : String)
  | flag (value : Bool)
  | count (n : Nat)
  | node (node : Node)
  | socket (socket : Socket)
deriving DecidableEq

namespace Edit

def apply (edit : Edit) (registry : Registry) (stamp : Stamp) (tree : Tree) :
    Except EditError (EditResult × Tree) :=
  match edit with
  | newNode kind fresh => do
    let (identifier, tree) ← tree.newNode registry kind fresh stamp
    return (.identifier identifier, tree)
  | addNode node => .ok (.done, tree.addNode node stamp)
  | duplicateNode source fresh => do
    let (identifier, tree) ← tree.duplicateNode registry source fresh stamp
    return (.identifier identifier, tree)
  | removeNode node => do
    let (removed, tree) ← tree.removeNode node stamp
    return (.node removed, tree)
  | link new => do
    return (.done, ← tree.link new stamp)
  | unlink node socket =>
    let (removed, tree) := tree.unlink node socket stamp
    .ok (.flag removed, tree)
  | prune =>
    let (removed, tree) := tree.prune stamp
    .ok (.count removed, tree)
  | setProperty node property value => do
    return (.done, ← tree.setProperty registry node property value stamp)
  | editNode node => do
    return (.done, ← tree.editNode registry node stamp)
  | removeSocket node socket side => do
    let (removed, tree) ← tree.removeSocket registry node socket side stamp
    return (.socket removed, tree)
  | moveSocket node socket side index => do
    return (.done, ← tree.moveSocket registry node socket side index stamp)
  | absorbParameters node => do
    let (created, tree) ← Catalog.GroupInput.absorb tree node stamp
    return (.count created, tree)

/-! What an edit that is not refused has gone through. -/

section Done

variable {registry : Registry} {stamp : Stamp} {tree changed : Tree} {result : EditResult}
  {node : String}

theorem newNode_eq_ok {kind fresh : String} :
    (newNode kind fresh).apply registry stamp tree = .ok (result, changed) ↔
      ∃ k, registry.kind? kind = some k ∧
        result = .identifier (k.create (.ofKind fresh kind)).identifier ∧
        changed = tree.addNode (k.create (.ofKind fresh kind)) stamp := by
  simp only [apply, bind_eq_ok, pure_eq_ok, Prod.exists, Tree.newNode_eq_ok]
  grind

theorem addNode_eq_ok {added : Node} :
    (addNode added).apply registry stamp tree = .ok (result, changed) ↔
      result = .done ∧ changed = tree.addNode added stamp := by
  simp only [apply]
  grind

theorem duplicateNode_eq_ok {fresh : String} :
    (duplicateNode node fresh).apply registry stamp tree = .ok (result, changed) ↔
      ∃ source k, tree.node? node = some source ∧ registry.kind? source.kind = some k ∧
        ∃ copy, copy = k.duplicate
            { source with identifier := fresh, inInvalidNetwork := false } source ∧
          result = .identifier copy.identifier ∧ changed = tree.addNode copy stamp := by
  simp only [apply, Tree.duplicateNode, bind_eq_ok, pure_eq_ok, Tree.requireNode_eq_ok,
    Tree.requireKind_eq_ok]
  grind

theorem removeNode_eq_ok :
    (removeNode node).apply registry stamp tree = .ok (result, changed) ↔
      ∃ removed, tree.node? node = some removed ∧ result = .node removed ∧
        changed = { tree with
          nodes := tree.nodes.eraseP (·.identifier = node)
          links := tree.links.filter fun link => !link.touches node }.touch stamp := by
  simp only [apply, Tree.removeNode, bind_eq_ok, pure_eq_ok, Tree.requireNode_eq_ok]
  grind

theorem link_eq_ok {new : Link} :
    (link new).apply registry stamp tree = .ok (result, changed) ↔
      result = .done ∧ tree.link new stamp = .ok changed := by
  simp only [apply, bind_eq_ok, pure_eq_ok]
  grind

theorem unlink_eq_ok {socket : String} :
    (unlink node socket).apply registry stamp tree = .ok (result, changed) ↔
      result = .flag (tree.unlink node socket stamp).1 ∧
        changed = (tree.unlink node socket stamp).2 := by
  simp only [apply]
  grind

theorem prune_eq_ok :
    prune.apply registry stamp tree = .ok (result, changed) ↔
      result = .count (tree.prune stamp).1 ∧ changed = (tree.prune stamp).2 := by
  simp only [apply]
  grind

theorem setProperty_eq_ok {property : String} {value : Value} :
    (setProperty node property value).apply registry stamp tree = .ok (result, changed) ↔
      ∃ target k, tree.node? node = some target ∧ registry.kind? target.kind = some k ∧
        result = .done ∧
        changed = (tree.updateNode node fun n =>
          k.propertyChanged (n.setProperty property value) property).settle stamp := by
  simp only [apply, Tree.setProperty, bind_eq_ok, pure_eq_ok, Tree.requireNode_eq_ok,
    Tree.requireKind_eq_ok]
  grind

theorem editNode_eq_ok :
    (editNode node).apply registry stamp tree = .ok (result, changed) ↔
      ∃ target k, tree.node? node = some target ∧ registry.kind? target.kind = some k ∧
        result = .done ∧ changed = (tree.updateNode node k.edit).settle stamp := by
  simp only [apply, Tree.editNode, bind_eq_ok, pure_eq_ok, Tree.requireNode_eq_ok,
    Tree.requireKind_eq_ok]
  grind

theorem removeSocket_eq_ok {socket : String} {side : Side} :
    (removeSocket node socket side).apply registry stamp tree = .ok (result, changed) ↔
      ∃ target k removed, tree.node? node = some target ∧ registry.kind? target.kind = some k ∧
        Socket.find? (target.sockets side) socket = some removed ∧ result = .socket removed ∧
        changed = (tree.updateNode node fun n => k.socketChanged
          (n.setSockets side ((n.sockets side).eraseP (·.identifier = socket)))).settle stamp := by
  simp only [apply, Tree.removeSocket, bind_eq_ok, pure_eq_ok, Tree.requireNode_eq_ok,
    Tree.requireKind_eq_ok, Tree.requireSocket_eq_ok]
  grind

theorem moveSocket_eq_ok {socket : String} {side : Side} {index : Nat} :
    (moveSocket node socket side index).apply registry stamp tree = .ok (result, changed) ↔
      ∃ target k moved, tree.node? node = some target ∧ registry.kind? target.kind = some k ∧
        Socket.find? (target.sockets side) socket = some moved ∧ result = .done ∧
        changed = (tree.updateNode node fun n =>
          let rest := (n.sockets side).eraseP (·.identifier = socket)
          k.socketChanged
            (n.setSockets side (rest.take index ++ moved :: rest.drop index))).touch stamp := by
  simp only [apply, Tree.moveSocket, bind_eq_ok, pure_eq_ok, Tree.requireNode_eq_ok,
    Tree.requireKind_eq_ok, Tree.requireSocket_eq_ok]
  grind

open Catalog.GroupInput in
theorem absorbParameters_eq_ok :
    (absorbParameters node).apply registry stamp tree = .ok (result, changed) ↔
      ∃ group count, tree.node? node = some group ∧ result = .count count ∧
        absorbInto node stamp (absorbTargets tree node) tree = .ok (count, changed) := by
  simp only [apply, absorb, bind_eq_ok, pure_eq_ok, Tree.requireNode_eq_ok]
  grind

end Done

/-- The kind whose hook the edit calls when it is not refused, and the call. -/
def hookCall? (edit : Edit) (tree : Tree) : Option (String × HookCall) :=
  let kindOf (node : String) (call : HookCall) := (tree.node? node).map fun n => (n.kind, call)
  match edit with
  | newNode kind _ => some (kind, .create)
  | duplicateNode source _ => kindOf source (.duplicate source)
  | removeNode node => kindOf node (.delete node)
  | setProperty node property _ => kindOf node (.propertyChanged node property)
  | editNode node => kindOf node (.edit node)
  | removeSocket node _ _ => kindOf node (.socketChanged node)
  | moveSocket node _ _ _ => kindOf node (.socketChanged node)
  | addNode _ | link _ | unlink .. | prune | absorbParameters _ => none

end Edit

end FrameGraph
