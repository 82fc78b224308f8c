import FrameGraph.Proofs.AbsorbedLinks
import FrameGraph.Proofs.ValidEdits

/-!
The new-parameter socket of group inputs. Main statement: a group input and its duplicates keep it,
as their last output, whatever is edited, unless it is removed itself.
-/

namespace FrameGraph

namespace Catalog.GroupInput

/-! ### The socket among the outputs of a node -/

/-- Whether one output is the new-parameter socket, an empty one, and is the last. -/
def EndsInPlaceholder (node : Node) : Prop :=
  ∃ parameters placeholder, node.outputs = parameters ++ [placeholder] ∧
    (∀ socket ∈ parameters, socket.identifier ≠ newParameterSocket) ∧
    placeholder.identifier = newParameterSocket ∧ placeholder.type = .empty

/-- Whether one of the sockets, wherever it stands, is the new-parameter socket, an empty one. -/
def HasPlaceholder (sockets : List Socket) : Prop :=
  (sockets.filter (·.identifier = newParameterSocket)).map (·.type) = [.empty]

variable {node : Node} {sockets others : List Socket}

theorem HasPlaceholder.perm (has : HasPlaceholder sockets) (perm : sockets.Perm others) :
    HasPlaceholder others := by
  have types := (perm.filter (·.identifier = newParameterSocket)).map (·.type)
  rw [has] at types
  exact List.perm_singleton.mp types.symm

theorem HasPlaceholder.of_cons {socket : Socket} (has : HasPlaceholder (socket :: sockets))
    (other : socket.identifier ≠ newParameterSocket) : HasPlaceholder sockets := by
  rwa [HasPlaceholder, List.filter_cons_of_neg (by simpa using other)] at has

theorem HasPlaceholder.append {socket : Socket} (has : HasPlaceholder sockets)
    (other : socket.identifier ≠ newParameterSocket) : HasPlaceholder (sockets ++ [socket]) := by
  simpa [HasPlaceholder, List.filter_append, other] using has

theorem HasPlaceholder.eraseP (has : HasPlaceholder sockets) {identifier : String}
    (other : identifier ≠ newParameterSocket) :
    HasPlaceholder (sockets.eraseP (·.identifier = identifier)) := by
  cases found : sockets.find? (·.identifier = identifier) with
  | none => rwa [List.eraseP_of_forall_not (List.find?_eq_none.mp found)]
  | some socket =>
      have named : socket.identifier = identifier := by simpa using List.find?_some found
      exact (has.perm (perm_cons_eraseP found).symm).of_cons (named ▸ other)

theorem EndsInPlaceholder.hasPlaceholder (ends : EndsInPlaceholder node) :
    HasPlaceholder node.outputs := by
  obtain ⟨parameters, placeholder, outputs, others, named, empty⟩ := ends
  have none : parameters.filter (·.identifier = newParameterSocket) = [] :=
    List.filter_eq_nil_iff.mpr (by simpa using others)
  rw [HasPlaceholder, outputs, List.filter_append, none]
  simp [named, empty]

theorem endsInPlaceholder_keepNewParameterLast (has : HasPlaceholder node.outputs) :
    EndsInPlaceholder (keepNewParameterLast node) := by
  obtain ⟨placeholder, only, empty⟩ : ∃ placeholder,
      node.outputs.filter (·.identifier = newParameterSocket) = [placeholder] ∧
        placeholder.type = .empty := by
    obtain ⟨placeholder, only⟩ := List.length_eq_one_iff.mp
      (by simpa using congrArg List.length has)
    exact ⟨placeholder, only, by simpa [HasPlaceholder, only] using has⟩
  have found : Socket.find? node.outputs newParameterSocket = some placeholder := by
    rw [Socket.find?, ← List.head?_filter, only]
    rfl
  have named : placeholder.identifier = newParameterSocket := by
    simpa using List.find?_some found
  have rest := (perm_cons_eraseP found).filter (·.identifier = newParameterSocket)
  rw [only, List.filter_cons_of_pos (by simpa using named), List.perm_singleton] at rest
  have others := List.filter_eq_nil_iff.mp (List.cons.inj rest).2
  refine ⟨_, placeholder, by rw [keepNewParameterLast, found], ?_, named, empty⟩
  simpa using others

/-- A group input as its edits leave it. -/
structure Complete (node : Node) : Prop where
  kind : node.kind = groupInput.declaration.idName
  ends : EndsInPlaceholder node

theorem complete_create (fresh : String) :
    Complete (groupInput.create (Node.ofKind fresh groupInput.declaration.idName)) where
  kind := rfl
  ends := ⟨[], _, rfl, nofun, rfl, rfl⟩

theorem kind_of_complete {kind : Kind} (found : registry.kind? node.kind = some kind)
    (complete : Complete node) : kind = groupInput := by
  obtain ⟨member, named⟩ := Registry.mem_of_kind?_ofKinds found
  rw [complete.kind] at named
  fin_cases member <;> first | rfl | exact absurd named (by decide)

theorem exists_kind_of_complete (complete : Complete node) :
    registry.kind? node.kind = some groupInput := by
  have registered : (registry.kind? groupInput.declaration.idName).isSome := by decide +kernel
  obtain ⟨kind, found⟩ := Option.isSome_iff_exists.mp (complete.kind ▸ registered)
  rwa [kind_of_complete found complete] at found

theorem Complete.keepNewParameterLast {after : Node} (complete : Complete node)
    (kind : after.kind = node.kind) (has : HasPlaceholder after.outputs) :
    Complete (keepNewParameterLast after) where
  kind := (kind_keepNewParameterLast after).trans (kind.trans complete.kind)
  ends := endsInPlaceholder_keepNewParameterLast has

theorem Complete.addParameter (complete : Complete node) (type : SocketType) (name : String)
    (value : Value) : Complete (addParameter node type name value) :=
  complete.keepNewParameterLast rfl
    (complete.ends.hasPlaceholder.append (isParameter_nextParameter node).ne_newParameterSocket)

end Catalog.GroupInput

open Catalog Catalog.GroupInput

/-! ### The nodes of a tree -/

namespace Tree

/-- Whether there are nodes under the identifiers, and all of them are complete group inputs. -/
structure KeepsPlaceholders (tree : Tree) (members : List String) : Prop where
  present : members ⊆ tree.identifiers
  complete : ∀ node ∈ tree.nodes, node.identifier ∈ members → Complete node

theorem nodes_prune (tree : Tree) (stamp : Stamp) : (tree.prune stamp).2.nodes = tree.nodes := by
  unfold prune
  simp only
  split <;> rfl

namespace KeepsPlaceholders

variable {tree changed : Tree} {members : List String} {stamp : Stamp}

theorem of_nodes (keeps : tree.KeepsPlaceholders members) (same : changed.nodes = tree.nodes) :
    changed.KeepsPlaceholders members where
  present := by
    rw [identifiers, same]
    exact keeps.present
  complete := same ▸ keeps.complete

theorem node? (keeps : tree.KeepsPlaceholders members) {identifier : String} {node : Node}
    (found : tree.node? identifier = some node) (member : identifier ∈ members) :
    Complete node :=
  have ⟨inside, named⟩ := mem_of_node? found
  keeps.complete node inside (named.symm ▸ member)

theorem append (keeps : tree.KeepsPlaceholders members) {node : Node}
    (new : node.identifier ∉ tree.identifiers) (nodes : changed.nodes = tree.nodes ++ [node]) :
    changed.KeepsPlaceholders members where
  present := by
    rw [identifiers, nodes, List.map_append]
    exact fun _ member => List.mem_append_left _ (keeps.present member)
  complete := by
    intro other inside member
    rw [nodes, List.mem_append, List.mem_singleton] at inside
    rcases inside with inside | rfl
    · exact keeps.complete other inside member
    · exact absurd (keeps.present member) new

theorem appendMember (keeps : tree.KeepsPlaceholders members) {node : Node}
    (new : node.identifier ∉ tree.identifiers) (complete : Complete node)
    (nodes : changed.nodes = tree.nodes ++ [node]) :
    changed.KeepsPlaceholders (node.identifier :: members) where
  present := by
    rw [List.cons_subset]
    refine ⟨?_, (keeps.append new nodes).present⟩
    simp [identifiers, nodes]
  complete := by
    intro other inside member
    rw [nodes, List.mem_append, List.mem_singleton] at inside
    rcases inside with inside | rfl
    · rcases List.mem_cons.mp member with same | member
      · exact absurd (same ▸ List.mem_map_of_mem inside) new
      · exact keeps.complete other inside member
    · exact complete

theorem removeNode (keeps : tree.KeepsPlaceholders members) {identifier : String}
    (spared : identifier ∉ members)
    (nodes : changed.nodes = tree.nodes.eraseP (·.identifier = identifier)) :
    changed.KeepsPlaceholders members where
  present := by
    intro other member
    obtain ⟨node, inside, rfl⟩ := List.mem_map.mp (keeps.present member)
    have stays : node ∈ tree.nodes.eraseP (·.identifier = identifier) := by
      refine (List.mem_eraseP_of_neg ?_).mpr inside
      simpa using fun same : node.identifier = identifier => spared (same ▸ member)
    rw [identifiers, nodes]
    exact List.mem_map_of_mem stays
  complete := fun node inside => keeps.complete node (List.mem_of_mem_eraseP (nodes ▸ inside))

theorem updateNode (keeps : tree.KeepsPlaceholders members) {identifier : String} {target : Node}
    (found : tree.node? identifier = some target) {change : Node → Node}
    (same : (change target).identifier = target.identifier)
    (kept : identifier ∈ members → Complete target → Complete (change target)) :
    (tree.updateNode identifier change).KeepsPlaceholders members := by
  have named := (mem_of_node? found).2
  rw [nodes_updateNode found]
  constructor
  · have identifiers := map_updateFirst (node?_identifier found) same
    rw [Tree.identifiers, Tree.updateNode, identifiers]
    exact keeps.present
  · intro node inside member
    rcases mem_or_eq_of_mem_updateFirst inside with inside | rfl
    · exact keeps.complete node inside member
    · rw [same, named] at member
      exact kept member (keeps.node? found member)

theorem updateRegistered (keeps : tree.KeepsPlaceholders members) {identifier : String}
    {target : Node} {kind : Kind} (found : tree.node? identifier = some target)
    (registered : registry.kind? target.kind = some kind) {change : Node → Node}
    (same : (change target).identifier = target.identifier)
    (kept : identifier ∈ members → kind = groupInput → Complete target →
      Complete (change target)) :
    (tree.updateNode identifier change).KeepsPlaceholders members :=
  keeps.updateNode found same fun member complete =>
    kept member (kind_of_complete registered complete) complete

theorem changeSockets (keeps : tree.KeepsPlaceholders members) {identifier : String}
    {target : Node} {kind : Kind} (found : tree.node? identifier = some target)
    (registered : registry.kind? target.kind = some kind) (side : Side)
    {sockets : Node → List Socket}
    (has : side = .output → identifier ∈ members → HasPlaceholder target.outputs →
      HasPlaceholder (sockets target)) :
    (tree.updateNode identifier fun node =>
      kind.socketChanged (node.setSockets side (sockets node))).KeepsPlaceholders members := by
  have same := ((sameNode_registry registered).socketChanged (target.setSockets side
    (sockets target))).1.trans (target.identifier_setSockets side (sockets target))
  refine keeps.updateRegistered found registered same fun member groupInput complete => ?_
  subst groupInput
  cases side with
  | input => exact complete.keepNewParameterLast rfl complete.ends.hasPlaceholder
  | output =>
      exact complete.keepNewParameterLast rfl (has rfl member complete.ends.hasPlaceholder)

theorem addParameter (keeps : tree.KeepsPlaceholders members) (node : String) (type : SocketType)
    (name : String) (value : Value) :
    (tree.updateNode node
      (GroupInput.addParameter · type name value)).KeepsPlaceholders members := by
  cases found : tree.node? node with
  | none => exact keeps.of_nodes (updateFirst_of_none found)
  | some target =>
      exact keeps.updateNode found (identifier_addParameter target type name value)
        fun _ complete => complete.addParameter type name value

theorem absorbInto (keeps : tree.KeepsPlaceholders members) {node : String}
    {targets : List (String × String)} {count : Nat}
    (done : GroupInput.absorbInto node stamp targets tree = .ok (count, changed)) :
    changed.KeepsPlaceholders members := by
  induction targets generalizing tree count with
  | nil =>
      simp only [GroupInput.absorbInto, Except.ok.injEq, Prod.mk.injEq] at done
      exact done.2 ▸ keeps
  | cons target rest ih =>
      obtain ⟨toNode, toSocket⟩ := target
      simp only [GroupInput.absorbInto] at done
      split at done
      · exact ih (keeps.of_nodes (nodes_unlink toNode toSocket stamp)) done
      · rename_i parameter _
        simp only [bind_eq_ok, pure_eq_ok, Prod.mk.injEq] at done
        obtain ⟨group, -, linked, link, ⟨_, last⟩, absorbed, -, rfl⟩ := done
        have extended := keeps.addParameter node parameter.type parameter.name parameter.value
        obtain ⟨_, _, -, -, -, -, same⟩ := link_eq_ok.mp link
        exact ih (extended.of_nodes (by rw [same]; rfl)) absorbed

end KeepsPlaceholders

end Tree

namespace Change

def lineage (members : List String) : Change → List String
  | edit (.duplicateNode source fresh) => if source ∈ members then fresh :: members else members
  | _ => members

/-- Whether the change spares the new-parameter sockets of nodes: it brings in other nodes under new
identifiers only, and removes neither one of the nodes nor the socket. -/
def Spares (tree : Tree) (members : List String) : Change → Prop
  | edit (.newNode _ fresh) | edit (.duplicateNode _ fresh) => fresh ∉ tree.identifiers
  | edit (.addNode node) => node.identifier ∉ tree.identifiers
  | edit (.removeNode node) => node ∉ members
  | edit (.removeSocket node socket .output) => node ∈ members → socket ≠ newParameterSocket
  | _ => True

end Change

namespace Tree.KeepsPlaceholders

variable {tree changed : Tree} {members : List String} {stamp : Stamp}

theorem duplicate (keeps : tree.KeepsPlaceholders members) {source fresh : String}
    {original : Node} {kind : Kind} (new : fresh ∉ tree.identifiers)
    (found : tree.node? source = some original)
    (registered : registry.kind? original.kind = some kind) (stamp : Stamp) :
    (tree.addNode (kind.duplicate { original with identifier := fresh, inInvalidNetwork := false }
      original) stamp).KeepsPlaceholders
        ((Change.edit (.duplicateNode source fresh)).lineage members) := by
  rw [duplicate_of_mem (Registry.mem_of_kind?_ofKinds registered).1, Change.lineage]
  split
  · rename_i member
    have complete := keeps.node? found member
    have copied : Complete { original with identifier := fresh, inInvalidNetwork := false } :=
      ⟨complete.kind, complete.ends⟩
    exact keeps.appendMember new copied rfl
  · exact keeps.append new rfl

/-- An edit that is made keeps the nodes complete. -/
theorem edit (keeps : tree.KeepsPlaceholders members) {edit : Edit} {result : EditResult}
    (spares : (Change.edit edit).Spares tree members)
    (done : edit.apply registry stamp tree = .ok (result, changed)) :
    changed.KeepsPlaceholders ((Change.edit edit).lineage members) := by
  cases edit with
  | newNode kind fresh =>
      obtain ⟨k, registered, -, rfl⟩ := Edit.newNode_eq_ok.mp done
      have same := ((sameNode_registry registered).create (Node.ofKind fresh kind)).1
      exact keeps.append (same ▸ spares) rfl
  | addNode node =>
      obtain ⟨-, rfl⟩ := Edit.addNode_eq_ok.mp done
      exact keeps.append spares rfl
  | duplicateNode source fresh =>
      obtain ⟨_, _, found, registered, _, rfl, -, rfl⟩ := Edit.duplicateNode_eq_ok.mp done
      exact keeps.duplicate spares found registered stamp
  | removeNode node =>
      obtain ⟨_, -, -, rfl⟩ := Edit.removeNode_eq_ok.mp done
      exact keeps.removeNode spares rfl
  | link new =>
      obtain ⟨_, _, -, -, -, -, rfl⟩ := Tree.link_eq_ok.mp (Edit.link_eq_ok.mp done).2
      exact keeps.of_nodes rfl
  | unlink node socket =>
      obtain ⟨-, rfl⟩ := Edit.unlink_eq_ok.mp done
      exact keeps.of_nodes (nodes_unlink node socket stamp)
  | prune =>
      obtain ⟨-, rfl⟩ := Edit.prune_eq_ok.mp done
      exact keeps.of_nodes (nodes_prune tree stamp)
  | setProperty node property value =>
      obtain ⟨target, _, found, registered, -, rfl⟩ := Edit.setProperty_eq_ok.mp done
      have same := ((sameNode_registry registered).propertyChanged
        (target.setProperty property value) property).1
      refine (keeps.updateRegistered found registered same ?_).of_nodes rfl
      rintro - rfl complete
      exact ⟨complete.kind, complete.ends⟩
  | editNode node =>
      obtain ⟨target, _, found, registered, -, rfl⟩ := Edit.editNode_eq_ok.mp done
      have same := ((sameNode_registry registered).edit target).1
      refine (keeps.updateRegistered found registered same ?_).of_nodes rfl
      rintro - rfl complete
      exact complete
  | removeSocket node socket side =>
      obtain ⟨_, _, _, found, registered, -, -, rfl⟩ := Edit.removeSocket_eq_ok.mp done
      refine (keeps.changeSockets found registered side ?_).of_nodes rfl
      rintro rfl member has
      exact has.eraseP (spares member)
  | moveSocket node socket side index =>
      obtain ⟨_, _, _, found, registered, inside, -, rfl⟩ := Edit.moveSocket_eq_ok.mp done
      refine (keeps.changeSockets found registered side ?_).of_nodes rfl
      rintro rfl - has
      exact has.perm (Node.perm_move inside index).symm
  | absorbParameters node =>
      obtain ⟨_, _, -, -, absorbed⟩ := Edit.absorbParameters_eq_ok.mp done
      exact keeps.absorbInto absorbed

theorem exists_duplicate (keeps : tree.KeepsPlaceholders members) {source : String}
    (member : source ∈ members) (fresh : String) (stamp : Stamp) :
    ∃ outcome, (Edit.duplicateNode source fresh).apply registry stamp tree = .ok outcome := by
  obtain ⟨node, found⟩ := exists_node? (keeps.present member)
  have registered := exists_kind_of_complete (keeps.node? found member)
  exact ⟨_, Edit.duplicateNode_eq_ok.mpr ⟨node, _, found, registered, _, rfl, rfl, rfl⟩⟩

theorem change (keeps : tree.KeepsPlaceholders members) {change : Change}
    (spares : change.Spares tree members) (stamp : Stamp) :
    (change.apply registry stamp tree).KeepsPlaceholders (change.lineage members) := by
  cases change with
  | newParameter node type name value => exact keeps.addParameter node type name value
  | edit edit =>
      cases done : edit.apply registry stamp tree with
      | ok outcome =>
          simp only [Change.apply, done]
          exact keeps.edit spares done
      | error error =>
          simp only [Change.apply, done]
          cases edit with
          | duplicateNode source fresh =>
              have other : source ∉ members := by
                intro member
                obtain ⟨outcome, made⟩ := keeps.exists_duplicate member fresh stamp
                rw [done] at made
                contradiction
              rwa [Change.lineage, if_neg other]
          | _ => exact keeps

end Tree.KeepsPlaceholders

namespace Tree

/-- The trees that come of one in which a group input has been made, each with the identifiers of
the node and its duplicates. -/
inductive Descent (before : Tree) (fresh : String) : Tree → List String → Prop
  | created {tree : Tree} {identifier : String} {stamp : Stamp}
      (new : fresh ∉ before.identifiers)
      (made : before.newNode registry groupInput.declaration.idName fresh stamp =
        .ok (identifier, tree)) :
      Descent before fresh tree [fresh]
  | change {tree : Tree} {members : List String} (descent : Descent before fresh tree members)
      (change : Change) (stamp : Stamp) (spares : change.Spares tree members) :
      Descent before fresh (change.apply registry stamp tree) (change.lineage members)

variable {before tree : Tree} {fresh : String} {members : List String}

theorem Descent.keepsPlaceholders (descent : Descent before fresh tree members) :
    tree.KeepsPlaceholders members := by
  induction descent with
  | created new made =>
      obtain ⟨kind, registered, -, rfl⟩ := newNode_eq_ok.mp made
      obtain rfl := kind_of_complete registered (complete_create fresh)
      have none : before.KeepsPlaceholders [] :=
        ⟨List.nil_subset _, fun _ _ inside => absurd inside List.not_mem_nil⟩
      exact none.appendMember new (complete_create fresh) rfl
  | change descent change stamp spares keeps => exact keeps.change spares stamp

theorem Descent.mem (descent : Descent before fresh tree members) : fresh ∈ members := by
  induction descent with
  | created new made => exact List.mem_cons_self
  | change descent change stamp spares member =>
      cases change with
      | newParameter => exact member
      | edit edit =>
          cases edit with
          | duplicateNode source copy =>
              rw [Change.lineage]
              split
              · exact List.mem_cons_of_mem _ member
              · exact member
          | _ => exact member

/-- A group input and its duplicates are there after all changes that spare them and their
new-parameter sockets, and each has the socket as its last output. -/
theorem Descent.endsInPlaceholder (descent : Descent before fresh tree members) :
    fresh ∈ members ∧
      (∀ identifier ∈ members, ∃ node ∈ tree.nodes, node.identifier = identifier) ∧
      ∀ node ∈ tree.nodes, node.identifier ∈ members → EndsInPlaceholder node := by
  have keeps := descent.keepsPlaceholders
  exact ⟨descent.mem, fun _ member => List.mem_map.mp (keeps.present member),
    fun node inside member => (keeps.complete node inside member).ends⟩

def colored : Tree :=
  (Change.edit (.newNode "an_ColorMix" "c")).apply registry ⟨2, ""⟩ (.new "Main" ⟨1, ""⟩)

def grouped : Tree :=
  (Change.edit (.newNode groupInput.declaration.idName "g")).apply registry ⟨3, ""⟩ colored

/-- A parameter is absorbed, the group input duplicated, its new-parameter socket moved to the
front, and the parameter of the duplicate removed. -/
def spared : Tree :=
  [Edit.link ⟨"g", newParameterSocket, "c", "factor"⟩, .absorbParameters "g",
    .duplicateNode "g" "h", .moveSocket "g" newParameterSocket .output 0,
    .removeSocket "h" "parameter" .output].foldl
    (fun tree edit => (Change.edit edit).apply registry ⟨4, ""⟩ tree) grouped

theorem Descent.endsInPlaceholder_spared :
    Descent colored "g" spared ["h", "g"] ∧
      ∀ node ∈ spared.nodes, node.identifier ∈ ["h", "g"] → EndsInPlaceholder node := by
  have created : Descent colored "g" grouped ["g"] := .created (by decide +kernel) rfl
  have linked := created.change (.edit (.link ⟨"g", newParameterSocket, "c", "factor"⟩)) ⟨4, ""⟩
    trivial
  have absorbed := linked.change (.edit (.absorbParameters "g")) ⟨4, ""⟩ trivial
  have unused : "h" ∉ ((Change.edit (.absorbParameters "g")).apply registry ⟨4, ""⟩
      ((Change.edit (.link ⟨"g", newParameterSocket, "c", "factor"⟩)).apply registry ⟨4, ""⟩
        grouped)).identifiers := by
    decide +kernel
  have duplicated := absorbed.change (.edit (.duplicateNode "g" "h")) ⟨4, ""⟩ unused
  have moved := duplicated.change (.edit (.moveSocket "g" newParameterSocket .output 0)) ⟨4, ""⟩
    trivial
  have descent : Descent colored "g" spared ["h", "g"] :=
    moved.change (.edit (.removeSocket "h" "parameter" .output)) ⟨4, ""⟩ fun _ => by decide
  exact ⟨descent, descent.endsInPlaceholder.2.2⟩

/-- A group input is created and its new-parameter socket removed. -/
def emptied : Tree :=
  [Edit.newNode groupInput.declaration.idName "g",
    .removeSocket "g" newParameterSocket .output].foldl
    (fun tree edit => (Change.edit edit).apply registry ⟨2, ""⟩ tree) (.new "Main" ⟨1, ""⟩)

/-- The hook does not bring the socket back. -/
theorem not_endsInPlaceholder_emptied :
    ∃ node, emptied.node? "g" = some node ∧ ¬ EndsInPlaceholder node := by
  have outputs : (emptied.node? "g").map (·.outputs) = some [] := by decide +kernel
  obtain ⟨node, found, none⟩ := Option.map_eq_some_iff.mp outputs
  refine ⟨node, found, ?_⟩
  rintro ⟨parameters, placeholder, outputs, -⟩
  rw [none] at outputs
  exact List.append_ne_nil_of_right_ne_nil _ (List.cons_ne_nil _ _) outputs.symm

end Tree

end FrameGraph
