import FrameGraph.Catalog.GroupInput
import FrameGraph.Kind.Recipe
import FrameGraph.Proofs.FreeNames

/-!
The socket identifiers of nodes. Main statement: they stay distinct on each side when sockets are
appended, cleared, removed or moved.
-/

namespace FrameGraph

theorem perm_cons_eraseP {α : Type} {test : α → Bool} {items : List α} {a : α}
    (found : items.find? test = some a) : (a :: items.eraseP test).Perm items := by
  induction items with
  | nil => cases found
  | cons first rest ih =>
      cases hit : test first with
      | true =>
          rw [List.find?_cons_of_pos hit] at found
          rw [List.eraseP_cons_of_pos hit, Option.some.inj found]
      | false =>
          have miss : ¬ test first = true := by rw [hit]; exact Bool.false_ne_true
          rw [List.find?_cons_of_neg miss] at found
          rw [List.eraseP_cons_of_neg miss]
          exact (List.Perm.swap first a _).trans ((ih found).cons first)

namespace Node

def identifiers (node : Node) (side : Side) : List String :=
  (node.sockets side).map (·.identifier)

def DistinctSockets (node : Node) : Prop :=
  ∀ side, (node.identifiers side).Nodup

variable {node : Node} {side : Side}

@[simp] theorem identifier_setSockets (node : Node) (side : Side) (sockets : List Socket) :
    (node.setSockets side sockets).identifier = node.identifier := by
  cases side <;> rfl

@[simp] theorem setSockets_setSockets (node : Node) (side : Side) (first second : List Socket) :
    (node.setSockets side first).setSockets side second = node.setSockets side second := by
  cases side <;> rfl

@[simp] theorem identifiers_setSockets (node : Node) (side : Side) (sockets : List Socket) :
    (node.setSockets side sockets).identifiers side = sockets.map (·.identifier) := by
  rw [identifiers, sockets_setSockets]

theorem identifiers_setSockets_of_ne {other : Side} (different : other ≠ side)
    (sockets : List Socket) :
    (node.setSockets side sockets).identifiers other = node.identifiers other := by
  cases side <;> cases other <;> first | rfl | exact absurd rfl different

theorem DistinctSockets.setSockets (distinct : node.DistinctSockets) {sockets : List Socket}
    (nodup : (sockets.map (·.identifier)).Nodup) :
    (node.setSockets side sockets).DistinctSockets := by
  intro other
  by_cases same : other = side
  · subst same
    rwa [identifiers_setSockets]
  · rw [identifiers_setSockets_of_ne same]
    exact distinct other

theorem DistinctSockets.addSocket (distinct : node.DistinctSockets) (side : Side)
    (socket : Socket) : (node.addSocket side socket).DistinctSockets := by
  refine distinct.setSockets ?_
  have free := (Socket.freeIdentifier_spec (node.sockets side) socket.identifier).1
  rw [List.map_append, List.map_singleton]
  exact (distinct side).append (List.nodup_singleton _)
    (List.disjoint_singleton.mpr free)

theorem identifiers_addSocket (node : Node) (side : Side) (socket : Socket) :
    (node.addSocket side socket).identifiers side =
      node.identifiers side ++ [node.nextIdentifier side socket.identifier] := by
  rw [addSocket, identifiers_setSockets, List.map_append]
  rfl

theorem identifiers_addSocket_of_ne {other : Side} (different : other ≠ side) (socket : Socket) :
    (node.addSocket side socket).identifiers other = node.identifiers other :=
  identifiers_setSockets_of_ne different _

theorem subset_identifiers_addSocket (node : Node) (side : Side) (socket : Socket) (other : Side) :
    node.identifiers other ⊆ (node.addSocket side socket).identifiers other := by
  by_cases same : other = side
  · subst same
    rw [identifiers_addSocket]
    exact List.subset_append_left _ _
  · rw [identifiers_addSocket_of_ne same]
    exact fun _ => id

theorem distinctSockets_of_nil (inputs : node.inputs = []) (outputs : node.outputs = []) :
    node.DistinctSockets := by
  intro side
  cases side with
  | input => simp [identifiers, sockets, inputs]
  | output => simp [identifiers, sockets, outputs]

theorem perm_move {sockets : List Socket} {socket : String} {moved : Socket}
    (found : Socket.find? sockets socket = some moved) (index : Nat) :
    (((sockets.eraseP (·.identifier = socket)).take index) ++
      moved :: (sockets.eraseP (·.identifier = socket)).drop index).Perm sockets := by
  refine List.perm_middle.trans ?_
  rw [List.take_append_drop]
  exact perm_cons_eraseP found

/-- A node as a hook leaves it that appends or clears sockets and sets the label or properties. -/
def Reworked (node after : Node) : Prop :=
  ∃ (acts : List HookAct) (label : Option String) (properties : Properties),
    after = { HookAct.applyAll acts node with label, properties }

theorem reworked_applyAll (acts : List HookAct) (node : Node) :
    node.Reworked (HookAct.applyAll acts node) :=
  ⟨acts, _, _, rfl⟩

/-- What the acts of a hook keep, whatever they are. -/
theorem applyAll_keeps {P : Node → Prop} (each : ∀ node act, P node → P (HookAct.apply node act))
    (acts : List HookAct) (start : P node) : P (HookAct.applyAll acts node) := by
  induction acts generalizing node with
  | nil => exact start
  | cons act acts ih => exact ih (each node act start)

variable {after : Node}

theorem Reworked.identifier (reworked : node.Reworked after) :
    after.identifier = node.identifier := by
  obtain ⟨acts, label, properties, rfl⟩ := reworked
  refine applyAll_keeps (P := fun other => other.identifier = node.identifier) ?_ acts rfl
  intro other act same
  cases act with
  | addSocket side socket => cases side <;> exact same
  | clearSockets => exact same
  | setLabel label => exact same
  | setProperty name value => exact same

theorem Reworked.distinctSockets (reworked : node.Reworked after)
    (distinct : node.DistinctSockets) : after.DistinctSockets := by
  obtain ⟨acts, label, properties, rfl⟩ := reworked
  have kept : (HookAct.applyAll acts node).DistinctSockets := by
    refine applyAll_keeps (fun other act distinct => ?_) acts distinct
    cases act with
    | addSocket side socket => exact distinct.addSocket side socket
    | clearSockets => exact distinctSockets_of_nil rfl rfl
    | setLabel label => exact distinct
    | setProperty name value => exact distinct
  exact kept

end Node

namespace Catalog.GroupInput

variable {node : Node}

theorem perm_outputs_keepNewParameterLast (node : Node) :
    (keepNewParameterLast node).outputs.Perm node.outputs := by
  unfold keepNewParameterLast
  split
  · rename_i socket found
    exact List.perm_append_comm.trans (perm_cons_eraseP found)
  · exact .refl _

@[simp] theorem inputs_keepNewParameterLast (node : Node) :
    (keepNewParameterLast node).inputs = node.inputs := by
  unfold keepNewParameterLast
  split <;> rfl

@[simp] theorem identifier_keepNewParameterLast (node : Node) :
    (keepNewParameterLast node).identifier = node.identifier := by
  unfold keepNewParameterLast
  split <;> rfl

@[simp] theorem kind_keepNewParameterLast (node : Node) :
    (keepNewParameterLast node).kind = node.kind := by
  unfold keepNewParameterLast
  split <;> rfl

theorem perm_identifiers_keepNewParameterLast (node : Node) (side : Side) :
    ((keepNewParameterLast node).identifiers side).Perm (node.identifiers side) := by
  cases side with
  | input => exact .of_eq (congrArg _ (inputs_keepNewParameterLast node))
  | output => exact (perm_outputs_keepNewParameterLast node).map _

theorem distinctSockets_keepNewParameterLast (distinct : node.DistinctSockets) :
    (keepNewParameterLast node).DistinctSockets := fun side =>
  (perm_identifiers_keepNewParameterLast node side).nodup_iff.mpr (distinct side)

theorem distinctSockets_addParameter (distinct : node.DistinctSockets) (type : SocketType)
    (name : String) (value : Value) : (addParameter node type name value).DistinctSockets :=
  distinctSockets_keepNewParameterLast (distinct.addSocket .output _)

theorem identifier_addParameter (node : Node) (type : SocketType) (name : String) (value : Value) :
    (addParameter node type name value).identifier = node.identifier :=
  identifier_keepNewParameterLast _

theorem subset_identifiers_addParameter (node : Node) (type : SocketType) (name : String)
    (value : Value) (side : Side) :
    node.identifiers side ⊆ (addParameter node type name value).identifiers side := by
  intro socket member
  refine (perm_identifiers_keepNewParameterLast _ side).mem_iff.mpr ?_
  exact node.subset_identifiers_addSocket .output ⟨name, "parameter", type, value⟩ side member

end Catalog.GroupInput

end FrameGraph
