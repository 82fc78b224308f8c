import FrameGraph.Catalog
import FrameGraph.Proofs.EditHistory
import Mathlib.Tactic.FinCases

/-!
Nodes of the standard kinds. Main statement: in every tree reached by edits, a node whose code
stands inline has no sockets but those that the code is written for, and parameters among its
outputs.
-/

namespace FrameGraph

namespace Node

variable {node : Node}

theorem addInput_eq {socket : Socket} (free : socket.identifier ∉ node.identifiers .input) :
    node.addInput socket = { node with inputs := node.inputs ++ [socket] } := by
  have same : Socket.freeIdentifier node.inputs socket.identifier = socket.identifier :=
    if_neg free
  rw [addInput, addSocket, sockets, same]
  rfl

theorem foldl_addInput_eq {sockets : List Socket}
    (nodup : (node.identifiers .input ++ sockets.map (·.identifier)).Nodup) :
    sockets.foldl Node.addInput node = { node with inputs := node.inputs ++ sockets } := by
  induction sockets generalizing node with
  | nil => rw [List.foldl_nil, List.append_nil]
  | cons socket rest ih =>
      have free : socket.identifier ∉ node.identifiers .input := by
        rw [List.map_cons, List.nodup_middle, List.nodup_cons, List.mem_append, not_or] at nodup
        exact nodup.1.1
      have appended : (node.addInput socket).identifiers .input =
          node.identifiers .input ++ [socket.identifier] := by
        rw [addInput_eq free]
        exact List.map_append
      rw [List.map_cons, List.append_cons, ← appended] at nodup
      rw [List.foldl_cons, ih nodup, addInput_eq free, List.append_assoc, List.singleton_append]

end Node

namespace Catalog

/-- A standard kind whose code stands inline, written for certain sockets. -/
inductive InlineKind
  | groupInput
  | quaternionMath
  | projectPointOnPlane
deriving DecidableEq, Repr

namespace InlineKind

def kind : InlineKind → Kind
  | groupInput => Catalog.groupInput
  | quaternionMath => Catalog.quaternionMath
  | projectPointOnPlane => Catalog.projectPointOnPlane

def idName (inline : InlineKind) : String :=
  inline.kind.declaration.idName

def sockets : InlineKind → Side → List String
  | groupInput, .input => []
  | groupInput, .output => [GroupInput.newParameterSocket]
  | quaternionMath, .input => ["a", "b", "scale", "stepSize"]
  | quaternionMath, .output => ["result"]
  | projectPointOnPlane, .input => ["point", "planePoint", "planeNormal"]
  | projectPointOnPlane, .output => ["projection", "distance"]

theorem idName_injective : Function.Injective idName := by
  intro first second same
  cases first <;> cases second <;> first | rfl | exact absurd same (by decide)

end InlineKind

def IsParameter (identifier : String) : Prop :=
  identifier = "parameter" ∨ ∃ n, identifier = "parameter" ++ "_" ++ Socket.ordinal n

structure Standard (node : Node) : Prop where
  distinct : node.DistinctSockets
  inputs : ∀ kind : InlineKind, node.kind = kind.idName →
    ∀ socket ∈ node.identifiers .input, socket ∈ kind.sockets .input
  outputs : ∀ kind : InlineKind, node.kind = kind.idName →
    ∀ socket ∈ node.identifiers .output, socket ∈ kind.sockets .output ∨ IsParameter socket

variable {node other : Node}

theorem Standard.of_subset (standard : Standard node) (kind : other.kind = node.kind)
    (distinct : other.DistinctSockets)
    (fewer : ∀ side, other.identifiers side ⊆ node.identifiers side) : Standard other where
  distinct := distinct
  inputs inline same socket member :=
    standard.inputs inline (kind.symm.trans same) socket (fewer .input member)
  outputs inline same socket member :=
    standard.outputs inline (kind.symm.trans same) socket (fewer .output member)

theorem Standard.of_identifiers (standard : Standard node) (kind : other.kind = node.kind)
    (same : ∀ side, other.identifiers side = node.identifiers side) : Standard other :=
  standard.of_subset kind (fun side => same side ▸ standard.distinct side) fun side =>
    same side ▸ List.Subset.refl _

theorem Standard.setSockets (standard : Standard node) {side : Side} {sockets : List Socket}
    (less : sockets.Subperm (node.sockets side)) : Standard (node.setSockets side sockets) := by
  obtain ⟨ordered, perm, fewer⟩ := less
  have nodup := (perm.map Socket.identifier).nodup_iff.mp
    ((fewer.map Socket.identifier).nodup (standard.distinct side))
  refine standard.of_subset (by cases side <;> rfl) (standard.distinct.setSockets nodup) ?_
  intro other
  by_cases same : other = side
  · subst same
    rw [Node.identifiers_setSockets]
    exact List.Subset.trans (perm.map Socket.identifier).symm.subset
      (fewer.map Socket.identifier).subset
  · rw [Node.identifiers_setSockets_of_ne same]
    exact fun _ => id

theorem Standard.keepNewParameterLast (standard : Standard node) :
    Standard (GroupInput.keepNewParameterLast node) :=
  standard.of_subset (GroupInput.kind_keepNewParameterLast node)
    (GroupInput.distinctSockets_keepNewParameterLast standard.distinct)
    fun side => (GroupInput.perm_identifiers_keepNewParameterLast node side).subset

theorem Standard.addParameter (standard : Standard node) (type : SocketType) (name : String)
    (value : Value) : Standard (GroupInput.addParameter node type name value) := by
  apply Standard.keepNewParameterLast
  refine ⟨standard.distinct.addSocket .output _, ?_, ?_⟩
  · intro kind same socket member
    exact standard.inputs kind same socket member
  · intro kind same socket member
    rw [Node.addOutput, Node.identifiers_addSocket, List.mem_append, List.mem_singleton] at member
    rcases member with member | rfl
    · exact standard.outputs kind same socket member
    · exact .inr (Socket.freeIdentifier_spec (node.sockets .output) "parameter").2

/-! Inputs declared for an operation. -/

theorem nodup_inputs (operation : QuaternionOperation) :
    (operation.inputs.map (·.identifier)).Nodup := by
  cases operation <;> decide

theorem inputs_subset (operation : QuaternionOperation) :
    operation.inputs.map (·.identifier) ⊆ InlineKind.quaternionMath.sockets .input := by
  cases operation <;> decide

@[simp] theorem identifier_keepValue (previous : List Socket) (socket : Socket) :
    (keepValue previous socket).identifier = socket.identifier := by
  unfold keepValue
  split <;> rfl

theorem identifiers_keptInputs (previous : List Socket) (operation : QuaternionOperation) :
    (operation.inputs.map (keepValue previous)).map (·.identifier) =
      operation.inputs.map (·.identifier) := by
  simp [Function.comp_def]

theorem rebuildInputs_eq (node : Node) :
    rebuildInputs node =
      { node with inputs := (quaternionOperation node).inputs.map (keepValue node.inputs) } := by
  refine Node.foldl_addInput_eq ?_
  rw [identifiers_keptInputs]
  exact nodup_inputs _

theorem identifiers_rebuildInputs (node : Node) :
    (rebuildInputs node).identifiers .input =
      (quaternionOperation node).inputs.map (·.identifier) := by
  rw [rebuildInputs_eq]
  exact identifiers_keptInputs node.inputs _

theorem identifiers_output_rebuildInputs (node : Node) :
    (rebuildInputs node).identifiers .output = node.identifiers .output := by
  rw [rebuildInputs_eq]
  rfl

theorem kind_rebuildInputs (node : Node) : (rebuildInputs node).kind = node.kind := by
  rw [rebuildInputs_eq]

theorem Standard.rebuildInputs (standard : Standard node)
    (kind : node.kind = InlineKind.quaternionMath.idName) : Standard (rebuildInputs node) := by
  refine ⟨fun side => ?_, ?_, ?_⟩
  · cases side with
    | input => exact identifiers_rebuildInputs node ▸ nodup_inputs _
    | output => exact identifiers_output_rebuildInputs node ▸ standard.distinct .output
  · intro inline same socket member
    rw [kind_rebuildInputs, kind] at same
    obtain rfl := InlineKind.idName_injective same
    rw [identifiers_rebuildInputs] at member
    exact inputs_subset _ member
  · intro inline same socket member
    rw [kind_rebuildInputs] at same
    rw [identifiers_output_rebuildInputs] at member
    exact standard.outputs inline same socket member

/-! The hooks of the standard kinds. -/

variable {kind : Kind}

theorem edit_of_mem (member : kind ∈ kinds) : kind.edit = id := by
  fin_cases member <;> rfl

theorem duplicate_of_mem (member : kind ∈ kinds) : kind.duplicate = fun copy _ => copy := by
  fin_cases member <;> rfl

theorem socketChanged_of_mem (member : kind ∈ kinds) :
    kind.socketChanged = id ∨ kind.socketChanged = GroupInput.keepNewParameterLast := by
  fin_cases member <;> first | exact .inl rfl | exact .inr rfl

theorem propertyChanged_of_mem (member : kind ∈ kinds) :
    kind.propertyChanged = (fun node _ => node) ∨ kind = quaternionMath := by
  fin_cases member <;> first | exact .inl rfl | exact .inr rfl

theorem kind_create (member : kind ∈ kinds) (fresh name : String) :
    (kind.create (Node.ofKind fresh name)).kind = name := by
  fin_cases member <;> rfl

/-- The sockets declared depend on the kind alone. -/
theorem identifiers_create (member : kind ∈ kinds) (fresh name : String) (side : Side) :
    (kind.create (Node.ofKind fresh name)).identifiers side =
      (kind.create (Node.ofKind "" "")).identifiers side := by
  fin_cases member <;> cases side <;> rfl

theorem nodup_create (member : kind ∈ kinds) (side : Side) :
    ((kind.create (Node.ofKind "" "")).identifiers side).Nodup := by
  fin_cases member <;> cases side <;> decide

theorem identifiers_create_subset (member : kind ∈ kinds) {inline : InlineKind}
    (same : kind.declaration.idName = inline.idName) (side : Side) :
    (kind.create (Node.ofKind "" "")).identifiers side ⊆ inline.sockets side := by
  fin_cases member <;> cases inline <;> first
    | exact absurd same (by decide)
    | cases side <;> decide

theorem standard_create (member : kind ∈ kinds) (fresh : String) :
    Standard (kind.create (Node.ofKind fresh kind.declaration.idName)) where
  distinct side := by
    rw [identifiers_create member]
    exact nodup_create member side
  inputs inline same socket inside := by
    rw [kind_create member] at same
    rw [identifiers_create member] at inside
    exact identifiers_create_subset member same .input inside
  outputs inline same socket inside := by
    rw [kind_create member] at same
    rw [identifiers_create member] at inside
    exact .inl (identifiers_create_subset member same .output inside)

theorem keeps_standard : registry.Keeps Standard where
  created found fresh := by
    obtain ⟨member, rfl⟩ := Registry.mem_of_kind?_ofKinds found
    exact standard_create member fresh
  copied found kept fresh := by
    rw [duplicate_of_mem (Registry.mem_of_kind?_ofKinds found).1]
    exact kept.of_identifiers rfl fun side => by cases side <;> rfl
  propertySet {kind node} found kept property value := by
    obtain ⟨member, named⟩ := Registry.mem_of_kind?_ofKinds found
    have same : Standard (node.setProperty property value) :=
      kept.of_identifiers rfl fun side => by cases side <;> rfl
    rcases propertyChanged_of_mem member with unchanged | rfl
    · rw [unchanged]
      exact same
    · simp only [quaternionMath]
      split
      · exact same.rebuildInputs named.symm
      · exact same
  edited found kept := by
    rw [edit_of_mem (Registry.mem_of_kind?_ofKinds found).1]
    exact kept
  socketsChanged found kept side sockets less := by
    rcases socketChanged_of_mem (Registry.mem_of_kind?_ofKinds found).1 with unchanged | last
    · rw [unchanged]
      exact kept.setSockets less
    · rw [last]
      exact (kept.setSockets less).keepNewParameterLast
  parameterAdded kept type name value := kept.addParameter type name value

theorem standard_of_reachable {rules : EditRules} {tree : Tree}
    (reached : tree.Reachable registry rules) : ∀ node ∈ tree.nodes, Standard node :=
  reached.keeps (fun _ _ _ member => absurd member List.not_mem_nil) fun _ _ =>
    Tree.step_forall_nodes keeps_standard

end Catalog

end FrameGraph
