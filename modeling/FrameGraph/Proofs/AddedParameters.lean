import FrameGraph.Proofs.StandardNodes

/-!
Parameters added to a node. Main statements: a parameter comes behind the other parameters and in
front of the new-parameter socket, under an identifier of its own; those of a new group input are
numbered in order.
-/

namespace FrameGraph

namespace Socket

def numbered (identifier : String) : Nat → String
  | 0 => identifier
  | n + 1 => identifier ++ "_" ++ ordinal (n + 1)

theorem numbered_inj {identifier : String} {m n : Nat} :
    numbered identifier m = numbered identifier n ↔ m = n := by
  have longer (n : Nat) : identifier ≠ numbered identifier (n + 1) := by
    intro same
    have lengths := congrArg String.length same
    simp only [numbered, String.length_append] at lengths
    have : "_".length = 1 := rfl
    omega
  cases m with
  | zero =>
      cases n with
      | zero => exact iff_of_true rfl rfl
      | succ n => exact iff_of_false (longer n) (Nat.zero_ne_add_one n)
  | succ m =>
      cases n with
      | zero => exact iff_of_false (longer m).symm (Nat.add_one_ne_zero m)
      | succ n => exact (numbered_injective identifier).eq_iff

/-- The identifier of a socket that is appended is the first of those tried that no socket has. -/
theorem freeIdentifier_eq_numbered {sockets : List Socket} {identifier : String} {count : Nat}
    (taken : ∀ i < count, numbered identifier i ∈ sockets.map (·.identifier))
    (free : numbered identifier count ∉ sockets.map (·.identifier)) :
    freeIdentifier sockets identifier = numbered identifier count := by
  unfold freeIdentifier
  simp only
  cases count with
  | zero => exact if_neg free
  | succ count =>
      obtain ⟨i, -, found, unused, least⟩ :=
        firstFree_spec (numbered_injective identifier) (sockets.map (·.identifier)) 1
      have shift (j : Nat) :
          numbered identifier (j + 1) = identifier ++ "_" ++ ordinal (1 + j) := by
        rw [Nat.add_comm 1 j, numbered]
      have notBelow : ¬ i < count := fun below => unused (shift i ▸ taken (i + 1) (by omega))
      have notAbove : ¬ count < i := fun above => free (shift count ▸ least count above)
      obtain rfl : i = count := by omega
      have first : identifier ∈ sockets.map (·.identifier) := taken 0 (Nat.zero_lt_succ i)
      rw [List.length_map] at found
      rw [if_pos first, freeNumbered_eq, found, shift]

theorem eraseP_eq_filter {sockets : List Socket} (nodup : (sockets.map (·.identifier)).Nodup)
    (identifier : String) :
    sockets.eraseP (·.identifier = identifier) = sockets.filter (·.identifier ≠ identifier) := by
  induction sockets with
  | nil => rfl
  | cons first rest ih =>
      rw [List.map_cons, List.nodup_cons] at nodup
      by_cases named : first.identifier = identifier
      · subst named
        have others : ∀ socket ∈ rest, decide (socket.identifier ≠ first.identifier) = true := by
          intro socket member
          exact decide_eq_true fun same => nodup.1 (same ▸ List.mem_map_of_mem member)
        rw [List.eraseP_cons_of_pos (by simp), List.filter_cons_of_neg (by simp),
          List.filter_eq_self.mpr others]
      · rw [List.eraseP_cons_of_neg (by simpa using named),
          List.filter_cons_of_pos (by simpa using named), ih nodup.2]

end Socket

namespace Catalog

theorem isParameter_numbered (index : Nat) : IsParameter (Socket.numbered "parameter" index) := by
  cases index with
  | zero => exact .inl rfl
  | succ n => exact .inr ⟨n + 1, rfl⟩

/-- Parameters start with another letter than the new-parameter socket and the node itself. -/
theorem IsParameter.head? {identifier : String} (parameter : IsParameter identifier) :
    identifier.toList.head? = some 'p' := by
  rcases parameter with rfl | ⟨n, rfl⟩
  · rfl
  · rw [String.toList_append, String.toList_append, List.head?_append, List.head?_append]
    rfl

theorem IsParameter.ne_newParameterSocket {identifier : String}
    (parameter : IsParameter identifier) : identifier ≠ GroupInput.newParameterSocket := by
  rintro rfl
  exact absurd parameter.head? (by decide)

namespace GroupInput

variable {node : Node}

theorem isParameter_nextParameter (node : Node) : IsParameter (nextParameter node) :=
  (Socket.freeIdentifier_spec node.outputs "parameter").2

theorem nextParameter_not_mem (node : Node) :
    nextParameter node ∉ node.outputs.map (·.identifier) :=
  (Socket.freeIdentifier_spec node.outputs "parameter").1

theorem nextParameter_mem (node : Node) (type : SocketType) (name : String) (value : Value) :
    nextParameter node ∈ (addParameter node type name value).outputs.map (·.identifier) := by
  refine ((perm_outputs_keepNewParameterLast _).map _).mem_iff.mpr ?_
  have appended := node.identifiers_addSocket .output ⟨name, "parameter", type, value⟩
  change nextParameter node ∈ (node.addSocket .output _).identifiers .output
  rw [appended]
  exact List.mem_append_right _ List.mem_cons_self

theorem inputs_addParameter (node : Node) (type : SocketType) (name : String) (value : Value) :
    (addParameter node type name value).inputs = node.inputs :=
  inputs_keepNewParameterLast _

theorem addParameter_eq (node : Node) (type : SocketType) (name : String) (value : Value) :
    addParameter node type name value =
      { node with outputs := (addParameter node type name value).outputs } := by
  unfold addParameter keepNewParameterLast
  split <;> rfl

theorem outputs_addParameter (nodup : (node.outputs.map (·.identifier)).Nodup) (type : SocketType)
    (name : String) (value : Value) :
    (addParameter node type name value).outputs =
      parameters node ++ ⟨name, nextParameter node, type, value⟩ ::
        (Socket.find? node.outputs newParameterSocket).toList := by
  let added : Socket := ⟨name, nextParameter node, type, value⟩
  have other : added.identifier ≠ newParameterSocket :=
    (isParameter_nextParameter node).ne_newParameterSocket
  have appended : (node.addOutput ⟨name, "parameter", type, value⟩).outputs =
      node.outputs ++ [added] := rfl
  have found : Socket.find? (node.outputs ++ [added]) newParameterSocket =
      Socket.find? node.outputs newParameterSocket := by
    simp [Socket.find?, List.find?_append, other]
  have distinct : ((node.outputs ++ [added]).map (·.identifier)).Nodup := by
    rw [List.map_append, List.map_singleton]
    exact nodup.append (List.nodup_singleton _)
      (List.disjoint_singleton.mpr (nextParameter_not_mem node))
  have others : (node.outputs ++ [added]).filter (·.identifier ≠ newParameterSocket) =
      parameters node ++ [added] := by
    rw [List.filter_append, parameters, List.filter_singleton, decide_eq_true other, cond_true]
  rw [addParameter, keepNewParameterLast, appended, found]
  cases last : Socket.find? node.outputs newParameterSocket with
  | some socket =>
      simp only [Socket.eraseP_eq_filter distinct, others, Option.toList_some]
      rw [List.append_assoc, List.singleton_append]
  | none =>
      have absent : ∀ socket ∈ node.outputs, decide (socket.identifier ≠ newParameterSocket) := by
        simpa [Socket.find?] using last
      simp only [appended, parameters, List.filter_eq_self.mpr absent, Option.toList_none]
      rfl

end GroupInput

end Catalog

end FrameGraph
