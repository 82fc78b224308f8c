import FrameGraph.Node
import FrameGraph.Variables
import Mathlib.Data.List.Nodup
import Mathlib.Data.Nat.Find

/-!
Looking for a name that is not taken. Main statement: among numbered candidates the search ends at
the first that is free, and there is one.
-/

namespace FrameGraph

theorem exists_free {candidate : Nat → String} (injective : Function.Injective candidate)
    (taken : List String) (start : Nat) : ∃ i ≤ taken.length, candidate (start + i) ∉ taken := by
  by_contra none
  simp only [not_exists, not_and, not_not] at none
  let candidates := (List.range (taken.length + 1)).map fun i => candidate (start + i)
  have distinct : candidates.Nodup := by
    refine List.nodup_range.map fun i j same => ?_
    have := injective same
    omega
  have inside : candidates ⊆ taken := by
    intro name member
    obtain ⟨i, below, rfl⟩ := List.mem_map.mp member
    have := List.mem_range.mp below
    exact none i (by omega)
  have bounded := distinct.length_le_of_subset inside
  simp only [candidates, List.length_map, List.length_range] at bounded
  omega

/-- The first candidate from `start` on that is not taken, if it is among the next `fuel`. -/
def firstFree (taken : List String) (candidate : Nat → String) : Nat → Nat → String
  | 0, start => candidate start
  | fuel + 1, start =>
    if candidate start ∈ taken then firstFree taken candidate fuel (start + 1) else candidate start

theorem firstFree_eq {taken : List String} {candidate : Nat → String} {i fuel start : Nat}
    (bounded : i ≤ fuel) (free : candidate (start + i) ∉ taken)
    (least : ∀ j < i, candidate (start + j) ∈ taken) :
    firstFree taken candidate fuel start = candidate (start + i) := by
  induction i generalizing fuel start with
  | zero =>
      cases fuel with
      | zero => rfl
      | succ fuel => exact if_neg free
  | succ i ih =>
      cases fuel with
      | zero => omega
      | succ fuel =>
          have next : start + 1 + i = start + (i + 1) := by omega
          have head : candidate start ∈ taken := least 0 (by omega)
          rw [firstFree, if_pos head, ← next]
          refine ih (by omega) (next ▸ free) fun j below => ?_
          have later := least (j + 1) (by omega)
          rwa [show start + 1 + j = start + (j + 1) by omega]

/-- With as many steps as there are taken names the search finds the first free candidate. -/
theorem firstFree_spec {candidate : Nat → String} (injective : Function.Injective candidate)
    (taken : List String) (start : Nat) :
    ∃ i ≤ taken.length, firstFree taken candidate taken.length start = candidate (start + i) ∧
      candidate (start + i) ∉ taken ∧ ∀ j < i, candidate (start + j) ∈ taken := by
  have found : ∃ i, candidate (start + i) ∉ taken := by
    obtain ⟨i, -, free⟩ := exists_free injective taken start
    exact ⟨i, free⟩
  have least : ∀ j < Nat.find found, candidate (start + j) ∈ taken := by
    intro j below
    exact not_not.mp (Nat.find_min found below)
  have bounded : Nat.find found ≤ taken.length := by
    obtain ⟨i, small, free⟩ := exists_free injective taken start
    exact Nat.le_trans (Nat.find_min' found free) small
  exact ⟨Nat.find found, bounded, firstFree_eq bounded (Nat.find_spec found) least,
    Nat.find_spec found, least⟩

/-! The candidates for variables. -/

namespace Variables

def candidate (name : String) : Nat → String
  | 0 => name
  | n + 1 => name ++ "_" ++ toString (n + 1)

theorem freeNumbered_eq (used : List String) (name : String) (fuel n : Nat) :
    freeNumbered used name fuel n =
      firstFree used (fun n => name ++ "_" ++ toString n) fuel n := by
  induction fuel generalizing n with
  | zero => rfl
  | succ fuel ih => simp only [freeNumbered, firstFree, ih]

theorem numbered_injective (name : String) :
    Function.Injective fun n : Nat => name ++ "_" ++ toString n := by
  intro m n same
  have digits := congrArg String.toList ((String.append_right_inj _).mp same)
  simp only [Nat.toString_eq_repr, Nat.toList_repr] at digits
  rw [← Nat.ofDigitChars_ten_toDigits (n := m), digits, Nat.ofDigitChars_ten_toDigits]

/-- The search for a free name ends, at the first candidate that is not in use. -/
theorem freeName_spec (used : List String) (name : String) :
    ∃ n ≤ used.length + 1, freeName used name = candidate name n ∧ candidate name n ∉ used ∧
      ∀ m < n, candidate name m ∈ used := by
  by_cases taken : name ∈ used
  · obtain ⟨i, bounded, found, free, least⟩ := firstFree_spec (numbered_injective name) used 1
    have shift : 1 + i = i + 1 := Nat.add_comm 1 i
    refine ⟨i + 1, by omega, ?_, ?_, ?_⟩
    · rw [freeName, if_pos taken, freeNumbered_eq, found, shift]
      rfl
    · rwa [shift] at free
    · intro m below
      cases m with
      | zero => exact taken
      | succ m =>
          have earlier := least m (by omega)
          rwa [Nat.add_comm 1 m] at earlier
  · exact ⟨0, by omega, if_neg taken, taken, by omega⟩

theorem freeName_not_mem (used : List String) (name : String) : freeName used name ∉ used := by
  obtain ⟨n, -, found, free, -⟩ := freeName_spec used name
  exact found ▸ free

end Variables

/-! The candidates for socket identifiers. -/

namespace Socket

theorem freeNumbered_eq (taken : List String) (identifier : String) (fuel n : Nat) :
    freeNumbered taken identifier fuel n =
      firstFree taken (fun n => identifier ++ "_" ++ ordinal n) fuel n := by
  induction fuel generalizing n with
  | zero => rfl
  | succ fuel ih => simp only [freeNumbered, firstFree, ih]

theorem ofDigitChars_zeros (count : Nat) : Nat.ofDigitChars 10 (List.replicate count '0') 0 = 0 := by
  induction count with
  | zero => rfl
  | succ count ih => simp [List.replicate_succ, Nat.ofDigitChars_cons, ih]

theorem ofDigitChars_ordinal (n : Nat) : Nat.ofDigitChars 10 (ordinal n).toList 0 = n := by
  have digits : (toString n).toList = Nat.toDigits 10 n := by
    rw [Nat.toString_eq_repr, Nat.toList_repr]
  rw [ordinal, String.toList_ofList, Nat.ofDigitChars_append, ofDigitChars_zeros, digits,
    Nat.ofDigitChars_ten_toDigits]

theorem numbered_injective (identifier : String) :
    Function.Injective fun n => identifier ++ "_" ++ ordinal n := by
  intro m n same
  have ordinals : ordinal m = ordinal n := (String.append_right_inj _).mp same
  rw [← ofDigitChars_ordinal m, ordinals, ofDigitChars_ordinal]

/-- The identifier of a socket that is appended is free; it is the one asked for, or that with a
number. -/
theorem freeIdentifier_spec (sockets : List Socket) (identifier : String) :
    freeIdentifier sockets identifier ∉ sockets.map (·.identifier) ∧
      (freeIdentifier sockets identifier = identifier ∨
        ∃ n, freeIdentifier sockets identifier = identifier ++ "_" ++ ordinal n) := by
  unfold freeIdentifier
  simp only
  split
  · obtain ⟨i, -, found, free, -⟩ :=
      firstFree_spec (numbered_injective identifier) (sockets.map (·.identifier)) 1
    rw [List.length_map] at found
    rw [freeNumbered_eq, found]
    exact ⟨free, .inr ⟨1 + i, rfl⟩⟩
  · rename_i free
    exact ⟨free, .inl rfl⟩

end Socket

end FrameGraph
