import FrameGraph.Document.Json
import FrameGraph.Proofs.FiniteNumerals
import FrameGraph.Proofs.JsonText
import FrameGraph.Proofs.Outcomes

/-!
Values in JSON. Main statements: a value that is read opens no more arrays and objects than it may
and has finite floats, and such a value is read back if the digits of its floats are.
-/

namespace FrameGraph

namespace Binary64

/-- Whether the shortest digits of the number are read as the number. -/
def ReadsBack (x : Binary64) : Prop :=
  (jsonLayout.ofBinary64 x).toBinary64? = some x

instance (x : Binary64) : Decidable x.ReadsBack :=
  inferInstanceAs (Decidable (_ = _))

theorem isFinite_of_float? {json : Json} {x : Binary64} (read : json.float? = some x) :
    x.isFinite := by
  unfold Json.float? at read
  split at read
  · exact Numeral.isFinite_of_toBinary64? read
  · contradiction

theorem float?_toJson {x : Binary64} (finite : x.isFinite) (back : x.ReadsBack) :
    x.toJson.float? = some x := by
  rw [toJson, if_pos finite]
  exact back

theorem wellFormed_toJson (x : Binary64) : x.toJson.WellFormed := by
  unfold toJson
  split
  · exact .number (jsonLayout.allowed_ofBinary64 x)
  · exact .null

end Binary64

namespace Value

mutual

def levels : Value → Nat
  | .none => 0
  | .float _ | .integer _ | .boolean _ | .string _ => 1
  | .vector .. | .euler .. | .quaternion .. | .color .. => 2
  | .list items => listLevels items + 2

def listLevels : List Value → Nat
  | [] => 0
  | item :: items => max item.levels (listLevels items)

end

mutual

def floats : Value → List Binary64
  | .none | .integer _ | .boolean _ | .string _ => []
  | .float x => [x]
  | .vector x y z | .euler x y z => [x, y, z]
  | .quaternion x y z w | .color x y z w => [x, y, z, w]
  | .list items => listFloats items

def listFloats : List Value → List Binary64
  | [] => []
  | item :: items => item.floats ++ listFloats items

end

theorem listLevels_le {items : List Value} {depth : Nat}
    (each : ∀ item ∈ items, item.levels ≤ depth) : listLevels items ≤ depth := by
  induction items with
  | nil => exact Nat.zero_le _
  | cons item items ih =>
      rw [List.forall_mem_cons] at each
      exact Nat.max_le.mpr ⟨each.1, ih each.2⟩

theorem mem_listFloats {items : List Value} {x : Binary64} :
    x ∈ listFloats items ↔ ∃ item ∈ items, x ∈ item.floats := by
  induction items with
  | nil => simp [listFloats]
  | cons item items ih => simp [listFloats, ih]

/-- A value that opens at most the given number of arrays and objects at once, and whose floats JSON
has numerals for. -/
structure Fits (depth : Nat) (value : Value) : Prop where
  shallow : value.levels ≤ depth
  finite : ∀ x ∈ value.floats, x.isFinite

theorem fits_list {items : List Value} {depth : Nat} (each : ∀ item ∈ items, item.Fits depth) :
    (list items).Fits (depth + 2) where
  shallow := Nat.add_le_add_right (listLevels_le fun item member => (each item member).shallow) 2
  finite := by
    intro x member
    obtain ⟨item, inside, found⟩ := mem_listFloats.mp member
    exact (each item inside).finite x found

/-- A value that is read opens no more arrays and objects than it may, and its floats are finite. -/
theorem fits_of_ofJson? {depth : Nat} {json : Json} {value : Value}
    (read : ofJson? depth json = some value) : value.Fits depth := by
  induction depth using Nat.strongRecOn generalizing json value with
  | ind depth ih =>
      unfold ofJson? at read
      split at read
      case h_3 =>
        obtain ⟨x, readX, rfl⟩ := Option.map_eq_some_iff.mp read
        exact ⟨by simp [levels], by simpa [floats] using Binary64.isFinite_of_float? readX⟩
      case h_4 =>
        obtain ⟨n, -, rfl⟩ := Option.map_eq_some_iff.mp read
        exact ⟨by simp [levels], by simp [floats]⟩
      case h_11 depth items =>
        obtain ⟨values, readItems, rfl⟩ := Option.map_eq_some_iff.mp read
        refine fits_list fun value member => ?_
        obtain ⟨item, -, one⟩ := exists_of_mapM readItems member
        exact ih depth (by omega) one
      case h_12 => contradiction
      case h_1 | h_2 | h_5 | h_6 =>
        obtain rfl := Option.some.inj read
        exact ⟨by simp [levels], by simp [floats]⟩
      all_goals
        simp only [Option.bind_eq_bind, Option.bind_eq_some_iff, Option.pure_def,
          Option.some.injEq] at read
      case h_7 | h_8 =>
        obtain ⟨x, readX, y, readY, z, readZ, rfl⟩ := read
        have finite := @Binary64.isFinite_of_float?
        exact ⟨by simp [levels], by simp [floats, finite readX, finite readY, finite readZ]⟩
      case h_9 | h_10 =>
        obtain ⟨x, readX, y, readY, z, readZ, w, readW, rfl⟩ := read
        have finite := @Binary64.isFinite_of_float?
        exact ⟨by simp [levels], by
          simp [floats, finite readX, finite readY, finite readZ, finite readW]⟩

mutual

theorem wellFormed_toJson : (value : Value) → value.toJson.WellFormed
  | .none => .string "None"
  | .float x => .object (by simpa using x.wellFormed_toJson)
  | .integer n => .object (by simpa using .number (Numeral.allowed_ofInt _))
  | .boolean b => .object (by simpa using .boolean b)
  | .string s => .object (by simpa using .string s)
  | .vector x y z => .object (by simpa using .array (by simp [Binary64.wellFormed_toJson]))
  | .euler x y z => .object (by simpa using .array (by simp [Binary64.wellFormed_toJson]))
  | .quaternion w x y z => .object (by simpa using .array (by simp [Binary64.wellFormed_toJson]))
  | .color r g b a => .object (by simpa using .array (by simp [Binary64.wellFormed_toJson]))
  | .list items => .object (by simpa using .array (wellFormed_listToJson items))

theorem wellFormed_listToJson :
    (items : List Value) → ∀ item ∈ listToJson items, item.WellFormed
  | [] => by simp [listToJson]
  | item :: items => by
      rw [listToJson, List.forall_mem_cons]
      exact ⟨wellFormed_toJson item, wellFormed_listToJson items⟩

end

mutual

theorem ofJson?_toJson_of_floats : (value : Value) → {depth : Nat} → value.levels ≤ depth →
    (∀ x ∈ value.floats, x.toJson.float? = some x) → ofJson? depth value.toJson = some value
  | .none, _, _, _ => by simp [toJson, Json.ofString, ofJson?]
  | .float x, depth + 1, _, back => by
      have own : x.toJson.float? = some x := back x (by simp [floats])
      simp [toJson, Json.ofMembers, ofJson?, own]
  | .integer n, depth + 1, _, _ => by
      simp [toJson, Json.ofMembers, ofJson?, Numeral.toInt64?_ofInt]
  | .boolean b, depth + 1, _, _ => by simp [toJson, Json.ofMembers, ofJson?]
  | .string s, depth + 1, _, _ => by simp [toJson, Json.ofMembers, Json.ofString, ofJson?]
  | .vector x y z, depth + 2, _, back => by
      simp only [floats, List.forall_mem_cons] at back
      simp [toJson, Json.ofMembers, ofJson?, back]
  | .euler x y z, depth + 2, _, back => by
      simp only [floats, List.forall_mem_cons] at back
      simp [toJson, Json.ofMembers, ofJson?, back]
  | .quaternion w x y z, depth + 2, _, back => by
      simp only [floats, List.forall_mem_cons] at back
      simp [toJson, Json.ofMembers, ofJson?, back]
  | .color r g b a, depth + 2, _, back => by
      simp only [floats, List.forall_mem_cons] at back
      simp [toJson, Json.ofMembers, ofJson?, back]
  | .list items, depth + 2, shallow, back => by
      have each := mapM_listToJson items (Nat.le_of_add_le_add_right shallow) back
      simp [toJson, Json.ofMembers, ofJson?, each]

theorem mapM_listToJson : (items : List Value) → {depth : Nat} → listLevels items ≤ depth →
    (∀ x ∈ listFloats items, x.toJson.float? = some x) →
      (listToJson items).mapM (ofJson? depth) = some items
  | [], _, _, _ => by simp [listToJson]
  | item :: items, depth, shallow, back => by
      rw [listLevels, Nat.max_le] at shallow
      rw [listFloats, List.forall_mem_append] at back
      rw [listToJson, List.mapM_cons, ofJson?_toJson_of_floats item shallow.1 back.1,
        mapM_listToJson items shallow.2 back.2]
      rfl

end

theorem ofJson?_toJson {value : Value} {depth : Nat} (fits : value.Fits depth)
    (back : ∀ x ∈ value.floats, x.ReadsBack) : ofJson? depth value.toJson = some value :=
  ofJson?_toJson_of_floats value fits.shallow fun x member =>
    Binary64.float?_toJson (fits.finite x member) (back x member)

end Value

end FrameGraph
