import FrameGraph.Proofs.ClosedLiterals
import FrameGraph.Proofs.LiteralForms
import FrameGraph.Proofs.WrittenDecimals

/-!
What literals stand for. Main statement: values with the same literal are the same up to their NaNs,
and the literal of a string is one lexeme, from which the string is read back.
-/

namespace FrameGraph

namespace Binary64

/-- The number, every NaN as the same one. -/
def unifyNaN (x : Binary64) : Binary64 :=
  if x.isNaN then nan else x

theorem infinity_isNegative {x : Binary64} (unbounded : x.isFinite = false)
    (number : x.isNaN = false) : x = infinity x.isNegative := by
  have field : x.exponentField = 2047 := by
    have small : x.exponentField < 2 ^ 11 := Nat.mod_lt _ (by decide)
    have large : 2047 ≤ x.exponentField := by simpa [isFinite] using unbounded
    omega
  have fraction : x.fraction = 0 := by simpa [isNaN, unbounded] using number
  apply ext_magnitude
  · cases x.isNegative <;> decide
  · have infinite : (infinity x.isNegative).magnitude = 2047 * 2 ^ 52 := by
      cases x.isNegative <;> decide
    rw [exponentField_eq] at field
    rw [fraction_eq] at fraction
    omega

end Binary64

namespace Value

mutual

def mapFloats (f : Binary64 → Binary64) : Value → Value
  | .float x => .float (f x)
  | .vector x y z => .vector (f x) (f y) (f z)
  | .euler x y z => .euler (f x) (f y) (f z)
  | .quaternion w x y z => .quaternion (f w) (f x) (f y) (f z)
  | .color r g b a => .color (f r) (f g) (f b) (f a)
  | .list items => .list (mapListFloats f items)
  | .none => .none
  | .integer n => .integer n
  | .boolean b => .boolean b
  | .string s => .string s

def mapListFloats (f : Binary64 → Binary64) : List Value → List Value
  | [] => []
  | item :: items => item.mapFloats f :: mapListFloats f items

end

def unifyNaN (value : Value) : Value :=
  value.mapFloats Binary64.unifyNaN

/-! ### The form of a literal -/

def floatForm (x : Binary64) : LiteralForm :=
  if x.isFinite then .numeral (hostLayout.ofBinary64 x) (hostLayout.allowed_ofBinary64 x)
  else if x.isNaN then .word .nan
  else if x.isNegative then .word .negativeInfinity
  else .word .infinity

mutual

def form : Value → LiteralForm
  | .none => .word .none
  | .float x => floatForm x
  | .integer n => .numeral (.ofInt n.toInt) (Numeral.allowed_ofInt _)
  | .boolean b => .word (if b then .true else .false)
  | .string s => .string s
  | .vector x y z => .group .vector [floatForm x, floatForm y, floatForm z]
  | .euler x y z => .group .euler [floatForm x, floatForm y, floatForm z]
  | .quaternion w x y z =>
    .group .quaternion [floatForm w, floatForm x, floatForm y, floatForm z]
  | .color r g b a => .group .color [floatForm r, floatForm g, floatForm b, floatForm a]
  | .list items => .group .list (forms items)

def forms : List Value → List LiteralForm
  | [] => []
  | item :: items => item.form :: forms items

end

end Value

namespace LiteralForm

/-- The number that a form is read as; a numeral as the number nearest to it. -/
def float : LiteralForm → Binary64
  | .numeral n _ => n.nearest
  | .word .infinity => .infinity Bool.false
  | .word .negativeInfinity => .infinity Bool.true
  | _ => .nan

mutual

/-- The value that a form is read as. A numeral without a point and an exponent is an integer. -/
def value : LiteralForm → Value
  | .word .none => .none
  | .word .true => .boolean Bool.true
  | .word .false => .boolean Bool.false
  | .word w => .float (float (.word w))
  | .numeral n allowed =>
    match n.toInt64? with
    | some k => .integer k
    | none => .float (float (.numeral n allowed))
  | .string s => .string s
  | .group .vector [x, y, z] => .vector x.float y.float z.float
  | .group .euler [x, y, z] => .euler x.float y.float z.float
  | .group .quaternion [w, x, y, z] => .quaternion w.float x.float y.float z.float
  | .group .color [r, g, b, a] => .color r.float g.float b.float a.float
  | .group _ items => .list (values items)

def values : List LiteralForm → List Value
  | [] => []
  | item :: items => item.value :: values items

end

theorem value_numeral_of_integer {n : Numeral} (allowed : n.Allowed) {k : Int64}
    (integer : n.toInt64? = some k) : (numeral n allowed).value = .integer k := by
  rw [value, integer]

theorem value_numeral_of_float {n : Numeral} (allowed : n.Allowed)
    (fractional : n.toInt64? = none) : (numeral n allowed).value = .float n.nearest := by
  rw [value, fractional]
  rfl

end LiteralForm

namespace Value

theorem toList_floatLiteral (x : Binary64) : (floatLiteral x).toList = (floatForm x).text := by
  unfold floatLiteral floatForm
  split
  · rfl
  · split
    · rfl
    · split <;> rfl

theorem toList_floatList (xs : List Binary64) :
    (floatList xs).toList = LiteralForm.itemsText (xs.map floatForm) :=
  LiteralForm.toList_intercalate fun x _ => toList_floatLiteral x

theorem forms_eq_map (items : List Value) : forms items = items.map form := by
  induction items with
  | nil => rfl
  | cons item items ih => rw [forms, ih, List.map_cons]

mutual

theorem toList_literal : (value : Value) → value.literal.toList = value.form.text
  | .none => rfl
  | .float x => toList_floatLiteral x
  | .integer n => congrArg String.toList (Numeral.text_ofInt n.toInt).symm
  | .boolean true => rfl
  | .boolean false => rfl
  | .string s => rfl
  | .vector x y z => LiteralForm.toList_group .vector (toList_floatList [x, y, z])
  | .euler x y z => LiteralForm.toList_group .euler (toList_floatList [x, y, z])
  | .quaternion w x y z => LiteralForm.toList_group .quaternion (toList_floatList [w, x, y, z])
  | .color r g b a => LiteralForm.toList_group .color (toList_floatList [r, g, b, a])
  | .list items => by
      have inside := LiteralForm.toList_intercalate (toList_literal_of_mem items)
      rw [← literals_eq_map, ← forms_eq_map] at inside
      exact LiteralForm.toList_group .list inside

theorem toList_literal_of_mem : (items : List Value) → ∀ item ∈ items,
    item.literal.toList = item.form.text
  | [], item, member => by cases member
  | item :: items, other, member => by
      cases member with
      | head => exact toList_literal item
      | tail _ rest => exact toList_literal_of_mem items other rest

end

/-! ### Reading a literal -/

theorem float_floatForm (x : Binary64) : (floatForm x).float = x.unifyNaN := by
  unfold floatForm Binary64.unifyNaN
  by_cases finite : x.isFinite
  · have number : x.isNaN = false := by simp [Binary64.isNaN, finite]
    rw [if_pos finite, number]
    exact hostLayout.nearest_ofBinary64 finite
  · rw [if_neg finite]
    by_cases number : x.isNaN
    · rw [if_pos number, if_pos number]
      rfl
    · have infinite := Binary64.infinity_isNegative (by simpa using finite) (by simpa using number)
      rw [if_neg number, if_neg number]
      by_cases negative : x.isNegative
      · rw [if_pos negative]
        rw [negative] at infinite
        exact infinite.symm
      · rw [if_neg negative]
        rw [Bool.eq_false_iff.mpr negative] at infinite
        exact infinite.symm

theorem value_floatForm (x : Binary64) : (floatForm x).value = .float x.unifyNaN := by
  rw [← float_floatForm]
  unfold floatForm
  split
  · exact LiteralForm.value_numeral_of_float _ (hostLayout.toInt64?_numeral _ _)
  · split
    · rfl
    · split <;> rfl

mutual

theorem value_form : (value : Value) → value.form.value = value.unifyNaN
  | .none => rfl
  | .float x => value_floatForm x
  | .integer n => LiteralForm.value_numeral_of_integer _ (Numeral.toInt64?_ofInt n)
  | .boolean true => rfl
  | .boolean false => rfl
  | .string s => rfl
  | .vector x y z => by
      change Value.vector (floatForm x).float (floatForm y).float (floatForm z).float = _
      rw [float_floatForm, float_floatForm, float_floatForm]
      rfl
  | .euler x y z => by
      change Value.euler (floatForm x).float (floatForm y).float (floatForm z).float = _
      rw [float_floatForm, float_floatForm, float_floatForm]
      rfl
  | .quaternion w x y z => by
      change Value.quaternion (floatForm w).float (floatForm x).float
        (floatForm y).float (floatForm z).float = _
      rw [float_floatForm, float_floatForm, float_floatForm, float_floatForm]
      rfl
  | .color r g b a => by
      change Value.color (floatForm r).float (floatForm g).float
        (floatForm b).float (floatForm a).float = _
      rw [float_floatForm, float_floatForm, float_floatForm, float_floatForm]
      rfl
  | .list items => congrArg Value.list (values_forms items)

theorem values_forms : (items : List Value) →
    LiteralForm.values (forms items) = mapListFloats Binary64.unifyNaN items
  | [] => rfl
  | item :: items => congrArg₂ List.cons (value_form item) (values_forms items)

end

theorem floatForm_unifyNaN (x : Binary64) : floatForm x.unifyNaN = floatForm x := by
  unfold Binary64.unifyNaN
  split
  · rename_i nan
    have infinite : x.isFinite = false := by
      cases finite : x.isFinite with
      | false => rfl
      | true => simp [Binary64.isNaN, finite] at nan
    have word : floatForm x = .word .nan := by simp [floatForm, infinite, nan]
    rw [word]
    rfl
  · rfl

mutual

theorem form_mapFloats {f : Binary64 → Binary64} (same : ∀ x, floatForm (f x) = floatForm x) :
    (value : Value) → (value.mapFloats f).form = value.form
  | .none => rfl
  | .float x => same x
  | .integer n => rfl
  | .boolean b => rfl
  | .string s => rfl
  | .vector x y z => by simp only [mapFloats, form, same]
  | .euler x y z => by simp only [mapFloats, form, same]
  | .quaternion w x y z => by simp only [mapFloats, form, same]
  | .color r g b a => by simp only [mapFloats, form, same]
  | .list items => congrArg (LiteralForm.group .list) (forms_mapListFloats same items)

theorem forms_mapListFloats {f : Binary64 → Binary64}
    (same : ∀ x, floatForm (f x) = floatForm x) :
    (items : List Value) → forms (mapListFloats f items) = forms items
  | [] => rfl
  | item :: items => congrArg₂ List.cons (form_mapFloats same item) (forms_mapListFloats same items)

end

theorem literal_eq_literal_iff (a b : Value) : a.literal = b.literal ↔ a.unifyNaN = b.unifyNaN := by
  have forms : a.literal = b.literal ↔ a.form = b.form := by
    rw [← String.toList_inj, toList_literal, toList_literal]
    exact ⟨LiteralForm.text_injective, congrArg LiteralForm.text⟩
  rw [forms]
  constructor
  · intro same
    rw [← value_form, ← value_form, same]
  · intro same
    rw [← form_mapFloats floatForm_unifyNaN a, ← form_mapFloats floatForm_unifyNaN b]
    exact congrArg form same

end Value

/-- Values with the same literal are the same, all NaNs being one, and values that are the same have
the same literal. The literal of a string is read as the string, and is one lexeme. -/
theorem Value.literal_unambiguous (a b : Value) (s : String) :
    (a.literal = b.literal ↔ a.unifyNaN = b.unifyNaN) ∧
      (∃ inner, (stringLiteral s).toList = '"' :: inner ∧
        HostString.read? inner = some (s.toList, [])) ∧
      Lexeme.lex (stringLiteral s) = [⟨.stringLiteral, stringLiteral s⟩] := by
  refine ⟨literal_eq_literal_iff a b, ?_, Lexeme.lex_stringLiteral s⟩
  have read := HostString.read?_stringLiteral s []
  rwa [List.append_nil] at read

end FrameGraph
