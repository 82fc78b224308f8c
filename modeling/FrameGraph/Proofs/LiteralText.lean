import FrameGraph.Node
import FrameGraph.Proofs.TextLines

/-!
The characters of literals. Main statement: the literal of a socket stands on one line.
-/

namespace FrameGraph

def Digits (s : String) : Prop :=
  ∀ c ∈ s.toList, c.isDigit = true

theorem digits_repr (n : Nat) : Digits n.repr := by
  intro c member
  rw [Nat.toList_repr] at member
  exact Nat.isDigit_of_mem_toDigits (by decide) (by decide) member

theorem digits_ofList {cs : List Char} (each : ∀ c ∈ cs, c.isDigit = true) :
    Digits (String.ofList cs) := by
  simpa [Digits] using each

theorem Digits.append {s t : String} (front : Digits s) (back : Digits t) : Digits (s ++ t) := by
  intro c member
  rw [String.toList_append, List.mem_append] at member
  exact member.elim (front c) (back c)

theorem Digits.isLine {s : String} (digits : Digits s) : Text.IsLine s :=
  Text.isLine_of_forall Char.isDigit (by decide) digits

theorem DecimalLayout.digits_zeros (count : Int) : Digits (zeros count) := by
  apply digits_ofList
  intro c member
  rw [List.eq_of_mem_replicate member]
  decide

/-- A numeral written with digits only, apart from its signs, its point and its `e`. -/
structure Numeral.Decimal (n : Numeral) : Prop where
  whole : Digits n.whole
  fraction : ∀ digits, n.fraction = some digits → Digits digits
  exponent : ∀ e, n.exponent = some e →
    Digits e.digits ∧ ∀ c, e.sign = some c → c = '-' ∨ c = '+'

theorem Numeral.Decimal.of_mem_text {n : Numeral} (decimal : n.Decimal) {c : Char}
    (member : c ∈ n.text.toList) : c.isDigit = true ∨ c ∈ ['-', '+', '.', 'e'] := by
  have fraction := decimal.fraction
  have exponent := decimal.exponent
  unfold Numeral.text at member
  simp only [String.toList_append, List.mem_append] at member
  rcases member with ((sign | whole) | point) | power
  · right
    split at sign
    · obtain rfl : c = '-' := by simpa using sign
      decide
    · cases sign
  · exact .inl (decimal.whole c whole)
  · split at point
    · rename_i digits found
      rw [String.toList_append, List.mem_append] at point
      rcases point with point | digit
      · obtain rfl : c = '.' := by simpa using point
        exact .inr (by decide)
      · exact .inl (fraction digits found c digit)
    · cases point
  · split at power
    · rename_i e found
      obtain ⟨digits, signs⟩ := exponent e found
      simp only [String.toList_append, List.mem_append] at power
      rcases power with (letter | sign) | digit
      · obtain rfl : c = 'e' := by simpa using letter
        exact .inr (by decide)
      · split at sign
        · rename_i d written
          obtain rfl : c = d := by simpa using sign
          rcases signs c written with rfl | rfl <;> exact .inr (by decide)
        · cases sign
      · exact .inl (digits c digit)
    · cases power

theorem Numeral.Decimal.isLine {n : Numeral} (decimal : n.Decimal) : Text.IsLine n.text := by
  intro member
  rcases decimal.of_mem_text member with digit | sign
  · exact absurd digit (by decide)
  · exact absurd sign (by decide)

theorem DecimalLayout.decimal_numeral (layout : DecimalLayout) (negative : Bool) (d : Decimal) :
    (layout.numeral negative d).Decimal := by
  have digits : ∀ c ∈ (toString d.significand).toList, c.isDigit = true :=
    digits_repr d.significand
  have front (count : Nat) : Digits (String.ofList ((toString d.significand).toList.take count)) :=
    digits_ofList fun c member => digits c (List.mem_of_mem_take member)
  have back (count : Nat) : Digits (String.ofList ((toString d.significand).toList.drop count)) :=
    digits_ofList fun c member => digits c (List.mem_of_mem_drop member)
  have zero : Digits "0" := by
    intro c member
    obtain rfl : c = '0' := by simpa using member
    decide
  unfold DecimalLayout.numeral
  simp only
  split
  · exact ⟨zero, by simpa using zero, by simp⟩
  · split
    · split
      · exact ⟨(digits_ofList digits).append (digits_zeros _), by simpa using zero, by simp⟩
      · split
        · exact ⟨front _, by simpa using back _, by simp⟩
        · refine ⟨zero, ?_, by simp⟩
          simpa using (digits_zeros _).append (digits_ofList digits)
    · refine ⟨front 1, ?_, ?_⟩
      · split
        · simp
        · simpa using back 1
      · rintro e found
        obtain rfl := Option.some.inj found
        refine ⟨digits_repr _, ?_⟩
        intro c sign
        simp only at sign
        split at sign
        · exact .inl (Option.some.inj sign).symm
        · split at sign
          · exact .inr (Option.some.inj sign).symm
          · contradiction

theorem isLine_floatLiteral (x : Binary64) : Text.IsLine (floatLiteral x) := by
  unfold floatLiteral
  split
  · exact (DecimalLayout.decimal_numeral _ _ _).isLine
  · split
    · decide
    · split <;> decide

theorem isLine_stringLiteral (s : String) : Text.IsLine (stringLiteral s) := by
  have escaped : ∀ c, '\n' ∉ escapeLiteralChar c := by
    intro c
    unfold escapeLiteralChar
    split <;> simp_all [eq_comm]
  simp only [stringLiteral, Text.isLine_append, Text.isLine_ofList, List.mem_flatMap, not_exists,
    not_and]
  exact ⟨⟨by decide, fun c _ => escaped c⟩, by decide⟩

namespace Value

theorem isLine_enclosed {front inner back : String} (opened : Text.IsLine front)
    (closed : Text.IsLine back) (inside : Text.IsLine inner) :
    Text.IsLine (front ++ inner ++ back) :=
  Text.isLine_append.mpr ⟨Text.isLine_append.mpr ⟨opened, inside⟩, closed⟩

theorem isLine_floatList (xs : List Binary64) : Text.IsLine (floatList xs) := by
  apply Text.isLine_intercalate (by decide)
  intro part member
  obtain ⟨x, -, rfl⟩ := List.mem_map.mp member
  exact isLine_floatLiteral x

theorem isLine_integer (n : Int) : Text.IsLine (toString n) := by
  rw [Int.toString_eq_repr, Int.repr_eq_if]
  split
  · exact (digits_repr n.toNat).isLine
  · exact Text.isLine_append.mpr ⟨by decide, (digits_repr _).isLine⟩

mutual

theorem isLine_literal : (value : Value) → Text.IsLine value.literal
  | .none => by
      change Text.IsLine "None"
      decide
  | .float x => isLine_floatLiteral x
  | .integer n => isLine_integer n.toInt
  | .boolean false => by
      change Text.IsLine "False"
      decide
  | .boolean true => by
      change Text.IsLine "True"
      decide
  | .string s => isLine_stringLiteral s
  | .vector x y z => by
      change Text.IsLine ("mathutils.Vector((" ++ floatList [x, y, z] ++ "))")
      exact isLine_enclosed (by decide) (by decide) (isLine_floatList _)
  | .euler x y z => by
      change Text.IsLine ("mathutils.Euler((" ++ floatList [x, y, z] ++ "))")
      exact isLine_enclosed (by decide) (by decide) (isLine_floatList _)
  | .quaternion w x y z => by
      change Text.IsLine ("mathutils.Quaternion((" ++ floatList [w, x, y, z] ++ "))")
      exact isLine_enclosed (by decide) (by decide) (isLine_floatList _)
  | .color r g b a => by
      change Text.IsLine ("(" ++ floatList [r, g, b, a] ++ ")")
      exact isLine_enclosed (by decide) (by decide) (isLine_floatList _)
  | .list items => by
      change Text.IsLine ("[" ++ ", ".intercalate (literals items) ++ "]")
      exact isLine_enclosed (by decide) (by decide)
        (Text.isLine_intercalate (by decide) (isLine_of_mem_literals items))

theorem isLine_of_mem_literals : (items : List Value) → ∀ part ∈ literals items, Text.IsLine part
  | [], part, member => by simp [literals] at member
  | item :: items, part, member => by
      rw [literals, List.mem_cons] at member
      rcases member with rfl | member
      · exact isLine_literal item
      · exact isLine_of_mem_literals items part member

end

end Value

theorem Socket.isLine_literal (socket : Socket) : Text.IsLine socket.literal.1 := by
  unfold Socket.literal
  split
  · decide
  · exact socket.value.isLine_literal

end FrameGraph
