import FrameGraph.Json.Reader
import FrameGraph.Number.Shortest
import FrameGraph.Proofs.LiteralText

/-!
Numerals in JSON text. Main statements: a numeral that JSON allows is read back from its text, and
the numerals of integers and of binary64 numbers are such numerals.
-/

namespace FrameGraph

/-- A numeral that may stand in JSON text: no place for digits is empty, and a zero in front stands
alone. -/
structure Numeral.Allowed (n : Numeral) : Prop where
  decimal : n.Decimal
  whole : n.whole ≠ ""
  lead : n.whole.toList.head? = some '0' → n.whole = "0"
  fraction : n.fraction ≠ some ""
  exponent : ∀ e, n.exponent = some e → e.digits ≠ ""

namespace Numeral

def fractionText : Option String → String
  | some digits => "." ++ digits
  | none => ""

def exponentText : Option NumeralExponent → String
  | some e => "e" ++ (match e.sign with
      | some c => String.singleton c
      | none => "") ++ e.digits
  | none => ""

theorem text_eq (n : Numeral) : n.text =
    (if n.negative then "-" else "") ++ n.whole ++ fractionText n.fraction ++
      exponentText n.exponent :=
  rfl

end Numeral

namespace Json

def EndsNumeral (rest : List Char) : Prop :=
  ∀ c, rest.head? = some c → c.isDigit = false ∧ c ≠ '.' ∧ c ≠ 'e' ∧ c ≠ 'E'

theorem endsNumeral_cons {c : Char} {rest : List Char}
    (ends : c.isDigit = false ∧ c ≠ '.' ∧ c ≠ 'e' ∧ c ≠ 'E') : EndsNumeral (c :: rest) := by
  intro d head
  obtain rfl : c = d := Option.some.inj head
  exact ends

theorem readDigits?_append {digits : String} (decimal : Digits digits) (written : digits ≠ "")
    {rest : List Char} (ends : ∀ c, rest.head? = some c → c.isDigit = false) :
    readDigits? (digits.toList ++ rest) = some (digits, rest) := by
  have stop : rest.takeWhile Char.isDigit = [] ∧ rest.dropWhile Char.isDigit = rest := by
    cases rest with
    | nil => exact ⟨rfl, rfl⟩
    | cons c rest =>
        have blank := ends c rfl
        simp [blank]
  have nonempty : digits.toList ≠ [] := by simpa using written
  rw [readDigits?, List.takeWhile_append_of_pos decimal, List.dropWhile_append_of_pos decimal,
    stop.1, stop.2, List.append_nil]
  simp [nonempty]

theorem readFraction_append {fraction : Option String}
    (decimal : ∀ digits, fraction = some digits → Digits digits) (written : fraction ≠ some "")
    {rest : List Char} (ends : ∀ c, rest.head? = some c → c.isDigit = false ∧ c ≠ '.') :
    readFraction ((Numeral.fractionText fraction).toList ++ rest) = some (fraction, rest) := by
  cases fraction with
  | none =>
      cases rest with
      | nil => rfl
      | cons c rest =>
          have point := (ends c rfl).2
          simp [readFraction, Numeral.fractionText, point]
  | some digits =>
      have read := readDigits?_append (decimal digits rfl) (fun empty => written (by rw [empty]))
        fun c head => (ends c head).1
      simp [readFraction, Numeral.fractionText, read]

theorem readExponent_append {exponent : Option NumeralExponent}
    (decimal : ∀ e, exponent = some e → Digits e.digits ∧ ∀ c, e.sign = some c → c = '-' ∨ c = '+')
    (written : ∀ e, exponent = some e → e.digits ≠ "") {rest : List Char}
    (ends : EndsNumeral rest) :
    readExponent ((Numeral.exponentText exponent).toList ++ rest) = some (exponent, rest) := by
  cases exponent with
  | none =>
      cases rest with
      | nil => rfl
      | cons c rest =>
          obtain ⟨-, -, small, large⟩ := ends c rfl
          simp [readExponent, Numeral.exponentText, small, large]
  | some e =>
      obtain ⟨sign, digits⟩ := e
      obtain ⟨decimal, signs⟩ := decimal _ rfl
      have read := readDigits?_append decimal (written _ rfl) fun c head => (ends c head).1
      cases sign with
      | some c =>
          rcases signs c rfl with rfl | rfl
          · simp [readExponent, readExponentDigits, Numeral.exponentText, read]
          · simp [readExponent, readExponentDigits, Numeral.exponentText, read]
      | none =>
          obtain ⟨d, ds, split⟩ : ∃ d ds, digits.toList = d :: ds :=
            List.exists_cons_of_ne_nil (by simpa using written _ rfl)
          have digit : d.isDigit = true := decimal d (by simp [split])
          have plus : d ≠ '+' := by rintro rfl; exact absurd digit (by decide)
          have minus : d ≠ '-' := by rintro rfl; exact absurd digit (by decide)
          have before : digits.toList ++ rest = d :: (ds ++ rest) := by rw [split]; rfl
          rw [before] at read
          simp [readExponent, readExponentDigits, Numeral.exponentText, before, plus, minus, read]

theorem head_exponentText {rest : List Char} (ends : EndsNumeral rest)
    (exponent : Option NumeralExponent) :
    ∀ c, ((Numeral.exponentText exponent).toList ++ rest).head? = some c →
      c.isDigit = false ∧ c ≠ '.' := by
  cases exponent with
  | none => exact fun c head => ⟨(ends c head).1, (ends c head).2.1⟩
  | some e =>
      intro c head
      obtain rfl : 'e' = c := by simpa [Numeral.exponentText] using head
      decide

theorem head_fractionText {rest : List Char}
    (ends : ∀ c, rest.head? = some c → c.isDigit = false) (fraction : Option String) :
    ∀ c, ((Numeral.fractionText fraction).toList ++ rest).head? = some c → c.isDigit = false := by
  cases fraction with
  | none => exact ends
  | some digits =>
      intro c head
      obtain rfl : '.' = c := by simpa [Numeral.fractionText] using head
      decide

theorem readMagnitude_append {n : Numeral} (allowed : n.Allowed) {rest : List Char}
    (ends : EndsNumeral rest) :
    readMagnitude n.negative (n.whole.toList ++ ((Numeral.fractionText n.fraction).toList ++
      ((Numeral.exponentText n.exponent).toList ++ rest))) = some (n, rest) := by
  have power := head_exponentText ends n.exponent
  have whole := readDigits?_append allowed.decimal.whole allowed.whole
    (head_fractionText (fun c head => (power c head).1) n.fraction)
  have fraction := readFraction_append allowed.decimal.fraction allowed.fraction power
  have exponent := readExponent_append allowed.decimal.exponent allowed.exponent ends
  have lead : ¬ (n.whole.startsWith '0' && n.whole != "0") := by
    intro padded
    simp only [String.startsWith_char_eq_head?, Bool.and_eq_true, beq_iff_eq, bne_iff_ne] at padded
    exact padded.2 (allowed.lead padded.1)
  simp only [readMagnitude, whole, fraction, exponent, Option.bind_eq_bind, Option.bind_some,
    if_neg lead]

theorem readNumeral_text {n : Numeral} (allowed : n.Allowed) {rest : List Char}
    (ends : EndsNumeral rest) : readNumeral (n.text.toList ++ rest) = some (n, rest) := by
  have read := readMagnitude_append allowed ends
  rw [Numeral.text_eq]
  simp only [String.toList_append, List.append_assoc]
  cases sign : n.negative with
  | true =>
      rw [sign] at read
      exact read
  | false =>
      rw [sign] at read
      obtain ⟨d, ds, split⟩ : ∃ d ds, n.whole.toList = d :: ds :=
        List.exists_cons_of_ne_nil (by simpa using allowed.whole)
      have digit : d.isDigit = true := allowed.decimal.whole d (by simp [split])
      have minus : d ≠ '-' := by rintro rfl; exact absurd digit (by decide)
      rw [split] at read ⊢
      simpa [readNumeral, minus] using read

end Json

/-! ### Written numerals -/

theorem head?_toDigits {n : Nat} (positive : n ≠ 0) : (Nat.toDigits 10 n).head? ≠ some '0' := by
  induction n using Nat.strongRecOn with
  | ind n ih =>
      rw [Nat.toDigits_eq_if (by decide)]
      split
      · rename_i small
        have digit : ∀ d < 10, d ≠ 0 → d.digitChar ≠ '0' := by decide
        simpa using digit n small positive
      · have front := ih (n / 10) (by omega) (by omega)
        obtain ⟨c, cs, split⟩ := List.exists_cons_of_ne_nil (Nat.toDigits_ne_nil (n := n / 10)
          (b := 10))
        rw [split] at front ⊢
        exact front

theorem head?_repr {n : Nat} (positive : n ≠ 0) : n.repr.toList.head? ≠ some '0' := by
  rw [Nat.toList_repr]
  exact head?_toDigits positive

theorem lead_repr (n : Nat) (zero : n.repr.toList.head? = some '0') : n.repr = "0" := by
  by_cases positive : n = 0
  · rw [positive]
    rfl
  · exact absurd zero (head?_repr positive)

theorem Numeral.allowed_ofInt (n : Int) : (ofInt n).Allowed where
  decimal := ⟨digits_repr _, by simp [ofInt], by simp [ofInt]⟩
  whole := Nat.repr_ne_empty
  lead := lead_repr _
  fraction := by simp [ofInt]
  exponent := by simp [ofInt]

theorem digitsValue_repr (n : Nat) : digitsValue n.repr.toList = n := by
  rw [Nat.toList_repr]
  exact Nat.ofDigitChars_toDigits (by decide) (by decide)

theorem Numeral.toInt64?_ofInt (n : Int64) : (ofInt n.toInt).toInt64? = some n := by
  have below := n.toInt_lt
  have above := n.le_toInt
  have value : digitsValue (ofInt n.toInt).whole.toList = n.toInt.natAbs := digitsValue_repr _
  unfold toInt64?
  rw [value]
  have power : Nat.pow 2 63 = 9223372036854775808 := by decide
  by_cases negative : n.toInt < 0
  · have small : n.toInt.natAbs ≤ Nat.pow 2 63 := by omega
    have back : Int64.ofInt (-(n.toInt.natAbs : Int)) = n := by
      have same : -(n.toInt.natAbs : Int) = n.toInt := by omega
      rw [same, Int64.ofInt_toInt]
    have positive : 0 < n.toInt.natAbs := by omega
    simp only [ofInt, isPlain, negative, positive, small, back]
    rfl
  · have small : n.toInt.natAbs < Nat.pow 2 63 := by omega
    have back : Int64.ofNat n.toInt.natAbs = n := by
      have same : (n.toInt.natAbs : Int) = n.toInt := by omega
      rw [← Int64.ofInt_eq_ofNat, same, Int64.ofInt_toInt]
    simp [ofInt, isPlain, negative, small, back]

namespace DecimalLayout

theorem allowed_numeral (layout : DecimalLayout) (negative : Bool) (d : Decimal) :
    (layout.numeral negative d).Allowed := by
  have decimal := layout.decimal_numeral negative d
  revert decimal
  unfold numeral
  simp only
  split
  · exact fun decimal => ⟨decimal, by simp, fun _ => rfl, by simp, by simp⟩
  · rename_i positive
    obtain ⟨c, cs, digits⟩ := List.exists_cons_of_ne_nil
      (show (toString d.significand).toList ≠ [] by simp)
    have lead : c ≠ '0' := by
      rintro rfl
      exact head?_repr positive (congrArg List.head? digits)
    rw [digits]
    split
    · split
      · exact fun decimal => ⟨decimal, by simp, by simp [lead], by simp, by simp⟩
      · split
        · rename_i negative front
          obtain ⟨k, front⟩ : ∃ k, (((c :: cs).length : Int) - 1 + d.exponent + 1).toNat = k + 1 :=
            ⟨(((c :: cs).length : Int) - 1 + d.exponent).toNat, by omega⟩
          have back : k + 1 < (c :: cs).length := by omega
          rw [front]
          refine fun decimal => ⟨decimal, by simp, by simp [lead], ?_, by simp⟩
          simpa using back
        · exact fun decimal => ⟨decimal, by simp, fun _ => rfl, by simp, by simp⟩
    · refine fun decimal => ⟨decimal, by simp, by simp [lead], ?_, ?_⟩
      · split
        · simp
        · rename_i several
          simpa using several
      · rintro e found
        obtain rfl := Option.some.inj found
        exact Nat.repr_ne_empty

theorem allowed_ofBinary64 (layout : DecimalLayout) (x : Binary64) :
    (layout.ofBinary64 x).Allowed :=
  layout.allowed_numeral _ _

end DecimalLayout

end FrameGraph
