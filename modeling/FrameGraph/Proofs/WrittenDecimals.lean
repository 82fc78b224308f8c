import FrameGraph.Proofs.NearestNumbers

/-!
Decimals as numerals. Main statement: in every layout the numeral of a finite number is read as that
number, if it is read as the number nearest to it.
-/

namespace FrameGraph

namespace Binary64

theorem magnitude_le (x : Binary64) (finite : x.isFinite) : x.magnitude ≤ infinityMagnitude := by
  have field : x.exponentField < 2047 := of_decide_eq_true finite
  have bound : infinityMagnitude = 2047 * 2 ^ 52 := rfl
  rw [exponentField_eq] at field
  omega

theorem ofMagnitude_magnitude (x : Binary64) : ofMagnitude x.isNegative x.magnitude = x := by
  have bound := x.bits.toNat_lt
  have word : x.magnitude + (if x.isNegative then Nat.pow 2 63 else 0) = x.bits.toNat := by
    have power : Nat.pow 2 63 = 2 ^ 63 := rfl
    simp only [isNegative, magnitude, decide_eq_true_eq]
    split <;> omega
  rw [ofMagnitude, word, UInt64.ofNat_toNat]

end Binary64

theorem digitsValue_append_zeros (cs : List Char) (n : Nat) :
    digitsValue (cs ++ List.replicate n '0') = 10 ^ n * digitsValue cs := by
  change Nat.ofDigitChars 10 (cs ++ List.replicate n '0') 0 = _
  rw [Nat.ofDigitChars_append, Nat.ofDigitChars_replicate_zero]
  rfl

theorem digitsValue_zeros_append (n : Nat) (cs : List Char) :
    digitsValue (List.replicate n '0' ++ cs) = digitsValue cs := by
  change Nat.ofDigitChars 10 (List.replicate n '0' ++ cs) 0 = _
  rw [Nat.ofDigitChars_append, Nat.ofDigitChars_replicate_zero]
  rfl

namespace Numeral

def digits (n : Numeral) : List Char :=
  n.whole.toList ++ (n.fraction.getD "").toList

def power (n : Numeral) : Int :=
  n.exponentValue - (n.fraction.getD "").toList.length

def magnitude (n : Numeral) : ℚ :=
  digitsValue n.digits * 10 ^ n.power

def nearest (n : Numeral) : Binary64 :=
  .ofRatio n.negative (digitsValue n.digits * 10 ^ n.power.toNat) (10 ^ (-n.power).toNat)

theorem magnitude_eq_ratio (n : Numeral) : n.magnitude =
    (digitsValue n.digits * 10 ^ n.power.toNat : Nat) / (10 ^ (-n.power).toNat : Nat) := by
  have power := zpow_mul_toNat (b := 10) (by norm_num) n.power
  rw [magnitude]
  push_cast
  rw [← power]
  field_simp

/-- A numeral is read as the number to which it rounds. -/
theorem nearest_eq {n : Numeral} {x : Binary64} (finite : x.isFinite)
    (sign : n.negative = x.isNegative) (rounds : Binary64.RoundsTo x.magnitude n.magnitude) :
    n.nearest = x := by
  rw [magnitude_eq_ratio] at rounds
  rw [nearest, Binary64.ofRatio, sign,
    Binary64.roundRatio_eq (by positivity) rounds (x.magnitude_le finite)]
  exact x.ofMagnitude_magnitude

theorem text_ofInt (n : Int) : (ofInt n).text = toString n := by
  have magnitude : (ofInt n).text = (if n < 0 then "-" else "") ++ n.natAbs.repr := by
    simp [text, ofInt]
  rw [magnitude, Int.toString_eq_repr, Int.repr_eq_if]
  by_cases negative : n < 0
  · have opposite : (-n).toNat = n.natAbs := by omega
    rw [if_pos negative, if_neg (by omega), opposite]
  · have same : n.toNat = n.natAbs := by omega
    rw [if_neg negative, if_pos (by omega), same, String.empty_append]

end Numeral

namespace DecimalLayout

theorem magnitude_eq_value {n : Numeral} {d : Decimal} (zeros : Nat)
    (digits : digitsValue n.digits = 10 ^ zeros * d.significand)
    (power : n.power = d.exponent - zeros) : n.magnitude = d.value := by
  rw [Numeral.magnitude, Decimal.value, digits, power, zpow_sub₀ (by norm_num), zpow_natCast]
  push_cast
  field_simp

@[simp] theorem negative_numeral (layout : DecimalLayout) (negative : Bool) (d : Decimal) :
    (layout.numeral negative d).negative = negative := by
  unfold numeral
  simp only
  split
  · rfl
  · split
    · split
      · rfl
      · split <;> rfl
    · rfl

theorem toInt64?_numeral (layout : DecimalLayout) (negative : Bool) (d : Decimal) :
    (layout.numeral negative d).toInt64? = none := by
  have plain : (layout.numeral negative d).isPlain = false := by
    unfold numeral
    simp only
    split
    · rfl
    · split
      · split
        · rfl
        · split <;> rfl
      · exact Bool.and_false _
  rw [Numeral.toInt64?, plain]
  rfl

theorem exponentValue_lead (layout : DecimalLayout) (negative : Bool) (whole : String)
    (fraction : Option String) (lead : Int) :
    Numeral.exponentValue ⟨negative, whole, fraction,
      some ⟨if lead < 0 then some '-' else if layout.plusSign then some '+' else none,
        toString lead.natAbs⟩⟩ = lead := by
  have value : digitsValue (toString lead.natAbs).toList = lead.natAbs := digitsValue_repr _
  simp only [Numeral.exponentValue, value]
  by_cases small : lead < 0
  · rw [if_pos small, if_pos rfl]
    omega
  · have sign : (if layout.plusSign then some '+' else none) ≠ some '-' := by
      split <;> decide
    rw [if_neg small, if_neg sign]
    omega

theorem magnitude_numeral (layout : DecimalLayout) (negative : Bool) (d : Decimal) :
    (layout.numeral negative d).magnitude = d.value := by
  have value : digitsValue (toString d.significand).toList = d.significand := digitsValue_repr _
  have written : (toString d.significand).toList ≠ [] := by simp
  unfold numeral
  simp only
  generalize (toString d.significand).toList = digits at value written
  split
  case isTrue zero =>
    have none : digitsValue ['0', '0'] = 0 := by decide
    simp [Numeral.magnitude, Numeral.digits, Decimal.value, none, zero]
  split
  · split
    case isTrue whole =>
      have zeros : (String.ofList digits ++ zeros d.exponent).toList ++ "0".toList =
          digits ++ List.replicate (d.exponent.toNat + 1) '0' := by
        simp [DecimalLayout.zeros, List.replicate_succ']
      apply magnitude_eq_value (d.exponent.toNat + 1)
      · change digitsValue (_ ++ _) = _
        rw [Option.getD_some, zeros, digitsValue_append_zeros, value]
      · simp only [Numeral.power, Numeral.exponentValue, Option.getD_some]
        have point : "0".toList.length = 1 := rfl
        omega
    split
    case isTrue several =>
      apply magnitude_eq_value 0
      · simp [Numeral.digits, value]
      · simp only [Numeral.power, Numeral.exponentValue, Option.getD_some, String.toList_ofList,
          List.length_drop]
        omega
    case isFalse small =>
      have zeros : "0".toList ++ (zeros (-(digits.length - 1 + d.exponent) - 1) ++
          String.ofList digits).toList = List.replicate
            ((-(digits.length - 1 + d.exponent) - 1).toNat + 1) '0' ++ digits := by
        simp [DecimalLayout.zeros, List.replicate_succ]
      apply magnitude_eq_value 0
      · change digitsValue (_ ++ _) = _
        rw [Option.getD_some, zeros, digitsValue_zeros_append, value, pow_zero, one_mul]
      · simp only [Numeral.power, Numeral.exponentValue, Option.getD_some, String.toList_ofList,
          DecimalLayout.zeros, String.toList_append, List.length_append, List.length_replicate]
        omega
  · have fraction : ((if digits.length = 1 then none
        else some (String.ofList (digits.drop 1))).getD "").toList = digits.drop 1 := by
      split
      case isTrue single =>
        rw [List.drop_eq_nil_of_le single.le]
        rfl
      · simp
    have count : 0 < digits.length := List.length_pos_iff.mpr written
    apply magnitude_eq_value 0
    · change digitsValue (_ ++ _) = _
      rw [fraction, String.toList_ofList, List.take_append_drop, value, pow_zero, one_mul]
    · rw [Numeral.power, fraction, exponentValue_lead, List.length_drop]
      omega

/-- The numeral of a finite number is nearest to it. -/
theorem nearest_ofBinary64 (layout : DecimalLayout) {x : Binary64} (finite : x.isFinite) :
    (layout.ofBinary64 x).nearest = x := by
  apply Numeral.nearest_eq finite
  · exact layout.negative_numeral _ _
  · rw [ofBinary64, magnitude_numeral]
    exact x.roundsTo_shortest layout.tie

end DecimalLayout

end FrameGraph
