import FrameGraph.Number.Numeral
import Mathlib.Algebra.Group.Nat.Defs

/-!
The numbers that numerals stand for. Main statement: such a number is finite.
-/

namespace FrameGraph

namespace Binary64

theorem exponentField_ofMagnitude (negative : Bool) {magnitude : Nat}
    (bounded : magnitude ≤ infinityMagnitude) :
    (ofMagnitude negative magnitude).exponentField = magnitude / 2 ^ 52 := by
  have small : magnitude ≤ 2047 * 2 ^ 52 := bounded
  have fits : magnitude + (if negative then Nat.pow 2 63 else 0) < UInt64.size := by
    have sign : (if negative then Nat.pow 2 63 else 0) ≤ 2 ^ 63 := by cases negative <;> decide
    have size : UInt64.size = 2 ^ 64 := rfl
    omega
  have field : (ofMagnitude negative magnitude).exponentField =
      (magnitude + if negative then 2 ^ 63 else 0) / 2 ^ 52 % 2 ^ 11 := by
    unfold exponentField ofMagnitude
    exact congrArg (fun n => n / 2 ^ 52 % 2 ^ 11) (UInt64.toNat_ofNat_of_lt' fits)
  rw [field]
  split <;> omega

theorem roundQuotient_le (num den : Nat) : roundQuotient num den ≤ num / den + 1 := by
  unfold roundQuotient
  simp only
  split
  · omega
  · split <;> omega

theorem unitScale_bounds (num den : Nat) :
    (num.log2 : Int) - den.log2 - 53 ≤ unitScale num den ∧
      unitScale num den ≤ max ((num.log2 : Int) - den.log2 - 52) (-1074) := by
  unfold unitScale
  simp only
  split <;> omega

theorem units_le (num : Nat) {den : Nat} (positive : den ≠ 0) :
    roundQuotient (num * Nat.pow 2 (-unitScale num den).toNat)
      (den * Nat.pow 2 (unitScale num den).toNat) ≤ 2 ^ 54 := by
  have fine := (unitScale_bounds num den).1
  generalize unitScale num den = unit at fine
  have above : num < 2 ^ (num.log2 + 1) := Nat.lt_log2_self
  have below : 2 ^ den.log2 ≤ den := Nat.log2_self_le positive
  -- One of the two powers is `2 ^ 0`, so this is `num / den < 2 ^ (unit + 54)`.
  have quotient : num * 2 ^ (-unit).toNat < den * 2 ^ unit.toNat * 2 ^ 54 := by
    calc
      num * 2 ^ (-unit).toNat < 2 ^ (num.log2 + 1) * 2 ^ (-unit).toNat :=
        Nat.mul_lt_mul_of_pos_right above (Nat.two_pow_pos _)
      _ = 2 ^ (num.log2 + 1 + (-unit).toNat) := (Nat.pow_add ..).symm
      _ ≤ 2 ^ (den.log2 + unit.toNat + 54) := Nat.pow_le_pow_right (by decide) (by omega)
      _ = 2 ^ den.log2 * 2 ^ unit.toNat * 2 ^ 54 := by rw [Nat.pow_add, Nat.pow_add]
      _ ≤ den * 2 ^ unit.toNat * 2 ^ 54 :=
        Nat.mul_le_mul_right _ (Nat.mul_le_mul_right _ below)
  exact Nat.le_trans (roundQuotient_le ..) (Nat.div_lt_of_lt_mul quotient)

theorem exponentField_ofRatio_le (negative : Bool) {num den bits : Nat} (small : num < 2 ^ bits)
    (positive : den ≠ 0) : (ofRatio negative num den).exponentField ≤ bits + 1025 := by
  have bounded : roundRatio num den ≤ infinityMagnitude := by
    unfold roundRatio
    split
    · exact Nat.zero_le _
    · exact Nat.min_le_right ..
  rw [ofRatio, exponentField_ofMagnitude _ bounded]
  unfold roundRatio
  split
  · simp
  · rename_i nonzero
    have coarse := (unitScale_bounds num den).2
    have units := units_le num positive
    have width : num.log2 < bits := (Nat.log2_lt nonzero).mpr small
    have split : ((unitScale num den + 1074).toNat * 2 ^ 52 + 2 ^ 54) / 2 ^ 52 ≤ bits + 1025 := by
      omega
    exact Nat.le_trans (Nat.div_le_div_right (Nat.le_trans (Nat.min_le_left ..)
      (Nat.add_le_add_left units _))) split

theorem significand_lt (x : Binary64) : x.significand < 2 ^ 53 := by
  have small : x.fraction < 2 ^ 52 := Nat.mod_lt _ (by decide)
  have power : Nat.pow 2 52 = 2 ^ 52 := rfl
  unfold significand
  split <;> omega

theorem exponentField_div_le {x y : Binary64} {field : Nat} (dividend : x.exponentField ≤ field)
    (range : 1023 ≤ field) (positive : y.significand ≠ 0) (divisor : -52 ≤ y.scale) :
    (x.div y).exponentField ≤ field + 55 := by
  have shift : (x.scale - y.scale).toNat ≤ field - 1023 := by
    unfold scale at *
    omega
  have small : x.significand * 2 ^ (x.scale - y.scale).toNat < 2 ^ (53 + (field - 1023)) := by
    rw [Nat.pow_add]
    exact Nat.mul_lt_mul_of_lt_of_le x.significand_lt (Nat.pow_le_pow_right (by decide) shift)
      (Nat.two_pow_pos _)
  have nonzero : y.significand * 2 ^ (-(x.scale - y.scale)).toNat ≠ 0 :=
    Nat.mul_ne_zero positive (Nat.ne_of_gt (Nat.two_pow_pos _))
  have field := exponentField_ofRatio_le (x.isNegative != y.isNegative) small nonzero
  exact Nat.le_trans field (by omega)

theorem isFinite_neg (x : Binary64) : x.neg.isFinite = x.isFinite := by
  have word : x.neg.bits.toNat = x.bits.toNat ^^^ 2 ^ 63 := UInt64.toNat_xor ..
  have field : x.neg.exponentField = x.exponentField := by
    change x.neg.bits.toNat / 2 ^ 52 % 2 ^ 11 = x.bits.toNat / 2 ^ 52 % 2 ^ 11
    rw [word, Nat.xor_div_two_pow, Nat.xor_mod_two_pow]
    exact Nat.xor_zero _
  rw [isFinite, isFinite, field]

end Binary64

namespace Numeral

theorem powerOfTen_ge :
    ∀ k < 309, (powerOfTen k).significand ≠ 0 ∧ -52 ≤ (powerOfTen k).scale := by
  decide +kernel

theorem exponentField_div_powerOfTen_le {x : Binary64} {field k : Nat}
    (dividend : x.exponentField ≤ field) (range : 1023 ≤ field) (small : k < 309) :
    (x.div (powerOfTen k)).exponentField ≤ field + 55 := by
  obtain ⟨positive, divisor⟩ := powerOfTen_ge k small
  exact Binary64.exponentField_div_le dividend range positive divisor

theorem takeDigits_lt {significand : Nat} (small : significand < 2 ^ 64) (cs : List Char) :
    (takeDigits significand cs).1 < 2 ^ 64 := by
  induction cs generalizing significand with
  | nil => exact small
  | cons c cs ih =>
      simp only [takeDigits]
      split
      · rename_i fits
        exact ih fits
      · exact small

theorem significand_lt (n : Numeral) : n.scaled.1 < 2 ^ 64 :=
  takeDigits_lt (takeDigits_lt (by decide) _) _

theorem isFinite_scaleByTen {significand : Nat} (small : significand < 2 ^ 64) {k : Int}
    {y : Binary64} (scaled : scaleByTen (Binary64.ofNat significand) k = some y) :
    y.isFinite := by
  have field : (Binary64.ofNat significand).exponentField ≤ 1089 :=
    Binary64.exponentField_ofRatio_le false small (by decide)
  -- Each division adds at most 55 to the field, and there are two at most.
  unfold scaleByTen at scaled
  split at scaled
  case isTrue zero =>
    obtain rfl := Option.some.inj scaled
    exact (Bool.and_eq_true_iff.mp zero).1
  split at scaled
  · contradiction
  split at scaled
  · simp only at scaled
    split at scaled
    case isTrue finite =>
      obtain rfl := Option.some.inj scaled
      exact finite
    · contradiction
  split at scaled
  · obtain rfl := Option.some.inj scaled
    have quotient := exponentField_div_powerOfTen_le field (by decide) (k := (-k).toNat) (by omega)
    exact decide_eq_true (Nat.lt_of_le_of_lt quotient (by decide))
  split at scaled
  · obtain rfl := Option.some.inj scaled
    have first := exponentField_div_powerOfTen_le field (by decide) (k := 308) (by decide)
    have quotient := exponentField_div_powerOfTen_le first (by decide) (k := (-k - 308).toNat)
      (by omega)
    exact decide_eq_true (Nat.lt_of_le_of_lt quotient (by decide))
  · obtain rfl := Option.some.inj scaled
    decide

/-- A numeral stands for a finite number if it stands for one at all. -/
theorem isFinite_of_toBinary64? {n : Numeral} {x : Binary64} (read : n.toBinary64? = some x) :
    x.isFinite := by
  obtain ⟨y, scaled, rfl⟩ := Option.map_eq_some_iff.mp read
  have finite : y.isFinite := isFinite_scaleByTen n.significand_lt scaled
  split
  · rw [Binary64.isFinite_neg]
    exact finite
  · exact finite

end Numeral

end FrameGraph
