import FrameGraph.Proofs.JsonNumerals
import FrameGraph.Proofs.RoundingIntervals
import Mathlib.Data.Nat.Cast.Field
import Mathlib.Tactic.FieldSimp

/-!
Decimals of binary64 numbers. Main statement: no layout writes two numbers alike, since the shortest
decimal rounds to its number and its numeral stands for it.
-/

namespace FrameGraph

def Decimal.value (d : Decimal) : ℚ :=
  d.significand * 10 ^ d.exponent

theorem zpow_mul_toNat {b : ℚ} (nonzero : b ≠ 0) (k : ℤ) :
    b ^ k * b ^ (-k).toNat = b ^ k.toNat := by
  rw [← zpow_natCast, ← zpow_natCast, ← zpow_add₀ nonzero]
  congr 1
  omega

namespace Binary64

section Grid

variable (x : Binary64) (k : Int)

/-- A multiple of `10 ^ k` and a number of quarter units are compared by what they are times this
number. -/
def commonDenominator : Nat :=
  x.quarterUnit.2 * Nat.pow 10 (-k).toNat

theorem commonDenominator_pos : (0 : ℚ) < x.commonDenominator k := by
  have positive : 0 < x.commonDenominator k :=
    Nat.mul_pos (Nat.pow_pos (by decide)) (Nat.pow_pos (by decide))
  exact_mod_cast positive

theorem cast_quarters (n : Nat) : ((n * (x.quarterUnit.1 * Nat.pow 10 (-k).toNat) : Nat) : ℚ) =
    n * 2 ^ (x.scale - 2) * x.commonDenominator k := by
  have power := zpow_mul_toNat (b := 2) (by norm_num) (x.scale - 2)
  rw [Int.neg_sub] at power
  simp only [commonDenominator, quarterUnit, Nat.pow_eq]
  push_cast
  rw [← power]
  ring

theorem cast_steps (d : Nat) : ((d * (x.quarterUnit.2 * Nat.pow 10 k.toNat) : Nat) : ℚ) =
    d * 10 ^ k * x.commonDenominator k := by
  have power := zpow_mul_toNat (b := 10) (by norm_num) k
  simp only [commonDenominator, Nat.pow_eq]
  push_cast
  rw [← power]
  ring

theorem quarters_le_steps (n d : Nat) :
    n * (x.quarterUnit.1 * Nat.pow 10 (-k).toNat) ≤ d * (x.quarterUnit.2 * Nat.pow 10 k.toNat) ↔
      n * (2 : ℚ) ^ (x.scale - 2) ≤ d * 10 ^ k := by
  rw [← Nat.cast_le (α := ℚ), cast_quarters, cast_steps,
    mul_le_mul_iff_left₀ (x.commonDenominator_pos k)]

theorem steps_le_quarters (n d : Nat) :
    d * (x.quarterUnit.2 * Nat.pow 10 k.toNat) ≤ n * (x.quarterUnit.1 * Nat.pow 10 (-k).toNat) ↔
      d * 10 ^ k ≤ n * (2 : ℚ) ^ (x.scale - 2) := by
  rw [← Nat.cast_le (α := ℚ), cast_quarters, cast_steps,
    mul_le_mul_iff_left₀ (x.commonDenominator_pos k)]

theorem roundsHere_iff (d : Nat) :
    x.roundsHere (d * (x.quarterUnit.2 * Nat.pow 10 k.toNat))
      (x.quarterUnit.1 * Nat.pow 10 (-k).toNat) ↔ RoundsTo x.magnitude (d * 10 ^ k) := by
  have low := x.quarters_le_steps k x.roundingInterval.1 d
  have high := x.steps_le_quarters k x.roundingInterval.2 d
  have lowStrict := (x.steps_le_quarters k x.roundingInterval.1 d).not
  have highStrict := (x.quarters_le_steps k x.roundingInterval.2 d).not
  rw [not_le, not_le] at lowStrict highStrict
  rw [roundsTo_magnitude_iff]
  unfold roundsHere
  simp only
  split
  · rw [Bool.and_eq_true, decide_eq_true_eq, decide_eq_true_eq, low, high]
  · rw [Bool.and_eq_true, decide_eq_true_eq, decide_eq_true_eq, lowStrict, highStrict]

variable {x k}

theorem roundsTo_of_onGrid? {tie : TieRule} {d : Nat} (found : x.onGrid? tie k = some d) :
    RoundsTo x.magnitude (d * 10 ^ k) := by
  unfold onGrid? at found
  simp only at found
  generalize below : 4 * x.significand * (x.quarterUnit.1 * Nat.pow 10 (-k).toNat) /
    (x.quarterUnit.2 * Nat.pow 10 k.toNat) = b at found
  rw [← roundsHere_iff]
  split at found
  · rename_i both
    obtain ⟨hit, hitAbove⟩ := Bool.and_eq_true_iff.mp both
    split at found
    · obtain rfl := Option.some.inj found
      exact hit
    · split at found
      · obtain rfl := Option.some.inj found
        exact hitAbove
      · cases tie with
        | up =>
            obtain rfl := Option.some.inj found
            exact hitAbove
        | even =>
            obtain rfl := Option.some.inj found
            rcases Nat.mod_two_eq_zero_or_one b with even | odd
            · rwa [even]
            · rwa [odd]
  · split at found
    · rename_i hit
      obtain rfl := Option.some.inj found
      exact hit
    · split at found
      · rename_i hit
        obtain rfl := Option.some.inj found
        exact hit
      · contradiction

end Grid

theorem roundsTo_self {x : Binary64} (positive : x.significand ≠ 0) :
    RoundsTo x.magnitude (x.significand * 2 ^ x.scale) := by
  have quarters : (x.significand : ℚ) * 2 ^ x.scale =
      (4 * x.significand : Nat) * 2 ^ (x.scale - 2) := by
    rw [zpow_sub₀ (by norm_num)]
    push_cast
    ring
  have unit : (0 : ℚ) < 2 ^ (x.scale - 2) := by positivity
  have below : x.roundingInterval.1 < 4 * x.significand := by
    simp only [roundingInterval]
    split <;> omega
  have above : 4 * x.significand < x.roundingInterval.2 := by
    simp only [roundingInterval]
    omega
  have low := mul_lt_mul_of_pos_right (Nat.cast_lt (α := ℚ).mpr below) unit
  have high := mul_lt_mul_of_pos_right (Nat.cast_lt (α := ℚ).mpr above) unit
  rw [quarters, roundsTo_magnitude_iff]
  split
  · exact ⟨low.le, high.le⟩
  · exact ⟨low, high⟩

theorem exact_value {x : Binary64} {k : Int} (deep : k ≤ min x.scale 0) :
    Decimal.value ⟨x.significand * Nat.pow 2 x.scale.toNat * Nat.pow 10 (-k).toNat /
      Nat.pow 2 (-x.scale).toNat, k⟩ = x.significand * 2 ^ x.scale := by
  have divides : 2 ^ (-x.scale).toNat ∣
      x.significand * 2 ^ x.scale.toNat * 10 ^ (-k).toNat := by
    apply Dvd.dvd.mul_left
    calc
      2 ^ (-x.scale).toNat ∣ 2 ^ (-k).toNat := Nat.pow_dvd_pow 2 (by omega)
      _ ∣ 10 ^ (-k).toNat := pow_dvd_pow_of_dvd (by decide) _
  have two := zpow_mul_toNat (b := 2) (by norm_num) x.scale
  have ten := zpow_mul_toNat (b := 10) (by norm_num) k
  have flat : k.toNat = 0 := by omega
  rw [flat, pow_zero] at ten
  simp only [Decimal.value, Nat.pow_eq]
  rw [Nat.cast_div divides (by positivity)]
  push_cast
  rw [← two]
  calc
    (x.significand : ℚ) * (2 ^ x.scale * 2 ^ (-x.scale).toNat) * 10 ^ (-k).toNat /
        2 ^ (-x.scale).toNat * 10 ^ k
        = x.significand * 2 ^ x.scale * (10 ^ k * 10 ^ (-k).toNat) := by field_simp
    _ = x.significand * 2 ^ x.scale := by rw [ten, mul_one]

theorem roundsTo_shortestFrom {x : Binary64} (positive : x.significand ≠ 0) (tie : TieRule)
    {steps : Nat} {k : Int} (deep : k - steps ≤ min x.scale 0) :
    RoundsTo x.magnitude (x.shortestFrom tie steps k).value := by
  induction steps generalizing k with
  | zero =>
      rw [shortestFrom, exact_value (by omega)]
      exact roundsTo_self positive
  | succ steps ih =>
      rw [shortestFrom]
      cases found : x.onGrid? tie k with
      | some d => exact roundsTo_of_onGrid? found
      | none => exact ih (by omega)

/-- The shortest decimal of a number rounds to it. -/
theorem roundsTo_shortest (x : Binary64) (tie : TieRule) :
    RoundsTo x.magnitude (x.shortest tie).value := by
  unfold shortest
  split
  · rename_i zero
    have unit : (0 : ℚ) ≤ 2 ^ (x.scale - 2) := by positivity
    simp [roundsTo_magnitude_iff, roundingInterval, Decimal.value, zero, unit]
  · rename_i positive
    apply roundsTo_shortestFrom positive
    omega

end Binary64

end FrameGraph
