import FrameGraph.Proofs.ShortestDecimals
import Mathlib.Tactic.Linarith

/-!
Ratios rounded to binary64 numbers. Main statement: a ratio is rounded to the number in whose
interval it lies.
-/

namespace FrameGraph

namespace Binary64

/-- Whether the rational number rounds to the natural number, at a tie to the even one. -/
structure RoundsToNat (n : Nat) (q : ℚ) : Prop where
  below : (2 * n - 1 : ℚ) ≤ 2 * q
  above : 2 * q ≤ 2 * n + 1
  strict : n % 2 = 1 → (2 * n - 1 : ℚ) < 2 * q ∧ 2 * q < 2 * n + 1

theorem roundQuotient_spec (num : Nat) {den : Nat} (positive : 0 < den) :
    let n := roundQuotient num den
    2 * n * den ≤ 2 * num + den ∧ 2 * num ≤ 2 * n * den + den ∧
      (n % 2 = 1 → 2 * n * den < 2 * num + den ∧ 2 * num < 2 * n * den + den) := by
  have whole : den * (num / den) + num % den = num := Nat.div_add_mod num den
  have rest : num % den < den := Nat.mod_lt num positive
  have down : 2 * (num / den) * den = 2 * (den * (num / den)) := by ring
  have up : 2 * (num / den + 1) * den = 2 * (den * (num / den)) + 2 * den := by ring
  unfold roundQuotient
  simp only
  split
  · rw [down]
    omega
  · split
    · rw [up]
      omega
    · rcases Nat.mod_two_eq_zero_or_one (num / den) with even | odd
      · rw [even, Nat.add_zero, down]
        omega
      · rw [odd, up]
        omega

theorem roundsToNat_roundQuotient (num : Nat) {den : Nat} (positive : 0 < den) :
    RoundsToNat (roundQuotient num den) (num / den) := by
  obtain ⟨below, above, strict⟩ := roundQuotient_spec num positive
  generalize roundQuotient num den = n at *
  have unit : (0 : ℚ) < den := Nat.cast_pos.mpr positive
  constructor
  · rw [← mul_div_assoc, le_div_iff₀ unit]
    have cast : (2 * n * den : ℚ) ≤ 2 * num + den := by exact_mod_cast below
    linarith only [cast]
  · rw [← mul_div_assoc, div_le_iff₀ unit]
    have cast : (2 * num : ℚ) ≤ 2 * n * den + den := by exact_mod_cast above
    linarith only [cast]
  · intro odd
    rw [← mul_div_assoc, lt_div_iff₀ unit, div_lt_iff₀ unit]
    have low : (2 * n * den : ℚ) < 2 * num + den := by exact_mod_cast (strict odd).1
    have high : (2 * num : ℚ) < 2 * n * den + den := by exact_mod_cast (strict odd).2
    exact ⟨by linarith only [low], by linarith only [high]⟩

theorem two_zpow_log2_le {n : Nat} (positive : n ≠ 0) :
    (2 : ℚ) ^ (n.log2 : ℤ) ≤ n ∧ (n : ℚ) < 2 ^ (n.log2 + 1 : ℤ) := by
  have low : 2 ^ n.log2 ≤ n := Nat.log2_self_le positive
  have high : n < 2 ^ (n.log2 + 1) := Nat.lt_log2_self
  constructor
  · rw [zpow_natCast]
    exact_mod_cast low
  · rw [← Nat.cast_one (R := ℤ), ← Nat.cast_add, zpow_natCast]
    exact_mod_cast high

section Ratio

variable {num den : Nat} (nonzero : num ≠ 0) (positive : den ≠ 0)

include nonzero positive

theorem ratio_bounds : (2 : ℚ) ^ ((num.log2 : ℤ) - den.log2 - 1) ≤ num / den ∧
    (num : ℚ) / den < 2 ^ ((num.log2 : ℤ) - den.log2 + 1) := by
  obtain ⟨numLow, numHigh⟩ := two_zpow_log2_le nonzero
  obtain ⟨denLow, denHigh⟩ := two_zpow_log2_le positive
  have denPositive : (0 : ℚ) < den := by exact_mod_cast Nat.pos_of_ne_zero positive
  constructor
  · rw [le_div_iff₀ denPositive]
    calc
      (2 : ℚ) ^ ((num.log2 : ℤ) - den.log2 - 1) * den
          ≤ 2 ^ ((num.log2 : ℤ) - den.log2 - 1) * 2 ^ (den.log2 + 1 : ℤ) := by gcongr
      _ = 2 ^ (num.log2 : ℤ) := by
        rw [← zpow_add₀ (by norm_num)]
        congr 1
        ring
      _ ≤ num := numLow
  · rw [div_lt_iff₀ denPositive]
    calc
      (num : ℚ) < 2 ^ (num.log2 + 1 : ℤ) := numHigh
      _ = 2 ^ ((num.log2 : ℤ) - den.log2 + 1) * 2 ^ (den.log2 : ℤ) := by
        rw [← zpow_add₀ (by norm_num)]
        congr 1
        ring
      _ ≤ 2 ^ ((num.log2 : ℤ) - den.log2 + 1) * den := by gcongr

omit nonzero in
theorem zpow_le_ratio_iff (width : Int) :
    den * Nat.pow 2 width.toNat ≤ num * Nat.pow 2 (-width).toNat ↔
      (2 : ℚ) ^ width ≤ num / den := by
  have denPositive : (0 : ℚ) < den := by exact_mod_cast Nat.pos_of_ne_zero positive
  have power := zpow_mul_toNat (b := 2) (by norm_num) width
  have left : ((den * Nat.pow 2 width.toNat : Nat) : ℚ) =
      2 ^ width * den * 2 ^ (-width).toNat := by
    simp only [Nat.pow_eq]
    push_cast
    rw [← power]
    ring
  have right : ((num * Nat.pow 2 (-width).toNat : Nat) : ℚ) = num * 2 ^ (-width).toNat := by
    simp only [Nat.pow_eq]
    push_cast
    rfl
  rw [← Nat.cast_le (α := ℚ), left, right, mul_le_mul_iff_left₀ (by positivity),
    le_div_iff₀ denPositive]

theorem unitScale_spec : (num : ℚ) / den < 2 ^ (unitScale num den + 53) ∧
    (-1074 < unitScale num den → 2 ^ (unitScale num den + 52) ≤ (num : ℚ) / den) := by
  obtain ⟨low, high⟩ := ratio_bounds nonzero positive
  have atWidth := @zpow_le_ratio_iff num den positive ((num.log2 : ℤ) - den.log2)
  unfold unitScale
  simp only
  split
  case isTrue wide =>
    constructor
    · apply high.trans_le
      apply zpow_le_zpow_right₀ (by norm_num)
      omega
    · intro above
      rw [max_eq_left (by omega)]
      have exact := atWidth.mp wide
      rwa [sub_add_cancel]
  case isFalse narrow =>
    have below : (num : ℚ) / den < 2 ^ ((num.log2 : ℤ) - den.log2) :=
      lt_of_not_ge fun wide => narrow (atWidth.mpr wide)
    constructor
    · apply below.trans_le
      apply zpow_le_zpow_right₀ (by norm_num)
      omega
    · intro above
      rw [max_eq_left (by omega)]
      rwa [sub_add_cancel]

end Ratio

/-! ### The grid of a binade -/

section Binade

variable {k n : Nat} (high : n ≤ 2 ^ 53)

include high

/-- The words of a binade and its end in the order of their significands. -/
theorem steps_grid (low : k = 0 ∨ 2 ^ 52 ≤ n) : steps (k * 2 ^ 52 + n) = n * 2 ^ k := by
  unfold steps
  by_cases subnormal : n < 2 ^ 52
  · obtain rfl : k = 0 := by omega
    have field : (0 * 2 ^ 52 + n) / 2 ^ 52 = 0 := by omega
    have rest : (0 * 2 ^ 52 + n) % 2 ^ 52 = n := by omega
    rw [field, rest]
    rfl
  · by_cases last : n = 2 ^ 53
    · have field : (k * 2 ^ 52 + n) / 2 ^ 52 = k + 2 := by omega
      have rest : (k * 2 ^ 52 + n) % 2 ^ 52 = 0 := by omega
      have power : 2 ^ (k + 2 - 1) = 2 * 2 ^ k := by
        rw [← Nat.pow_succ']
        rfl
      rw [field, rest, if_neg (by omega), power, last]
      ring
    · have field : (k * 2 ^ 52 + n) / 2 ^ 52 = k + 1 := by omega
      have rest : (k * 2 ^ 52 + n) % 2 ^ 52 + 2 ^ 52 = n := by omega
      rw [field, rest, if_neg (by omega)]
      rfl

theorem le_midpoint_grid (low : k = 0 ∨ 2 ^ 52 ≤ n) :
    (4 * n + 2 : ℚ) * (2 ^ k * leastQuarter) ≤ midpoint (k * 2 ^ 52 + n) := by
  have gap : 2 ^ k ≤ 2 ^ ((k * 2 ^ 52 + n) / 2 ^ 52 - 1) :=
    Nat.pow_le_pow_right (by decide) (by omega)
  have sum : (4 * n + 2) * 2 ^ k ≤
      2 * steps (k * 2 ^ 52 + n) + 2 * steps (k * 2 ^ 52 + n + 1) := by
    rw [steps_succ, steps_grid high low]
    linarith only [gap]
  rw [midpoint, ← mul_assoc]
  exact mul_le_mul_of_nonneg_right (by exact_mod_cast sum) leastQuarter_pos.le

theorem lowEnd_grid (low : k = 0 ∨ 2 ^ 52 ≤ n) (positive : n ≠ 0) :
    lowEnd (k * 2 ^ 52 + n) < 4 * n * (2 ^ k * leastQuarter) ∧
      (k = 0 ∨ 2 ^ 52 < n → lowEnd (k * 2 ^ 52 + n) ≤ (4 * n - 2) * (2 ^ k * leastQuarter)) := by
  obtain ⟨n, rfl⟩ := Nat.exists_eq_succ_of_ne_zero positive
  have next := steps_succ (k * 2 ^ 52 + n)
  have top := steps_grid high low
  have gap : 0 < 2 ^ ((k * 2 ^ 52 + n) / 2 ^ 52 - 1) := Nat.two_pow_pos _
  rw [Nat.succ_eq_add_one] at *
  rw [← Nat.add_assoc] at top ⊢
  rw [top] at next
  rw [lowEnd, midpoint, top, ← mul_assoc _ (2 ^ k) leastQuarter,
    ← mul_assoc _ (2 ^ k) leastQuarter]
  constructor
  · generalize steps (k * 2 ^ 52 + n) = below at next
    have sum : 2 * below + 2 * ((n + 1) * 2 ^ k) < 4 * (n + 1) * 2 ^ k := by
      linarith only [next, gap]
    have cast : ((2 * below + 2 * ((n + 1) * 2 ^ k) : Nat) : ℚ) < 4 * (n + 1 : Nat) * 2 ^ k := by
      exact_mod_cast sum
    exact mul_lt_mul_of_pos_right cast leastQuarter_pos
  · intro inside
    have field : (k * 2 ^ 52 + n) / 2 ^ 52 - 1 = k := by omega
    rw [field] at next
    generalize steps (k * 2 ^ 52 + n) = below at next
    have cast : ((n : ℚ) + 1) * 2 ^ k = below + 2 ^ k := by exact_mod_cast next
    apply le_of_eq
    congr 1
    push_cast
    linarith only [cast]

theorem roundsTo_grid (low : k = 0 ∨ 2 ^ 52 ≤ n) {q : ℚ} (nonneg : 0 ≤ q)
    (binade : k = 0 ∨ 2 ^ 52 ≤ q) (rounds : RoundsToNat n q) :
    RoundsTo (k * 2 ^ 52 + n) (4 * q * (2 ^ k * leastQuarter)) := by
  have unit : (0 : ℚ) < 2 ^ k * leastQuarter := mul_pos (by positivity) leastQuarter_pos
  have upper := le_midpoint_grid high low
  have lower : lowEnd (k * 2 ^ 52 + n) ≤ 4 * q * (2 ^ k * leastQuarter) ∧
      (n % 2 = 1 → lowEnd (k * 2 ^ 52 + n) < 4 * q * (2 ^ k * leastQuarter)) := by
    by_cases zero : n = 0
    · obtain rfl : k = 0 := by omega
      subst zero
      exact ⟨mul_nonneg (by linarith only [nonneg]) unit.le, fun odd => absurd odd (by decide)⟩
    obtain ⟨coarse, fine⟩ := lowEnd_grid high low zero
    by_cases inside : k = 0 ∨ 2 ^ 52 < n
    · have below := rounds.below
      refine ⟨(fine inside).trans ?_, fun odd => (fine inside).trans_lt ?_⟩
      · exact mul_le_mul_of_nonneg_right (by linarith only [below]) unit.le
      · have strict := (rounds.strict odd).1
        exact mul_lt_mul_of_pos_right (by linarith only [strict]) unit
    · -- At the start of a binade the quotient is not rounded up, so it is not below the number.
      have start : (n : ℚ) ≤ q := by
        obtain rfl : n = 2 ^ 52 := by omega
        exact_mod_cast binade.resolve_left (by omega)
      have above : 4 * n * (2 ^ k * leastQuarter) ≤ 4 * q * (2 ^ k * leastQuarter) :=
        mul_le_mul_of_nonneg_right (by linarith only [start]) unit.le
      exact ⟨(coarse.trans_le above).le, fun _ => coarse.trans_le above⟩
  unfold RoundsTo
  split
  · have above := rounds.above
    refine ⟨lower.1, le_trans ?_ upper⟩
    exact mul_le_mul_of_nonneg_right (by linarith only [above]) unit.le
  · have odd : n % 2 = 1 := by omega
    have strict := (rounds.strict odd).2
    refine ⟨lower.2 odd, lt_of_lt_of_le ?_ upper⟩
    exact mul_lt_mul_of_pos_right (by linarith only [strict]) unit

end Binade

/-! ### Rounding a ratio -/

theorem ratio_eq (num : Nat) {den : Nat} (positive : den ≠ 0) (unit : Int) :
    (num : ℚ) / den =
      (num * 2 ^ (-unit).toNat : Nat) / (den * 2 ^ unit.toNat : Nat) * 2 ^ unit := by
  have power := zpow_mul_toNat (b := 2) (by norm_num) unit
  have nonzero : (den : ℚ) ≠ 0 := Nat.cast_ne_zero.mpr positive
  push_cast
  rw [← power]
  field_simp

theorem two_zpow_unit (k : Nat) : (2 : ℚ) ^ ((k : ℤ) - 1074) = 4 * (2 ^ k * leastQuarter) := by
  have four : (2 : ℚ) ^ (2 : ℤ) = 4 := by norm_num
  rw [leastQuarter, ← zpow_natCast, ← four, ← zpow_add₀ (by norm_num), ← zpow_add₀ (by norm_num)]
  congr 1
  ring

theorem RoundsToNat.le {n m : Nat} {q : ℚ} (rounds : RoundsToNat n q) (small : q < m) :
    n ≤ m := by
  have below := rounds.below
  have cast : (2 * n : ℚ) < 2 * m + 1 := by linarith only [small, below]
  have bound : 2 * n < 2 * m + 1 := by exact_mod_cast cast
  omega

theorem RoundsToNat.ge {n m : Nat} {q : ℚ} (rounds : RoundsToNat n q) (large : m ≤ q) : m ≤ n := by
  have above := rounds.above
  have cast : (2 * m : ℚ) ≤ 2 * n + 1 := by linarith only [large, above]
  have bound : 2 * m ≤ 2 * n + 1 := by exact_mod_cast cast
  omega

theorem roundsTo_units {num den : Nat} (nonzero : num ≠ 0) (positive : den ≠ 0) :
    RoundsTo ((unitScale num den + 1074).toNat * 2 ^ 52 +
      roundQuotient (num * 2 ^ (-unitScale num den).toNat) (den * 2 ^ (unitScale num den).toNat))
      (num / den) := by
  obtain ⟨small, large⟩ := unitScale_spec nonzero positive
  have least : -1074 ≤ unitScale num den := le_max_right _ _
  rw [ratio_eq num positive (unitScale num den)] at small large ⊢
  generalize unitScale num den = unit at *
  obtain ⟨k, rfl⟩ : ∃ k : Nat, unit = k - 1074 := ⟨(unit + 1074).toNat, by omega⟩
  have place : ((k : ℤ) - 1074 + 1074).toNat = k := by omega
  have divisor : 0 < den * 2 ^ ((k : ℤ) - 1074).toNat :=
    Nat.mul_pos (Nat.pos_of_ne_zero positive) (Nat.two_pow_pos _)
  have power : (0 : ℚ) < 2 ^ ((k : ℤ) - 1074) := by positivity
  have rounds := roundsToNat_roundQuotient (num * 2 ^ (-((k : ℤ) - 1074)).toNat) divisor
  rw [add_comm ((k : ℤ) - 1074) 53, zpow_add₀ (by norm_num), mul_lt_mul_iff_left₀ power] at small
  rw [add_comm ((k : ℤ) - 1074) 52, zpow_add₀ (by norm_num), mul_le_mul_iff_left₀ power] at large
  have binade : k = 0 ∨ 2 ^ 52 ≤ ((num * 2 ^ (-((k : ℤ) - 1074)).toNat : Nat) : ℚ) /
      (den * 2 ^ ((k : ℤ) - 1074).toNat : Nat) := by
    by_cases first : k = 0
    · exact .inl first
    · exact .inr (by exact_mod_cast large (by omega))
  have value : ∀ q : ℚ, q * 2 ^ ((k : ℤ) - 1074) = 4 * q * (2 ^ k * leastQuarter) := by
    intro q
    rw [two_zpow_unit]
    ring
  rw [place, value]
  apply roundsTo_grid (rounds.le (by exact_mod_cast small)) ?_ (by positivity) binade rounds
  exact binade.imp_right fun start => rounds.ge (by exact_mod_cast start)

/-- A ratio is rounded to the number in whose interval it lies. -/
theorem roundRatio_eq {num den magnitude : Nat} (positive : den ≠ 0)
    (rounds : RoundsTo magnitude (num / den)) (bounded : magnitude ≤ infinityMagnitude) :
    roundRatio num den = magnitude := by
  unfold roundRatio
  split
  case isTrue zero =>
    have start : RoundsTo 0 (num / den) := by
      have above : 0 ≤ midpoint 0 := mul_nonneg (Nat.cast_nonneg _) leastQuarter_pos.le
      simp [RoundsTo, lowEnd, zero, above]
    exact start.unique rounds
  case isFalse nonzero =>
    have units := (roundsTo_units nonzero positive).unique rounds
    simp only [Nat.pow_eq]
    rw [units]
    exact Nat.min_eq_left bounded

end Binary64

end FrameGraph
