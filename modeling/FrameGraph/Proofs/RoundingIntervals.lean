import FrameGraph.Number.Shortest
import Mathlib.Tactic.Ring
import Mathlib.Tactic.Positivity
import Mathlib.Algebra.Order.Field.Rat
import Mathlib.Data.Rat.Cast.Order
import Mathlib.Algebra.Order.Field.Power

/-!
The rational numbers that round to a binary64 number. Main statement: a rational number rounds to
one magnitude at most.
-/

namespace FrameGraph

namespace Binary64

def magnitude (x : Binary64) : Nat :=
  x.bits.toNat % 2 ^ 63

/-- The magnitude of a word as a multiple of the least positive number. -/
def steps (magnitude : Nat) : Nat :=
  (if magnitude / 2 ^ 52 = 0 then magnitude % 2 ^ 52 else magnitude % 2 ^ 52 + 2 ^ 52) *
    2 ^ (magnitude / 2 ^ 52 - 1)

def leastQuarter : ℚ :=
  2 ^ (-1076 : ℤ)

def midpoint (magnitude : Nat) : ℚ :=
  (2 * steps magnitude + 2 * steps (magnitude + 1) : Nat) * leastQuarter

def lowEnd : Nat → ℚ
  | 0 => 0
  | m + 1 => midpoint m

/-- Whether a rational number rounds to the number of the magnitude: it lies between the mid-points
around that, and an even number may lie at one of them. -/
def RoundsTo (magnitude : Nat) (v : ℚ) : Prop :=
  if magnitude % 2 = 0 then lowEnd magnitude ≤ v ∧ v ≤ midpoint magnitude
  else lowEnd magnitude < v ∧ v < midpoint magnitude

theorem leastQuarter_pos : 0 < leastQuarter := by
  unfold leastQuarter
  positivity

theorem steps_succ (m : Nat) : steps (m + 1) = steps m + 2 ^ (m / 2 ^ 52 - 1) := by
  unfold steps
  by_cases carry : m % 2 ^ 52 = 2 ^ 52 - 1
  · have field : (m + 1) / 2 ^ 52 = m / 2 ^ 52 + 1 := by omega
    have rest : (m + 1) % 2 ^ 52 = 0 := by omega
    rw [field, rest, carry]
    cases m / 2 ^ 52 with
    | zero => rfl
    | succ f =>
        have power : 2 ^ (f + 1 + 1 - 1) = 2 * 2 ^ (f + 1 - 1) := by
          rw [← Nat.pow_succ']
          rfl
        rw [if_neg (by omega), if_neg (by omega), power]
        ring
  · have field : (m + 1) / 2 ^ 52 = m / 2 ^ 52 := by omega
    have rest : (m + 1) % 2 ^ 52 = m % 2 ^ 52 + 1 := by omega
    rw [field, rest]
    split <;> ring

theorem strictMono_midpoint : StrictMono midpoint := by
  apply strictMono_nat_of_lt_succ
  intro m
  have next : steps m < steps (m + 1 + 1) := by
    rw [steps_succ, steps_succ m, Nat.add_assoc]
    exact Nat.lt_add_of_pos_right (by positivity)
  have sum : 2 * steps m + 2 * steps (m + 1) < 2 * steps (m + 1) + 2 * steps (m + 1 + 1) := by
    omega
  exact mul_lt_mul_of_pos_right (Nat.cast_lt.mpr sum) leastQuarter_pos

theorem RoundsTo.low_le {m : Nat} {v : ℚ} (rounds : RoundsTo m v) : lowEnd m ≤ v := by
  unfold RoundsTo at rounds
  split at rounds
  · exact rounds.1
  · exact rounds.1.le

theorem RoundsTo.le_midpoint {m : Nat} {v : ℚ} (rounds : RoundsTo m v) : v ≤ midpoint m := by
  unfold RoundsTo at rounds
  split at rounds
  · exact rounds.2
  · exact rounds.2.le

theorem RoundsTo.even_of_end {m : Nat} {v : ℚ} (rounds : RoundsTo m v)
    (isEnd : v = lowEnd m ∨ v = midpoint m) : m % 2 = 0 := by
  by_contra odd
  rw [RoundsTo, if_neg odd] at rounds
  rcases isEnd with low | high
  · exact rounds.1.ne' low
  · exact rounds.2.ne high

/-- The intervals of different numbers meet in a mid-point at most, and there only one of the two
numbers is even. -/
theorem RoundsTo.le {m n : Nat} {v : ℚ} (left : RoundsTo m v) (right : RoundsTo n v) : n ≤ m := by
  by_contra! below
  obtain ⟨n, rfl⟩ : ∃ before, n = before + 1 := ⟨n - 1, by omega⟩
  have lower : midpoint n ≤ v := right.low_le
  have upper : v ≤ midpoint m := left.le_midpoint
  have order : n ≤ m := strictMono_midpoint.le_iff_le.mp (lower.trans upper)
  obtain rfl : n = m := by omega
  have meet : v = midpoint n := le_antisymm upper lower
  have evenLeft := left.even_of_end (.inr meet)
  have evenRight := right.even_of_end (.inl meet)
  omega

theorem RoundsTo.unique {m n : Nat} {v : ℚ} (left : RoundsTo m v) (right : RoundsTo n v) : m = n :=
  Nat.le_antisymm (right.le left) (left.le right)

/-! ### The interval of a word -/

theorem exponentField_eq (x : Binary64) : x.exponentField = x.magnitude / 2 ^ 52 := by
  change x.bits.toNat / 2 ^ 52 % 2 ^ 11 = x.bits.toNat % 2 ^ 63 / 2 ^ 52
  omega

theorem fraction_eq (x : Binary64) : x.fraction = x.magnitude % 2 ^ 52 := by
  change x.bits.toNat % 2 ^ 52 = x.bits.toNat % 2 ^ 63 % 2 ^ 52
  omega

theorem ext_magnitude {x y : Binary64} (sign : x.isNegative = y.isNegative)
    (same : x.magnitude = y.magnitude) : x = y := by
  have bound := x.bits.toNat_lt
  have boundToo := y.bits.toNat_lt
  have signs : (2 ^ 63 ≤ x.bits.toNat) ↔ 2 ^ 63 ≤ y.bits.toNat := decide_eq_decide.mp sign
  have rest : x.bits.toNat % 2 ^ 63 = y.bits.toNat % 2 ^ 63 := same
  have bits : x.bits.toNat = y.bits.toNat := by omega
  cases x
  cases y
  exact congrArg Binary64.mk (UInt64.toNat_inj.mp bits)

theorem scale_eq (x : Binary64) : x.scale = (x.magnitude / 2 ^ 52 - 1 : Nat) - 1074 := by
  rw [scale, exponentField_eq]
  omega

theorem steps_magnitude (x : Binary64) :
    steps x.magnitude = x.significand * 2 ^ (x.magnitude / 2 ^ 52 - 1) := by
  rw [steps, significand, exponentField_eq, fraction_eq]
  rfl

theorem quarter_eq (x : Binary64) :
    (2 : ℚ) ^ (x.scale - 2) = 2 ^ (x.magnitude / 2 ^ 52 - 1) * leastQuarter := by
  rw [leastQuarter, ← zpow_natCast, ← zpow_add₀ (by norm_num), scale_eq]
  congr 1
  ring

theorem high_eq (x : Binary64) :
    x.roundingInterval.2 * (2 : ℚ) ^ (x.scale - 2) = midpoint x.magnitude := by
  have ends : x.roundingInterval.2 * 2 ^ (x.magnitude / 2 ^ 52 - 1) =
      2 * steps x.magnitude + 2 * steps (x.magnitude + 1) := by
    change (4 * x.significand + 2) * 2 ^ (x.magnitude / 2 ^ 52 - 1) = _
    rw [steps_succ, steps_magnitude]
    ring
  rw [midpoint, quarter_eq, ← ends, ← mul_assoc]
  push_cast
  rfl

def gapBelow (x : Binary64) : Nat :=
  if x.fraction = 0 && 1 < x.exponentField then 1 else 2

theorem gapBelow_eq {x : Binary64} {m : Nat} (next : x.magnitude = m + 1) :
    x.gapBelow * 2 ^ (x.magnitude / 2 ^ 52 - 1) = 2 * 2 ^ (m / 2 ^ 52 - 1) := by
  rw [gapBelow, fraction_eq, exponentField_eq, next]
  split
  · rename_i dense
    obtain ⟨first, above⟩ : (m + 1) % 2 ^ 52 = 0 ∧ 1 < (m + 1) / 2 ^ 52 := by simpa using dense
    have field : (m + 1) / 2 ^ 52 - 1 = m / 2 ^ 52 - 1 + 1 := by omega
    rw [field, Nat.one_mul, Nat.pow_succ']
  · rename_i even
    have field : (m + 1) / 2 ^ 52 - 1 = m / 2 ^ 52 - 1 := by
      have cases : ¬ ((m + 1) % 2 ^ 52 = 0 ∧ 1 < (m + 1) / 2 ^ 52) := by simpa using even
      omega
    rw [field]

theorem low_eq (x : Binary64) :
    x.roundingInterval.1 * (2 : ℚ) ^ (x.scale - 2) = lowEnd x.magnitude := by
  have upper := steps_magnitude x
  cases below : x.magnitude with
  | zero =>
      have significand : x.significand = 0 := by simpa [below, steps] using upper.symm
      simp [roundingInterval, significand, lowEnd]
  | succ m =>
      have ends : x.roundingInterval.1 * 2 ^ (x.magnitude / 2 ^ 52 - 1) =
          2 * steps m + 2 * steps (m + 1) := by
        change (4 * x.significand - x.gapBelow) * 2 ^ (x.magnitude / 2 ^ 52 - 1) = _
        have lower := steps_succ m
        rw [Nat.sub_mul, gapBelow_eq below, Nat.mul_assoc, ← upper, below]
        omega
      rw [lowEnd, midpoint, quarter_eq, ← ends, ← mul_assoc]
      push_cast
      rfl

theorem significand_mod_two (x : Binary64) : x.significand % 2 = x.magnitude % 2 := by
  have power : Nat.pow 2 52 = 2 ^ 52 := rfl
  rw [significand, fraction_eq]
  split <;> omega

/-- The interval of a number holds what rounds to it. -/
theorem roundsTo_magnitude_iff (x : Binary64) (v : ℚ) : RoundsTo x.magnitude v ↔
    if x.significand % 2 = 0 then
      x.roundingInterval.1 * (2 : ℚ) ^ (x.scale - 2) ≤ v ∧
        v ≤ x.roundingInterval.2 * (2 : ℚ) ^ (x.scale - 2)
    else
      x.roundingInterval.1 * (2 : ℚ) ^ (x.scale - 2) < v ∧
        v < x.roundingInterval.2 * (2 : ℚ) ^ (x.scale - 2) := by
  rw [RoundsTo, low_eq, high_eq, significand_mod_two]

end Binary64

end FrameGraph
