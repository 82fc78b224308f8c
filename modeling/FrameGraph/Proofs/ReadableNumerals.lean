import FrameGraph.Document.Json
import FrameGraph.Proofs.FiniteNumerals
import FrameGraph.Proofs.WrittenDecimals

/-!
Numerals that are read as numbers at all. Main statement: the numeral of a finite number is, however
it is rounded on the way.
-/

namespace FrameGraph

/-! ### Digits that are kept -/

theorem digitsValue_append_ge (cs left : List Char) :
    digitsValue cs * 10 ^ left.length ≤ digitsValue (cs ++ left) := by
  have value : digitsValue (cs ++ left) = Nat.ofDigitChars 10 left (digitsValue cs) :=
    Nat.ofDigitChars_append 0
  rw [value, Nat.ofDigitChars_eq_ofDigitChars_zero, Nat.mul_comm]
  exact Nat.le_add_right _ _

theorem digitsValue_lt {cs : List Char} (digits : ∀ c ∈ cs, c.isDigit = true) :
    digitsValue cs < 10 ^ cs.length := by
  induction cs using List.reverseRecOn with
  | nil => decide
  | append_singleton cs c ih =>
      rw [List.forall_mem_append, List.forall_mem_singleton] at digits
      have last : digitValue c ≤ 9 := by
        have bounds := digits.2
        simp only [Char.isDigit, Bool.and_eq_true, decide_eq_true_eq] at bounds
        have nine : c.toNat ≤ '9'.toNat := bounds.2
        exact Nat.sub_le_sub_right nine _
      have front := ih digits.1
      have value : digitsValue (cs ++ [c]) = 10 * digitsValue cs + digitValue c := by
        simp [digitsValue, List.foldl_append]
      rw [value, List.length_append, List.length_singleton, Nat.pow_succ]
      omega

namespace Numeral

theorem exists_takeDigits (start cs : List Char) :
    ∃ taken, cs = taken ++ (takeDigits (digitsValue start) cs).2 ∧
      (takeDigits (digitsValue start) cs).1 = digitsValue (start ++ taken) := by
  induction cs generalizing start with
  | nil => exact ⟨[], rfl, by rw [List.append_nil]; rfl⟩
  | cons c cs ih =>
      have value : 10 * digitsValue start + digitValue c = digitsValue (start ++ [c]) := by
        simp [digitsValue, List.foldl_append]
      simp only [takeDigits, value]
      split
      · obtain ⟨taken, split, value⟩ := ih (start ++ [c])
        exact ⟨c :: taken, congrArg (c :: ·) split, by rw [value, List.append_assoc]; rfl⟩
      · exact ⟨[], rfl, by rw [List.append_nil]⟩

theorem takeDigits_of_short {start cs : List Char}
    (digits : ∀ c ∈ start ++ cs, c.isDigit = true) (short : (start ++ cs).length ≤ 19) :
    takeDigits (digitsValue start) cs = (digitsValue (start ++ cs), []) := by
  induction cs generalizing start with
  | nil => rw [List.append_nil]; rfl
  | cons c cs ih =>
      have regroup : start ++ c :: cs = (start ++ [c]) ++ cs := by simp
      have value : 10 * digitsValue start + digitValue c = digitsValue (start ++ [c]) := by
        simp [digitsValue, List.foldl_append]
      rw [regroup] at digits short
      have small := digitsValue_lt fun d member => digits d (List.mem_append_left _ member)
      have power : 10 ^ (start ++ [c]).length ≤ 10 ^ 19 :=
        Nat.pow_le_pow_right (by decide) (le_trans (by simp) short)
      have fits : digitsValue (start ++ [c]) < Nat.pow 2 64 :=
        (small.trans_le power).trans (by decide)
      rw [takeDigits, value, if_pos fits, ih digits short, regroup]

theorem scaled_le_magnitude {n : Numeral} (decimal : n.Decimal)
    (short : n.whole.toList.length ≤ 19) :
    (n.scaled.1 : ℚ) * 10 ^ n.scaled.2 ≤ n.magnitude := by
  have whole : takeDigits 0 n.whole.toList = (digitsValue n.whole.toList, []) :=
    @takeDigits_of_short [] _ decimal.whole short
  obtain ⟨taken, split, value⟩ := exists_takeDigits n.whole.toList (n.fraction.getD "").toList
  simp only [scaled, whole, magnitude, digits, power]
  generalize takeDigits (digitsValue n.whole.toList) (n.fraction.getD "").toList = kept at *
  obtain ⟨significand, left⟩ := kept
  simp only at split value
  have exponent : (([] : List Char).length : Int) -
      ((n.fraction.getD "").toList.length - left.length : Nat) + n.exponentValue =
      left.length + (n.exponentValue - (n.fraction.getD "").toList.length) := by
    have longer := congrArg List.length split
    rw [List.length_append] at longer
    simp only [List.length_nil]
    omega
  have more := digitsValue_append_ge (n.whole.toList ++ taken) left
  rw [List.append_assoc, ← split, ← value] at more
  rw [exponent, zpow_add₀ (by norm_num), zpow_natCast, ← mul_assoc]
  exact mul_le_mul_of_nonneg_right (by exact_mod_cast more) (by positivity)

end Numeral

/-! ### Numbers that are not rounded to infinity -/

namespace Binary64

def value (x : Binary64) : ℚ :=
  x.significand * 2 ^ x.scale

/-- The least number that is rounded to infinity: half a unit above the largest finite number. -/
def overflow : ℚ :=
  midpoint (infinityMagnitude - 1)

theorem magnitude_ofMagnitude (negative : Bool) {magnitude : Nat}
    (bounded : magnitude ≤ infinityMagnitude) :
    (ofMagnitude negative magnitude).magnitude = magnitude := by
  have small : magnitude ≤ 2047 * 2 ^ 52 := bounded
  have fits : magnitude + (if negative then Nat.pow 2 63 else 0) < UInt64.size := by
    have sign : (if negative then Nat.pow 2 63 else 0) ≤ 2 ^ 63 := by cases negative <;> decide
    have size : UInt64.size = 2 ^ 64 := rfl
    omega
  have word : (ofMagnitude negative magnitude).magnitude =
      (magnitude + if negative then 2 ^ 63 else 0) % 2 ^ 63 := by
    unfold Binary64.magnitude ofMagnitude
    exact congrArg (· % 2 ^ 63) (UInt64.toNat_ofNat_of_lt' fits)
  rw [word]
  split <;> omega

section Ratio

variable {num den : Nat} (nonzero : num ≠ 0) (positive : den ≠ 0)
  (small : (num : ℚ) / den < overflow)

include nonzero positive small

theorem roundsTo_roundRatio :
    RoundsTo (roundRatio num den) (num / den) ∧ roundRatio num den < infinityMagnitude := by
  have rounds := roundsTo_units nonzero positive
  unfold roundRatio
  rw [if_neg nonzero]
  simp only [Nat.pow_eq]
  generalize (unitScale num den + 1074).toNat * 2 ^ 52 + _ = magnitude at rounds
  have bounded : magnitude < infinityMagnitude := by
    by_contra! above
    have positive : 0 < infinityMagnitude := by decide
    obtain ⟨below, rfl⟩ : ∃ below, magnitude = below + 1 := ⟨magnitude - 1, by omega⟩
    have order := strictMono_midpoint.lt_iff_lt.mp (rounds.low_le.trans_lt small)
    omega
  rw [min_eq_left bounded.le]
  exact ⟨rounds, bounded⟩

theorem roundsTo_ofRatio (negative : Bool) :
    RoundsTo (ofRatio negative num den).magnitude (num / den) := by
  obtain ⟨rounds, bounded⟩ := roundsTo_roundRatio nonzero positive small
  rwa [ofRatio, magnitude_ofMagnitude _ bounded.le]

theorem isFinite_ofRatio (negative : Bool) : (ofRatio negative num den).isFinite := by
  obtain ⟨-, bounded⟩ := roundsTo_roundRatio nonzero positive small
  have power : infinityMagnitude = 2047 * 2 ^ 52 := rfl
  refine decide_eq_true ?_
  rw [ofRatio, exponentField_ofMagnitude _ bounded.le]
  omega

end Ratio

theorem isFinite_mul {x y : Binary64} (nonzero : x.significand ≠ 0) (nonzeroToo : y.significand ≠ 0)
    (small : x.value * y.value < overflow) : (x.mul y).isFinite := by
  have power := zpow_mul_toNat (b := 2) (by norm_num) (x.scale + y.scale)
  refine isFinite_ofRatio ?_ ?_ ?_ _
  · exact Nat.mul_ne_zero (Nat.mul_ne_zero nonzero nonzeroToo) (Nat.two_pow_pos _).ne'
  · exact (Nat.two_pow_pos _).ne'
  · simp only [Nat.pow_eq]
    push_cast
    rw [← power, zpow_add₀ (by norm_num), ← mul_assoc, mul_div_assoc, div_self (by positivity),
      mul_one]
    calc
      (x.significand : ℚ) * y.significand * (2 ^ x.scale * 2 ^ y.scale) = x.value * y.value := by
        rw [value, value]
        ring
      _ < overflow := small

theorem midpoint_grid {k n : Nat} (high : n < 2 ^ 53) (low : k = 0 ∨ 2 ^ 52 ≤ n) :
    midpoint (k * 2 ^ 52 + n) = ((4 * n + 2) * 2 ^ k : Nat) * leastQuarter := by
  have next := steps_grid (n := n + 1) high (low.imp_right Nat.le_succ_of_le)
  have sum : 2 * steps (k * 2 ^ 52 + n) + 2 * steps (k * 2 ^ 52 + n + 1) =
      (4 * n + 2) * 2 ^ k := by
    rw [Nat.add_assoc (k * 2 ^ 52), next, steps_grid high.le low]
    ring
  rw [midpoint, sum]

theorem two_pow_le_significand {x : Binary64} {v : ℚ} (rounds : RoundsTo x.magnitude v)
    (normal : 1 ≤ v) : 2 ^ 52 ≤ x.significand := by
  by_contra! subnormal
  have field : x.exponentField = 0 := by
    by_contra field
    rw [Binary64.significand, if_neg field] at subnormal
    exact absurd subnormal (Nat.not_lt.mpr (Nat.le_add_left ..))
  rw [exponentField_eq, Nat.div_eq_zero_iff_lt (by decide)] at field
  have below := rounds.le_midpoint.trans (strictMono_midpoint.monotone field.le)
  have tiny : midpoint (2 ^ 52) < 1 := by
    have grid := midpoint_grid (k := 0) (n := 2 ^ 52) (by decide) (.inl rfl)
    have unit : leastQuarter ≤ 2 ^ (-60 : ℤ) := zpow_le_zpow_right₀ (by norm_num) (by norm_num)
    norm_num at grid unit ⊢
    rw [grid]
    linarith only [unit]
  linarith only [normal, below, tiny]

theorem value_le_of_roundsTo {x : Binary64} {v : ℚ} (rounds : RoundsTo x.magnitude v)
    (normal : 1 ≤ v) : x.value * (2 ^ 53 - 1) ≤ v * 2 ^ 53 := by
  have significand := two_pow_le_significand rounds normal
  have interval : (4 * x.significand - 2 : ℚ) ≤ x.roundingInterval.1 := by
    have whole : 4 * x.significand ≤ x.roundingInterval.1 + 2 := by
      simp only [roundingInterval]
      split <;> omega
    have cast : (4 * x.significand : ℚ) ≤ x.roundingInterval.1 + 2 := by exact_mod_cast whole
    linarith only [cast]
  have unit : (0 : ℚ) ≤ 2 ^ (x.scale - 2) := by positivity
  have low := x.low_eq ▸ rounds.low_le
  have quarters : x.value = 4 * x.significand * 2 ^ (x.scale - 2) := by
    rw [value, zpow_sub₀ (by norm_num)]
    ring
  have large : (2 ^ 52 : ℚ) ≤ x.significand := by exact_mod_cast significand
  calc
    x.value * (2 ^ 53 - 1) = 4 * x.significand * (2 ^ 53 - 1) * 2 ^ (x.scale - 2) := by
      rw [quarters]
      ring
    _ ≤ (4 * x.significand - 2 : ℚ) * 2 ^ 53 * 2 ^ (x.scale - 2) :=
      mul_le_mul_of_nonneg_right (by linarith only [large]) unit
    _ = (4 * x.significand - 2 : ℚ) * 2 ^ (x.scale - 2) * 2 ^ 53 := by ring
    _ ≤ x.roundingInterval.1 * 2 ^ (x.scale - 2) * 2 ^ 53 := by gcongr
    _ ≤ v * 2 ^ 53 := by gcongr

theorem overflow_eq : overflow = (36028797018963966 * 2 ^ 2045 : Nat) * leastQuarter := by
  have place : infinityMagnitude - 1 = 2045 * 2 ^ 52 + (2 ^ 53 - 1) := rfl
  have quarters : 4 * (2 ^ 53 - 1) + 2 = 36028797018963966 := rfl
  rw [overflow, place, midpoint_grid (by decide) (.inr (by decide)), quarters]

theorem overflow_eq_ratio : overflow = (36028797018963966 * 2 ^ 2045 : Nat) / (2 ^ 1076 : Nat) := by
  rw [overflow_eq, leastQuarter, zpow_neg, div_eq_mul_inv]
  norm_cast

theorem overflow_bounds : ((10 ^ 308 : Nat) : ℚ) < overflow ∧ overflow < (10 ^ 309 : Nat) := by
  have powers : 10 ^ 308 * 2 ^ 1076 < 36028797018963966 * 2 ^ 2045 ∧
      36028797018963966 * 2 ^ 2045 < 10 ^ 309 * 2 ^ 1076 := by
    decide +kernel
  rw [overflow_eq_ratio, lt_div_iff₀ (by positivity), div_lt_iff₀ (by positivity), ← Nat.cast_mul,
    ← Nat.cast_mul, Nat.cast_lt, Nat.cast_lt]
  exact powers

/-- The numbers below the largest but one, and those that round to them, are not rounded to infinity
when their two factors are rounded before they are multiplied. -/
theorem midpoint_mul_lt_overflow {magnitude : Nat} (bounded : magnitude + 3 ≤ infinityMagnitude) :
    midpoint magnitude * (2 ^ 53 * 2 ^ 53) < overflow * ((2 ^ 53 - 1) * (2 ^ 53 - 1)) := by
  have below : midpoint (infinityMagnitude - 3) =
      (36028797018963958 * 2 ^ 2045 : Nat) * leastQuarter := by
    have place : infinityMagnitude - 3 = 2045 * 2 ^ 52 + (2 ^ 53 - 3) := rfl
    have quarters : 4 * (2 ^ 53 - 3) + 2 = 36028797018963958 := rfl
    rw [place, midpoint_grid (by decide) (.inr (by decide)), quarters]
  have order : midpoint magnitude ≤ midpoint (infinityMagnitude - 3) :=
    strictMono_midpoint.monotone (by omega)
  rw [below] at order
  rw [overflow_eq]
  have positive : 0 < 2 ^ 2045 := by positivity
  generalize 2 ^ 2045 = n at *
  have unit : (0 : ℚ) < n * leastQuarter := mul_pos (Nat.cast_pos.mpr positive) leastQuarter_pos
  push_cast at order ⊢
  calc
    midpoint magnitude * (2 ^ 53 * 2 ^ 53)
        ≤ 36028797018963958 * n * leastQuarter * (2 ^ 53 * 2 ^ 53) := by gcongr
    _ = 36028797018963958 * (2 ^ 53 * 2 ^ 53) * (n * leastQuarter) := by ring
    _ < 36028797018963966 * ((2 ^ 53 - 1) * (2 ^ 53 - 1)) * (n * leastQuarter) :=
      mul_lt_mul_of_pos_right (by norm_num) unit
    _ = 36028797018963966 * n * leastQuarter * ((2 ^ 53 - 1) * (2 ^ 53 - 1)) := by ring

theorem roundsTo_ofNat {n : Nat} (positive : n ≠ 0) (small : (n : ℚ) < overflow) :
    RoundsTo (ofNat n).magnitude n := by
  have rounds := roundsTo_ofRatio positive Nat.one_ne_zero (by simpa using small) false
  rwa [Nat.cast_one, div_one] at rounds

end Binary64

namespace Numeral

open Binary64

theorem isFinite_mul_ofNat {m n magnitude : Nat} (nonzero : m ≠ 0) (nonzeroToo : n ≠ 0)
    (small : (m : ℚ) < overflow) (smallToo : (n : ℚ) < overflow)
    (bounded : magnitude + 3 ≤ infinityMagnitude)
    (below : (m * n : ℚ) ≤ midpoint magnitude) :
    ((Binary64.ofNat m).mul (Binary64.ofNat n)).isFinite := by
  have least : (1 : ℚ) ≤ m := by exact_mod_cast Nat.one_le_iff_ne_zero.mpr nonzero
  have leastToo : (1 : ℚ) ≤ n := by exact_mod_cast Nat.one_le_iff_ne_zero.mpr nonzeroToo
  have rounds := roundsTo_ofNat nonzero small
  have roundsToo := roundsTo_ofNat nonzeroToo smallToo
  have left := value_le_of_roundsTo rounds least
  have right := value_le_of_roundsTo roundsToo leastToo
  have positive := (Nat.two_pow_pos 52).trans_le (two_pow_le_significand rounds least)
  have positiveToo := (Nat.two_pow_pos 52).trans_le (two_pow_le_significand roundsToo leastToo)
  refine isFinite_mul positive.ne' positiveToo.ne' ?_
  have parts : (0 : ℚ) < (2 ^ 53 - 1) * (2 ^ 53 - 1) := by norm_num
  refine lt_of_mul_lt_mul_right ?_ parts.le
  calc
    (Binary64.ofNat m).value * (Binary64.ofNat n).value * ((2 ^ 53 - 1) * (2 ^ 53 - 1))
        = (Binary64.ofNat m).value * (2 ^ 53 - 1) *
          ((Binary64.ofNat n).value * (2 ^ 53 - 1)) := by ring
    _ ≤ (m * 2 ^ 53 * (n * 2 ^ 53) : ℚ) := by
      refine mul_le_mul left right ?_ (by positivity)
      exact mul_nonneg (mul_nonneg (by positivity) (by positivity)) (by norm_num)
    _ = (m * n * (2 ^ 53 * 2 ^ 53) : ℚ) := by ring
    _ ≤ midpoint magnitude * (2 ^ 53 * 2 ^ 53) := by gcongr
    _ < overflow * ((2 ^ 53 - 1) * (2 ^ 53 - 1)) := midpoint_mul_lt_overflow bounded

theorem isSome_scaleByTen {significand magnitude : Nat} {k : Int} (small : significand < 2 ^ 64)
    (bounded : magnitude + 3 ≤ infinityMagnitude)
    (below : (significand : ℚ) * 10 ^ k ≤ midpoint magnitude) :
    (scaleByTen (Binary64.ofNat significand) k).isSome := by
  unfold scaleByTen
  split
  · rfl
  rename_i nonzero
  have positive : significand ≠ 0 := by
    rintro rfl
    exact nonzero (by decide)
  have least : (1 : ℚ) ≤ significand := by exact_mod_cast Nat.one_le_iff_ne_zero.mpr positive
  have end_lt : midpoint magnitude < overflow := strictMono_midpoint (by omega)
  split
  · rename_i large
    have power : (10 : ℚ) ^ (309 : ℤ) ≤ 10 ^ k :=
      zpow_le_zpow_right₀ (by norm_num) (by omega)
    refine absurd overflow_bounds.2 (not_lt.mpr ?_)
    calc
      ((10 ^ 309 : Nat) : ℚ) = 10 ^ 309 := Nat.cast_pow 10 309
      _ ≤ 10 ^ k := power
      _ ≤ significand * 10 ^ k := le_mul_of_one_le_left (by positivity) least
      _ ≤ overflow := below.trans end_lt.le
  rename_i reached
  split
  · rename_i nonnegative
    obtain ⟨n, rfl⟩ : ∃ n : Nat, k = n := ⟨k.toNat, by omega⟩
    rw [Int.toNat_natCast]
    have word : 2 ^ 64 ≤ 10 ^ 308 :=
      calc
        2 ^ 64 ≤ 10 ^ 20 := by decide
        _ ≤ 10 ^ 308 := pow_le_pow_right₀ (by decide) (by decide)
    have few : (significand : ℚ) < overflow :=
      lt_trans (Nat.cast_lt.mpr (small.trans_le word)) overflow_bounds.1
    have power : ((10 ^ n : Nat) : ℚ) < overflow :=
      lt_of_le_of_lt (Nat.cast_le.mpr (Nat.pow_le_pow_right (by decide) (by omega)))
        overflow_bounds.1
    have finite := isFinite_mul_ofNat positive (by positivity) few power bounded
      (by rwa [Nat.cast_pow, Nat.cast_ofNat, ← zpow_natCast])
    exact Option.isSome_ite.mpr finite
  split
  · rfl
  split
  · rfl
  · rfl

end Numeral

/-! ### Numerals of finite numbers -/

theorem length_whole_jsonLayout (negative : Bool) (d : Decimal) :
    (jsonLayout.numeral negative d).whole.toList.length ≤ 19 := by
  have zero : "0".toList.length ≤ 19 := by decide
  unfold DecimalLayout.numeral
  simp only
  split
  · exact zero
  split
  · rename_i positional
    obtain ⟨-, below⟩ : (-5 : Int) ≤ _ ∧ _ < (16 : Int) := by
      simpa [jsonLayout] using positional
    split
    · simp [DecimalLayout.zeros]
      omega
    split
    · simp
      omega
    · exact zero
  · simp

/-- The two largest numbers are too close to infinity for the bounds on rounding. -/
theorem isSome_toBinary64?_largest (negative : Bool) :
    ∀ magnitude ∈ [Binary64.infinityMagnitude - 1, Binary64.infinityMagnitude - 2],
      (jsonLayout.ofBinary64 (.ofMagnitude negative magnitude)).toBinary64?.isSome := by
  cases negative <;> decide +kernel

theorem isSome_toBinary64?_of_isFinite {x : Binary64} (finite : x.isFinite) :
    (jsonLayout.ofBinary64 x).toBinary64?.isSome := by
  by_cases bounded : x.magnitude + 3 ≤ Binary64.infinityMagnitude
  · have decimal := (jsonLayout.allowed_ofBinary64 x).decimal
    have written : (jsonLayout.ofBinary64 x).magnitude ≤ Binary64.midpoint x.magnitude := by
      rw [DecimalLayout.ofBinary64, DecimalLayout.magnitude_numeral]
      exact (x.roundsTo_shortest jsonLayout.tie).le_midpoint
    have read := Numeral.scaled_le_magnitude decimal (length_whole_jsonLayout _ _)
    rw [Numeral.toBinary64?, Option.isSome_map]
    exact Numeral.isSome_scaleByTen (Numeral.significand_lt _) bounded (read.trans written)
  · have field : x.exponentField < 2047 := of_decide_eq_true finite
    have infinity : Binary64.infinityMagnitude = 2047 * 2 ^ 52 := rfl
    rw [Binary64.exponentField_eq] at field
    have large : x.magnitude ∈
        [Binary64.infinityMagnitude - 1, Binary64.infinityMagnitude - 2] := by
      rw [List.mem_pair]
      omega
    exact x.ofMagnitude_magnitude ▸ isSome_toBinary64?_largest x.isNegative x.magnitude large

/-- JSON has a numeral for just the finite numbers, and all of these are read. -/
theorem Binary64.isSome_float?_toJson (x : Binary64) : x.toJson.float?.isSome ↔ x.isFinite := by
  unfold toJson
  split
  · rename_i finite
    exact iff_of_true (isSome_toBinary64?_of_isFinite finite) finite
  · rename_i infinite
    exact iff_of_false Bool.false_ne_true infinite

end FrameGraph
