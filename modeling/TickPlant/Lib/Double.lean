/-
# Double precision

`roundDouble q` is the double nearest to `q`, with ties to the even significand: the 53 leading
binary digits of `q` are kept, that is, `q` is rounded to a multiple of `2 ^ ulpExp q`.  The
exponent is not bounded, so there are no subnormal values and no overflow; the quantities and
ranks that are computed with it are far from both.

Rounding to the nearest integer is monotone and odd, and so is `roundDouble`: between two powers
of two it is a scaled rounding to the nearest integer, and it leaves the powers of two as they are.
The integers up to `2 ^ 53` are doubles, so `roundDouble` is a `Rounding`; `2 ^ 53 + 1` is not.
-/
import TickPlant.Lib.Float

namespace TickPlant.Lib

/-! ## The nearest integer -/

section NearestInteger

variable {q r : ℚ}

lemma floor_le_roundHalfEven (q : ℚ) : ⌊q⌋ ≤ roundHalfEven q := by
  rw [roundHalfEven]
  split_ifs <;> omega

lemma roundHalfEven_le_floor_add_one (q : ℚ) : roundHalfEven q ≤ ⌊q⌋ + 1 := by
  rw [roundHalfEven]
  split_ifs <;> omega

lemma roundHalfEven_intCast (n : ℤ) : roundHalfEven n = n := by
  rw [roundHalfEven, Int.floor_intCast, if_pos (by simp)]

lemma roundHalfEven_mono : Monotone roundHalfEven := by
  intro q r hqr
  rcases (Int.floor_mono hqr).lt_or_eq with hlt | heq
  · calc roundHalfEven q ≤ ⌊q⌋ + 1 := roundHalfEven_le_floor_add_one q
      _ ≤ ⌊r⌋ := hlt
      _ ≤ roundHalfEven r := floor_le_roundHalfEven r
  · -- with the same floor, a larger fraction is never rounded down instead of up
    rw [roundHalfEven, roundHalfEven, ← heq]
    split_ifs <;> first | omega | (exfalso; linarith)

lemma roundHalfEven_neg (q : ℚ) : roundHalfEven (-q) = -roundHalfEven q := by
  have hle := Int.floor_le q
  have hlt := Int.lt_floor_add_one q
  rcases hle.eq_or_lt with heq | hpos
  · rw [← heq, ← Int.cast_neg, roundHalfEven_intCast, roundHalfEven_intCast]
  · have hfloor : ⌊-q⌋ = -⌊q⌋ - 1 := by
      rw [Int.floor_eq_iff]
      push_cast
      constructor <;> linarith
    rw [roundHalfEven, roundHalfEven, hfloor]
    push_cast
    split_ifs <;> first | omega | (exfalso; linarith)

end NearestInteger

/-! ## Rounding to a double -/

/-- The exponent of the last binary digit that a double of the size of `q` has. -/
def ulpExp (q : ℚ) : ℤ := Int.log 2 |q| - 52

/-- The double nearest to `q`. -/
def roundDouble (q : ℚ) : ℚ := roundHalfEven (q / 2 ^ ulpExp q) * 2 ^ ulpExp q

lemma roundDouble_neg (q : ℚ) : roundDouble (-q) = -roundDouble q := by
  have hexp : ulpExp (-q) = ulpExp q := by rw [ulpExp, ulpExp, abs_neg]
  rw [roundDouble, roundDouble, hexp, neg_div, roundHalfEven_neg]
  push_cast
  ring

lemma roundDouble_zero : roundDouble 0 = 0 := by
  have h := roundHalfEven_intCast 0
  rw [Int.cast_zero] at h
  rw [roundDouble, zero_div, h, Int.cast_zero, zero_mul]

section Positive

variable {q r : ℚ}

/-- A positive number has its leading digit at `2 ^ 52` units of its last place. -/
lemma two_pow_le_div_ulp (hq : 0 < q) : (2 : ℚ) ^ 52 ≤ q / 2 ^ ulpExp q := by
  rw [le_div_iff₀ (by positivity), ulpExp, abs_of_pos hq, ← zpow_natCast,
    ← zpow_add₀ (by norm_num)]
  push_cast
  rw [add_sub_cancel]
  exact_mod_cast Int.zpow_log_le_self (b := 2) (by norm_num) hq

lemma div_ulp_lt (hq : 0 < q) : q / 2 ^ ulpExp q < (2 : ℚ) ^ 53 := by
  rw [div_lt_iff₀ (by positivity), ulpExp, abs_of_pos hq, ← zpow_natCast,
    ← zpow_add₀ (by norm_num)]
  push_cast
  rw [show (53 : ℤ) + (Int.log 2 q - 52) = Int.log 2 q + 1 by ring]
  exact_mod_cast Int.lt_zpow_succ_log_self (b := 2) (by norm_num) q

/-- A positive number is not rounded below the power of two under it. -/
lemma two_zpow_log_le_roundDouble (hq : 0 < q) : (2 : ℚ) ^ Int.log 2 q ≤ roundDouble q := by
  have hround : (2 : ℤ) ^ 52 ≤ roundHalfEven (q / 2 ^ ulpExp q) := by
    rw [← roundHalfEven_intCast (2 ^ 52)]
    refine roundHalfEven_mono ?_
    exact_mod_cast two_pow_le_div_ulp hq
  have hscale : (2 : ℚ) ^ Int.log 2 q = 2 ^ 52 * 2 ^ ulpExp q := by
    rw [ulpExp, abs_of_pos hq, ← zpow_natCast, ← zpow_add₀ (by norm_num)]
    congr 1
    push_cast
    ring
  rw [roundDouble, hscale]
  refine mul_le_mul_of_nonneg_right ?_ (by positivity)
  exact_mod_cast hround

/-- A positive number is not rounded beyond the power of two above it. -/
lemma roundDouble_le_two_zpow_log (hq : 0 < q) : roundDouble q ≤ (2 : ℚ) ^ (Int.log 2 q + 1) := by
  have hround : roundHalfEven (q / 2 ^ ulpExp q) ≤ (2 : ℤ) ^ 53 := by
    rw [← roundHalfEven_intCast (2 ^ 53)]
    refine roundHalfEven_mono ?_
    exact_mod_cast (div_ulp_lt hq).le
  have hscale : (2 : ℚ) ^ (Int.log 2 q + 1) = 2 ^ 53 * 2 ^ ulpExp q := by
    rw [ulpExp, abs_of_pos hq, ← zpow_natCast, ← zpow_add₀ (by norm_num)]
    congr 1
    push_cast
    ring
  rw [roundDouble, hscale]
  refine mul_le_mul_of_nonneg_right ?_ (by positivity)
  exact_mod_cast hround

lemma roundDouble_pos (hq : 0 < q) : 0 < roundDouble q :=
  lt_of_lt_of_le (by positivity) (two_zpow_log_le_roundDouble hq)

lemma roundDouble_mono_of_pos (hq : 0 < q) (hqr : q ≤ r) : roundDouble q ≤ roundDouble r := by
  have hr : 0 < r := hq.trans_le hqr
  rcases (Int.log_mono_right (b := 2) hq hqr).lt_or_eq with hlt | heq
  · -- a power of two lies between the two results
    calc roundDouble q ≤ (2 : ℚ) ^ (Int.log 2 q + 1) := roundDouble_le_two_zpow_log hq
      _ ≤ (2 : ℚ) ^ Int.log 2 r := zpow_le_zpow_right₀ (by norm_num) hlt
      _ ≤ roundDouble r := two_zpow_log_le_roundDouble hr
  · have hexp : ulpExp q = ulpExp r := by
      rw [ulpExp, ulpExp, abs_of_pos hq, abs_of_pos hr, heq]
    rw [roundDouble, roundDouble, hexp]
    refine mul_le_mul_of_nonneg_right ?_ (by positivity)
    exact_mod_cast roundHalfEven_mono (div_le_div_of_nonneg_right hqr (by positivity))

end Positive

/-- Rounding keeps the sign. -/
lemma roundDouble_nonpos_iff {q : ℚ} : roundDouble q ≤ 0 ↔ q ≤ 0 := by
  rcases lt_trichotomy q 0 with hneg | rfl | hpos
  · have h := roundDouble_pos (q := -q) (by linarith)
    rw [roundDouble_neg] at h
    exact iff_of_true (by linarith) hneg.le
  · rw [roundDouble_zero]
  · exact iff_of_false (not_le.mpr (roundDouble_pos hpos)) (not_le.mpr hpos)

lemma roundDouble_mono : Monotone roundDouble := by
  intro q r hqr
  rcases le_or_gt q 0 with hq | hq
  · rcases le_or_gt 0 r with hr | hr
    · have hr' : 0 ≤ roundDouble r := by
        have h := roundDouble_nonpos_iff.mpr (neg_nonpos.mpr hr)
        rw [roundDouble_neg] at h
        linarith
      exact (roundDouble_nonpos_iff.mpr hq).trans hr'
    · have h := roundDouble_mono_of_pos (q := -r) (r := -q) (by linarith) (by linarith)
      rw [roundDouble_neg, roundDouble_neg] at h
      linarith
  · exact roundDouble_mono_of_pos hq hqr

/-- An integer multiple of the last place is a double. -/
lemma roundDouble_of_mul {q : ℚ} {n : ℤ} (h : q = n * 2 ^ ulpExp q) : roundDouble q = q := by
  have hdiv : q / 2 ^ ulpExp q = n := by
    rw [div_eq_iff (by positivity)]
    exact h
  rw [roundDouble, hdiv, roundHalfEven_intCast]
  exact h.symm

/-- The integers up to `2 ^ 53` are doubles. -/
lemma roundDouble_intCast {n : ℤ} (h : |n| ≤ 2 ^ 53) : roundDouble n = n := by
  rcases eq_or_ne n 0 with rfl | hn
  · rw [Int.cast_zero, roundDouble_zero]
  have hpos : (0 : ℚ) < |(n : ℚ)| := abs_pos.mpr (by exact_mod_cast hn)
  have hle : |(n : ℚ)| ≤ 2 ^ 53 := by exact_mod_cast h
  rcases hle.lt_or_eq with hlt | heq
  · -- the last place is a fraction with a power of two as its denominator
    have hlog : Int.log 2 |(n : ℚ)| < 53 := by
      rw [← Int.lt_zpow_iff_log_lt (by norm_num) hpos]
      exact_mod_cast hlt
    refine roundDouble_of_mul (n := n * 2 ^ (-ulpExp n).toNat) ?_
    have hexp : ((-ulpExp (n : ℚ)).toNat : ℤ) = -ulpExp (n : ℚ) := by
      rw [ulpExp]
      omega
    push_cast
    rw [mul_assoc, ← zpow_natCast, hexp, ← zpow_add₀ (by norm_num), neg_add_cancel, zpow_zero,
      mul_one]
  · -- the power of two itself is half as many units of a last place twice as large
    have hlog : Int.log 2 |(n : ℚ)| = 53 := by
      rw [heq]
      exact_mod_cast Int.log_zpow (R := ℚ) (b := 2) (by norm_num) 53
    rcases abs_eq (by norm_num) |>.mp (show |n| = 2 ^ 53 by exact_mod_cast heq) with rfl | rfl
    · refine roundDouble_of_mul (n := 2 ^ 52) ?_
      rw [ulpExp, hlog]
      norm_num
    · refine roundDouble_of_mul (n := -2 ^ 52) ?_
      rw [ulpExp, hlog]
      norm_num

/-- Double precision. -/
def Rounding.double : Rounding := ⟨roundDouble, roundDouble_mono, fun _ h => roundDouble_intCast h⟩

lemma roundDouble_natCast {n : ℕ} (h : n ≤ 2 ^ 53) : roundDouble n = n :=
  Rounding.double.round_nat h

end TickPlant.Lib
