/-
# Floating-point arithmetic and the format `%g`

A floating-point value is a rational number.  All that is needed of the arithmetic is that the
exact result of an operation is rounded, by a function that is monotone and leaves the integers
up to `2^53` as they are (`Rounding`).

`gText p q` is the text that `printf` writes for `q` with the format `%g` and precision `p`: `p`
significant digits, rounded to nearest with ties to even, without trailing zeros, in exponent
form if the exponent is less than `-4` or at least `p`.  A natural number is written out exactly
if it has at most `p` digits; a larger one is written in exponent form.
-/
import TickPlant.Lib.Decimal

namespace TickPlant.Lib

/-! ## Rounding -/

/-- The rounding of a floating-point format. -/
structure Rounding where
  round : ℚ → ℚ
  mono : Monotone round
  round_int : ∀ n : ℤ, |n| ≤ 2 ^ 53 → round n = n

namespace Rounding

/-- Exact arithmetic. -/
def exact : Rounding := ⟨id, monotone_id, fun _ _ => rfl⟩

lemma round_nat (r : Rounding) {n : ℕ} (h : n ≤ 2 ^ 53) : r.round n = n := by
  have := r.round_int n (by rw [Nat.abs_cast]; exact_mod_cast h)
  simpa using this

/-- A value up to a small integer is rounded to one. -/
lemma round_le (r : Rounding) {q : ℚ} {n : ℕ} (hq : q ≤ n) (hn : n ≤ 2 ^ 53) : r.round q ≤ n := by
  rw [← r.round_nat hn]
  exact r.mono hq

lemma round_nonneg (r : Rounding) {q : ℚ} (hq : 0 ≤ q) : 0 ≤ r.round q := by
  have hzero : r.round 0 = 0 := by simpa using r.round_nat (n := 0) (by norm_num)
  rw [← hzero]
  exact r.mono hq

/-- A value between `0` and `1` stays there. -/
lemma round_unit (r : Rounding) {q : ℚ} (hq : 0 ≤ q ∧ q ≤ 1) : 0 ≤ r.round q ∧ r.round q ≤ 1 := by
  refine ⟨r.round_nonneg hq.1, ?_⟩
  have := r.round_le (n := 1) (by simpa using hq.2) (by norm_num)
  simpa using this

end Rounding

/-! ## The format -/

/-- The nearest integer, ties to even. -/
def roundHalfEven (q : ℚ) : ℤ :=
  if q - ⌊q⌋ < 1 / 2 then ⌊q⌋
  else if 1 / 2 < q - ⌊q⌋ then ⌊q⌋ + 1
  else if ⌊q⌋ % 2 = 0 then ⌊q⌋
  else ⌊q⌋ + 1

/-- The `p` significant digits of a positive number and its exponent. -/
def scientific (p : ℕ) (q : ℚ) : ℕ × ℤ :=
  let x := Int.log 10 q
  let m := (roundHalfEven (q / 10 ^ (x + 1 - p))).toNat
  if m = 10 ^ p then (10 ^ (p - 1), x + 1) else (m, x)

/-- The text without its trailing zeros. -/
def stripZeros (ds : List UInt8) : List UInt8 := (ds.reverse.dropWhile (· = 48)).reverse

/-- A fraction: nothing if it is zero. -/
def fraction (ds : List UInt8) : List UInt8 :=
  if stripZeros ds = [] then [] else 46 :: stripZeros ds

/-- The text filled up with zeros on the left. -/
def zeroPad (k : ℕ) (ds : List UInt8) : List UInt8 := List.replicate (k - ds.length) 48 ++ ds

/-- The text of a positive number. -/
def gPositive (p : ℕ) (q : ℚ) : List UInt8 :=
  let (m, x) := scientific p q
  if -4 ≤ x ∧ x < p then
    let k := (p - 1 - x).toNat
    decimal (m / 10 ^ k) ++ fraction (zeroPad k (decimal (m % 10 ^ k)))
  else
    (decimal m).take 1 ++ fraction ((decimal m).drop 1) ++
      101 :: (if x < 0 then 45 else 43) :: zeroPad 2 (decimal x.natAbs)

/-- `%g` with precision `p`. -/
def gText (p : ℕ) (q : ℚ) : List UInt8 :=
  if q = 0 then [48] else if q < 0 then 45 :: gPositive p (-q) else gPositive p q

/-! ## Natural numbers -/

lemma roundHalfEven_natCast (n : ℕ) : roundHalfEven n = n := by
  rw [roundHalfEven, Int.floor_natCast, if_pos (by simp)]

lemma stripZeros_replicate (k : ℕ) : stripZeros (List.replicate k 48) = [] := by
  rw [stripZeros, List.reverse_replicate, List.dropWhile_replicate]
  simp

/-- A number with at most `p` digits has its own digits, filled up with zeros. -/
lemma scientific_of_lt {p n : ℕ} (hn : n ≠ 0) (h : n < 10 ^ p) :
    scientific p n = (n * 10 ^ (p - 1 - Nat.log 10 n), (Nat.log 10 n : ℤ)) := by
  have hlog : Nat.log 10 n < p := Nat.log_lt_of_lt_pow hn h
  have hexp : (10 : ℚ) ^ ((Nat.log 10 n : ℤ) + 1 - p) = ((10 : ℚ) ^ (p - 1 - Nat.log 10 n))⁻¹ := by
    rw [← zpow_natCast, ← zpow_neg]
    congr 1
    omega
  have hround : roundHalfEven ((n : ℚ) / 10 ^ ((Nat.log 10 n : ℤ) + 1 - p)) =
      ((n * 10 ^ (p - 1 - Nat.log 10 n) : ℕ) : ℤ) := by
    rw [hexp, div_inv_eq_mul, ← roundHalfEven_natCast]
    push_cast
    rfl
  have hne : n * 10 ^ (p - 1 - Nat.log 10 n) ≠ 10 ^ p := by
    have hlt : n < 10 ^ (Nat.log 10 n + 1) := Nat.lt_pow_succ_log_self (by norm_num) n
    have hmul : n * 10 ^ (p - 1 - Nat.log 10 n) <
        10 ^ (Nat.log 10 n + 1) * 10 ^ (p - 1 - Nat.log 10 n) :=
      Nat.mul_lt_mul_of_pos_right hlt (by positivity)
    rw [← pow_add, show Nat.log 10 n + 1 + (p - 1 - Nat.log 10 n) = p by omega] at hmul
    omega
  simp only [scientific, Int.log_natCast, hround, Int.toNat_natCast, if_neg hne]

lemma zeroPad_zero (k : ℕ) : ∃ j, zeroPad k (decimal 0) = List.replicate j 48 := by
  refine ⟨k - 1 + 1, ?_⟩
  rw [zeroPad, decimal_of_lt (by norm_num), List.replicate_succ']
  rfl

/-- A number with at most `p` digits is written out. -/
lemma gText_of_lt {p n : ℕ} (h : n < 10 ^ p) : gText p n = decimal n := by
  rcases Nat.eq_zero_or_pos n with rfl | hpos
  · rw [gText, if_pos (by simp), decimal_of_lt (by norm_num)]
    rfl
  have hn : n ≠ 0 := by omega
  have hlog : Nat.log 10 n < p := Nat.log_lt_of_lt_pow hn h
  have hk : ((p : ℤ) - 1 - (Nat.log 10 n : ℤ)).toNat = p - 1 - Nat.log 10 n := by omega
  have hq : ¬ (n : ℚ) < 0 := not_lt.mpr (Nat.cast_nonneg n)
  obtain ⟨j, hj⟩ := zeroPad_zero (p - 1 - Nat.log 10 n)
  have hfraction : fraction (List.replicate j 48) = [] := by
    rw [fraction, if_pos (stripZeros_replicate j)]
  rw [gText, if_neg (by exact_mod_cast hn), if_neg hq, gPositive, scientific_of_lt hn h]
  dsimp only
  rw [if_pos ⟨by omega, by exact_mod_cast hlog⟩, hk, Nat.mul_div_cancel _ (by positivity),
    Nat.mul_mod_left, hj, hfraction, List.append_nil]

/-- The digits of a number with more than `p` digits, and its exponent. -/
lemma scientific_of_le {p n : ℕ} (hp : 0 < p) (h : 10 ^ p ≤ n) :
    (scientific p n).1 < 10 ^ p ∧ (p : ℤ) ≤ (scientific p n).2 := by
  have hlog : p ≤ Nat.log 10 n := Nat.le_log_of_pow_le (by norm_num) h
  -- the quotient has `p` digits before the point, so rounding gives at most `10 ^ p`
  have hquot : (n : ℚ) / 10 ^ ((Nat.log 10 n : ℤ) + 1 - p) < ((10 ^ p : ℕ) : ℤ) := by
    have hlt : (n : ℚ) < 10 ^ (Nat.log 10 n + 1) := by
      exact_mod_cast Nat.lt_pow_succ_log_self (by norm_num) n
    have hexp : (10 : ℚ) ^ p * 10 ^ ((Nat.log 10 n : ℤ) + 1 - p) = 10 ^ (Nat.log 10 n + 1) := by
      rw [← zpow_natCast, ← zpow_natCast, ← zpow_add₀ (by norm_num)]
      congr 1
      push_cast
      ring
    rw [div_lt_iff₀ (by positivity)]
    push_cast
    rw [hexp]
    exact hlt
  have hround : roundHalfEven ((n : ℚ) / 10 ^ ((Nat.log 10 n : ℤ) + 1 - p)) ≤
      ((10 ^ p : ℕ) : ℤ) := by
    have hfloor := Int.floor_lt.mpr hquot
    rw [roundHalfEven]
    repeat' split
    all_goals omega
  have hpos : 0 < 10 ^ p := by positivity
  simp only [scientific, Int.log_natCast]
  split
  · exact ⟨Nat.pow_lt_pow_right (by norm_num) (by omega), by omega⟩
  · refine ⟨?_, by omega⟩
    dsimp only
    omega

/-- A number with more digits is written in exponent form: a digit, at most `p - 1` digits
after the point, and the exponent. -/
lemma gText_of_le {p n : ℕ} (hp : 0 < p) (h : 10 ^ p ≤ n) :
    ∃ d ds rest, gText p n = d :: (fraction ds ++ 101 :: rest) ∧ IsDigit d ∧
      (∀ b ∈ ds, IsDigit b) ∧ ds.length < p := by
  obtain ⟨hm, hx⟩ := scientific_of_le hp h
  have hpos : 0 < 10 ^ p := by positivity
  have hn : (n : ℚ) ≠ 0 := by exact_mod_cast (by omega : n ≠ 0)
  have hq : ¬ (n : ℚ) < 0 := not_lt.mpr (Nat.cast_nonneg n)
  have hdigits := decimal_isDigit (scientific p n).1
  have hlength := length_decimal_le hp hm
  rw [gText, if_neg hn, if_neg hq, gPositive]
  dsimp only
  rw [if_neg (by omega)]
  cases hdec : decimal (scientific p n).1 with
  | nil => exact absurd hdec (decimal_ne_nil _)
  | cons d ds =>
    rw [hdec] at hdigits hlength
    refine ⟨d, ds, _, rfl, hdigits d List.mem_cons_self, ?_, ?_⟩
    · exact fun b hb => hdigits b (List.mem_cons_of_mem _ hb)
    · simpa using hlength

/-! ## The bytes of the text -/

/-- A byte of a text that `%g` writes. -/
def IsGByte (b : UInt8) : Prop := IsDigit b ∨ b ∈ ([43, 45, 46, 101] : List UInt8)

instance : DecidablePred IsGByte := fun _ => inferInstanceAs (Decidable (_ ∨ _))

lemma mem_stripZeros {b : UInt8} {ds : List UInt8} (h : b ∈ stripZeros ds) : b ∈ ds :=
  List.mem_reverse.mp ((List.dropWhile_sublist _).mem (List.mem_reverse.mp h))

lemma isGByte_decimal {b : UInt8} {n : ℕ} (h : b ∈ decimal n) : IsGByte b :=
  Or.inl (decimal_isDigit n b h)

lemma isGByte_fraction {b : UInt8} {ds : List UInt8} (hds : ∀ c ∈ ds, IsGByte c)
    (h : b ∈ fraction ds) : IsGByte b := by
  rw [fraction] at h
  split at h
  · exact absurd h List.not_mem_nil
  · rcases List.mem_cons.mp h with rfl | h
    · decide
    · exact hds b (mem_stripZeros h)

lemma isGByte_zeroPad {b : UInt8} {k n : ℕ} (h : b ∈ zeroPad k (decimal n)) : IsGByte b := by
  rcases List.mem_append.mp h with h | h
  · rw [List.eq_of_mem_replicate h]
    decide
  · exact isGByte_decimal h

lemma isGByte_gPositive {b : UInt8} {p : ℕ} {q : ℚ} (h : b ∈ gPositive p q) : IsGByte b := by
  rw [gPositive] at h
  dsimp only at h
  split at h
  · rcases List.mem_append.mp h with h | h
    · exact isGByte_decimal h
    · exact isGByte_fraction (fun c hc => isGByte_zeroPad hc) h
  · simp only [List.mem_append, List.mem_cons] at h
    rcases h with (h | h) | rfl | rfl | h
    · exact isGByte_decimal (List.mem_of_mem_take h)
    · exact isGByte_fraction (fun c hc => isGByte_decimal (List.mem_of_mem_drop hc)) h
    · decide
    · split <;> decide
    · exact isGByte_zeroPad h

lemma isGByte_gText {b : UInt8} {p : ℕ} {q : ℚ} (h : b ∈ gText p q) : IsGByte b := by
  rw [gText] at h
  split at h
  · rw [List.mem_singleton.mp h]
    decide
  · split at h
    · rcases List.mem_cons.mp h with rfl | h
      · decide
      · exact isGByte_gPositive h
    · exact isGByte_gPositive h

end TickPlant.Lib
