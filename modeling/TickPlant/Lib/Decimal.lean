/-
# Decimal texts of natural numbers

`decimal n` is the usual decimal text of `n`, as a list of ASCII bytes, and `ofDigits` the
value of a list of digits, read from the left.  This file has what a formatter and a
hand-written digit loop need to agree on: the text consists of digits, it does not start with
`0` unless it is `0`, its length is fixed by the powers of ten around `n`, and its value is
`n`.
-/
import Mathlib

namespace TickPlant.Lib

/-- The ASCII digit of `d`. -/
def digit (d : ℕ) : UInt8 := 48 + UInt8.ofNat d

/-- An ASCII digit. -/
def IsDigit (b : UInt8) : Prop := 48 ≤ b ∧ b ≤ 57

instance : DecidablePred IsDigit := fun _ => inferInstanceAs (Decidable (_ ∧ _))

/-- The value of a digit. -/
def digitValue (b : UInt8) : ℕ := b.toNat - 48

lemma isDigit_digit {d : ℕ} (h : d < 10) : IsDigit (digit d) := by
  interval_cases d <;> decide

lemma digitValue_digit {d : ℕ} (h : d < 10) : digitValue (digit d) = d := by
  interval_cases d <;> decide

lemma digit_ne_zero {d : ℕ} (h : d < 10) (hd : d ≠ 0) : digit d ≠ 48 := by
  interval_cases d
  · exact absurd rfl hd
  all_goals decide

/-- The decimal text of `n`. -/
def decimal (n : ℕ) : List UInt8 :=
  if n < 10 then [digit n] else decimal (n / 10) ++ [digit (n % 10)]
termination_by n
decreasing_by omega

/-- The value of a list of digits, after a value already read. -/
def ofDigits (acc : ℕ) (ds : List UInt8) : ℕ := ds.foldl (fun v b => v * 10 + digitValue b) acc

lemma decimal_of_lt {n : ℕ} (h : n < 10) : decimal n = [digit n] := by rw [decimal, if_pos h]

lemma decimal_of_le {n : ℕ} (h : 10 ≤ n) : decimal n = decimal (n / 10) ++ [digit (n % 10)] := by
  rw [decimal, if_neg (by omega)]

/-- Induction over the digits of a number, from the left. -/
lemma decimal_induction {p : ℕ → Prop} (small : ∀ n, n < 10 → p n)
    (more : ∀ n, 10 ≤ n → p (n / 10) → p n) (n : ℕ) : p n := by
  induction n using Nat.strong_induction_on with
  | _ n ih =>
    rcases Nat.lt_or_ge n 10 with h | h
    · exact small n h
    · exact more n h (ih (n / 10) (by omega))

lemma decimal_ne_nil (n : ℕ) : decimal n ≠ [] := by
  rcases Nat.lt_or_ge n 10 with h | h
  · rw [decimal_of_lt h]
    simp
  · rw [decimal_of_le h]
    simp

lemma decimal_isDigit (n : ℕ) : ∀ b ∈ decimal n, IsDigit b := by
  induction n using decimal_induction with
  | small n h =>
    rw [decimal_of_lt h]
    intro b hb
    rw [List.mem_singleton.mp hb]
    exact isDigit_digit h
  | more n h ih =>
    rw [decimal_of_le h]
    intro b hb
    rcases List.mem_append.mp hb with hb | hb
    · exact ih b hb
    · rw [List.mem_singleton.mp hb]
      exact isDigit_digit (Nat.mod_lt _ (by norm_num))

/-- The text of a positive number starts with a digit other than `0`. -/
lemma decimal_head {n : ℕ} (hn : n ≠ 0) : ∃ b rest, decimal n = b :: rest ∧ b ≠ 48 := by
  induction n using decimal_induction with
  | small n h => exact ⟨digit n, [], decimal_of_lt h, digit_ne_zero h hn⟩
  | more n h ih =>
    obtain ⟨b, rest, hb, hne⟩ := ih (by omega)
    exact ⟨b, rest ++ [digit (n % 10)], by rw [decimal_of_le h, hb]; rfl, hne⟩

lemma ofDigits_append (acc : ℕ) (ds es : List UInt8) :
    ofDigits acc (ds ++ es) = ofDigits (ofDigits acc ds) es := List.foldl_append

/-- Reading the text of a number gives the number. -/
lemma ofDigits_decimal (n : ℕ) : ofDigits 0 (decimal n) = n := by
  induction n using decimal_induction with
  | small n h =>
    rw [decimal_of_lt h]
    show 0 * 10 + digitValue (digit n) = n
    rw [digitValue_digit h]
    omega
  | more n h ih =>
    rw [decimal_of_le h, ofDigits_append, ih]
    show n / 10 * 10 + digitValue (digit (n % 10)) = n
    rw [digitValue_digit (Nat.mod_lt _ (by norm_num))]
    omega

lemma ofDigits_cons (acc : ℕ) (b : UInt8) (ds : List UInt8) :
    ofDigits acc (b :: ds) = ofDigits (acc * 10 + digitValue b) ds := List.foldl_cons ..

/-- Reading on does not make the value smaller. -/
lemma le_ofDigits (acc : ℕ) (ds : List UInt8) : acc ≤ ofDigits acc ds := by
  induction ds generalizing acc with
  | nil => exact le_rfl
  | cons b ds ih =>
    rw [ofDigits_cons]
    exact le_trans (by omega) (ih _)

/-- The length of the text of a number. -/
lemma length_decimal_le {k n : ℕ} (hk : 0 < k) (h : n < 10 ^ k) : (decimal n).length ≤ k := by
  induction k generalizing n with
  | zero => omega
  | succ k ih =>
    rcases Nat.lt_or_ge n 10 with hn | hn
    · rw [decimal_of_lt hn]
      simp
    · have hk' : 0 < k := by
        rcases Nat.eq_zero_or_pos k with rfl | hpos
        · omega
        · exact hpos
      have hdiv : n / 10 < 10 ^ k := by
        rw [Nat.div_lt_iff_lt_mul (by norm_num)]
        rwa [pow_succ] at h
      have := ih hk' hdiv
      rw [decimal_of_le hn, List.length_append, List.length_singleton]
      omega

end TickPlant.Lib
