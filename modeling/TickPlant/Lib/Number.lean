/-
# The value of a number in JSON

`numberValue` is the value of the text of a number: the digits before and after the point, read
as one number, over the power of ten for the digits after the point, times the power of ten
that the exponent names.

What `%g` writes is the text of a number (`isNumber_gText`).  Its value is the number that was
written if that has no more significant digits than the precision (`numberValue_gText`): the
rounding is then exact, and the zeros that are taken off at the end do not change the value.
-/
import TickPlant.Lib.Float
import TickPlant.Lib.Json

namespace TickPlant.Lib

/-! ## The value -/

/-- The value of an exponent. -/
def exponentValue : List UInt8 → ℤ
  | 45 :: ds => -(ofDigits 0 ds : ℤ)
  | 43 :: ds => ofDigits 0 ds
  | ds => ofDigits 0 ds

/-- A byte that starts an exponent. -/
def IsExponentMark (b : UInt8) : Bool := b = 101 || b = 69

/-- The value of the text of a number without a sign. -/
def unsignedValue (t : List UInt8) : ℚ :=
  let mantissa := t.takeWhile fun b => !IsExponentMark b
  let exponent := (t.dropWhile fun b => !IsExponentMark b).tail
  let int := mantissa.takeWhile fun b => b ≠ 46
  let frac := (mantissa.dropWhile fun b => b ≠ 46).tail
  ofDigits 0 (int ++ frac) / 10 ^ frac.length * 10 ^ exponentValue exponent

/-- The value of the text of a number. -/
def numberValue : List UInt8 → ℚ
  | 45 :: t => -unsignedValue t
  | t => unsignedValue t

/-! ## Reading the parts -/

/-- A text is cut before its first byte of a kind. -/
lemma cut_append {p : UInt8 → Bool} {s t : List UInt8} (hs : ∀ b ∈ s, p b = true)
    (ht : ∀ b ∈ t.head?, p b = false) :
    (s ++ t).takeWhile p = s ∧ (s ++ t).dropWhile p = t := by
  induction s with
  | nil =>
    cases t with
    | nil => exact ⟨rfl, rfl⟩
    | cons b t =>
      have hb : p b = false := ht b rfl
      simp [hb]
  | cons b s ih =>
    have hb : p b = true := hs b List.mem_cons_self
    obtain ⟨htake, hdrop⟩ := ih fun c hc => hs c (List.mem_cons_of_mem b hc)
    simp [hb, htake, hdrop]

/-- The part of the text after the digits before the point. -/
def pointed (ds : List UInt8) : List UInt8 := if ds = [] then [] else 46 :: ds

lemma fraction_eq (ds : List UInt8) : fraction ds = pointed (stripZeros ds) := rfl

lemma not_exponentMark_of_isDigit {b : UInt8} (h : IsDigit b) : IsExponentMark b = false := by
  rw [IsExponentMark]
  simp only [Bool.or_eq_false_iff, decide_eq_false_iff_not]
  constructor
  · rintro rfl
    exact absurd h (by decide)
  · rintro rfl
    exact absurd h (by decide)

/-- The value from the parts of the text. -/
lemma unsignedValue_parts {int ds exp : List UInt8} (hint : ∀ b ∈ int, IsDigit b)
    (hds : ∀ b ∈ ds, IsDigit b) (hexp : ∀ b ∈ exp.head?, IsExponentMark b = true) :
    unsignedValue (int ++ pointed ds ++ exp) =
      ofDigits 0 (int ++ ds) / 10 ^ ds.length * 10 ^ exponentValue exp.tail := by
  have hmantissa : ∀ b ∈ int ++ pointed ds, (!IsExponentMark b) = true := by
    intro b hb
    rw [Bool.not_eq_true']
    rcases List.mem_append.mp hb with hb | hb
    · exact not_exponentMark_of_isDigit (hint b hb)
    · rw [pointed] at hb
      split at hb
      · exact absurd hb List.not_mem_nil
      · rcases List.mem_cons.mp hb with rfl | hb
        · rfl
        · exact not_exponentMark_of_isDigit (hds b hb)
  have hint' : ∀ b ∈ int, decide (b ≠ 46) = true := by
    intro b hb
    rw [decide_eq_true_eq]
    rintro rfl
    exact absurd (hint 46 hb) (by decide)
  have hcut := cut_append hmantissa (t := exp) (by simpa using hexp)
  have hpoint : (int ++ pointed ds).takeWhile (fun b => decide (b ≠ 46)) = int ∧
      (int ++ pointed ds).dropWhile (fun b => decide (b ≠ 46)) = pointed ds := by
    refine cut_append hint' ?_
    rw [pointed]
    split <;> simp
  have htail : (pointed ds).tail = ds := by
    rw [pointed]
    split
    · rename_i h
      rw [h]
      rfl
    · rfl
  rw [unsignedValue, hcut.1, hcut.2, hpoint.1, hpoint.2, htail]

/-! ## Zeros -/

lemma ofDigits_zeros (acc k : ℕ) : ofDigits acc (List.replicate k 48) = acc * 10 ^ k := by
  induction k generalizing acc with
  | zero => exact (Nat.mul_one acc).symm
  | succ k ih =>
    rw [List.replicate_succ, ofDigits_cons, ih, show digitValue 48 = 0 from rfl]
    ring

/-- Zeros at the end are factors of ten. -/
lemma ofDigits_append_zeros (acc k : ℕ) (ds : List UInt8) :
    ofDigits acc (ds ++ List.replicate k 48) = ofDigits acc ds * 10 ^ k := by
  rw [ofDigits_append, ofDigits_zeros]

/-- Zeros at the beginning do not count. -/
lemma ofDigits_zeroPad (k : ℕ) (ds : List UInt8) : ofDigits 0 (zeroPad k ds) = ofDigits 0 ds := by
  rw [zeroPad, ofDigits_append, ofDigits_zeros, Nat.zero_mul]

lemma ofDigits_acc (acc : ℕ) (ds : List UInt8) :
    ofDigits acc ds = acc * 10 ^ ds.length + ofDigits 0 ds := by
  induction ds generalizing acc with
  | nil => exact (Nat.mul_one acc).symm
  | cons b ds ih =>
    rw [ofDigits_cons, ofDigits_cons, ih, ih (0 * 10 + digitValue b), List.length_cons]
    ring

/-- Only zeros are taken off. -/
lemma stripZeros_append (ds : List UInt8) :
    ∃ k, ds = stripZeros ds ++ List.replicate k 48 := by
  set zeros := ds.reverse.takeWhile (· = 48) with hzeros
  have hall : zeros = List.replicate zeros.length 48 := by
    refine List.eq_replicate_length.mpr fun b hb => ?_
    simpa using List.mem_takeWhile_imp hb
  refine ⟨zeros.length, ?_⟩
  have hsplit : ds.reverse = zeros ++ ds.reverse.dropWhile (· = 48) :=
    List.takeWhile_append_dropWhile.symm
  rw [stripZeros, ← List.reverse_replicate, ← hall, ← List.reverse_append, ← hsplit,
    List.reverse_reverse]

lemma isDigit_zeroPad {k n : ℕ} : ∀ b ∈ zeroPad k (decimal n), IsDigit b := by
  intro b hb
  rcases List.mem_append.mp hb with hb | hb
  · rw [List.eq_of_mem_replicate hb]
    decide
  · exact decimal_isDigit n b hb

/-! ## What `%g` writes is a number -/

lemma fraction_grammar {ds : List UInt8} (hds : ∀ b ∈ ds, IsDigit b) :
    fraction ds = [] ∨ ∃ es, Digits es ∧ fraction ds = 46 :: es := by
  by_cases h : stripZeros ds = []
  · exact .inl (if_pos h)
  · exact .inr ⟨stripZeros ds, ⟨h, fun b hb => hds b (mem_stripZeros hb)⟩, if_neg h⟩

lemma gPositive_grammar (p : ℕ) (q : ℚ) :
    ∃ int frac exp, gPositive p q = int ++ frac ++ exp ∧ Digits int ∧
      (int = [48] ∨ int.head? ≠ some 48) ∧ (frac = [] ∨ ∃ ds, Digits ds ∧ frac = 46 :: ds) ∧
      (exp = [] ∨ ∃ e s ds, (e = 101 ∨ e = 69) ∧ (s = [] ∨ s = [43] ∨ s = [45]) ∧ Digits ds ∧
        exp = e :: (s ++ ds)) := by
  rw [gPositive]
  set m := (scientific p q).1
  set x := (scientific p q).2
  dsimp only
  split
  · obtain ⟨hdigits, hzero⟩ := decimal_grammar (m / 10 ^ (p - 1 - x).toNat)
    exact ⟨_, _, [], (List.append_nil _).symm, hdigits, hzero, fraction_grammar isDigit_zeroPad,
      .inl rfl⟩
  · cases hm : decimal m with
    | nil => exact absurd hm (decimal_ne_nil m)
    | cons d ds =>
      have hdigits : ∀ b ∈ d :: ds, IsDigit b := hm ▸ decimal_isDigit m
      refine ⟨[d], fraction ds, _, rfl, ⟨List.cons_ne_nil _ _, ?_⟩, ?_,
        fraction_grammar fun b hb => hdigits b (List.mem_cons_of_mem d hb), .inr ?_⟩
      · intro b hb
        exact hdigits b (List.mem_singleton.mp hb ▸ List.mem_cons_self)
      · by_cases hd : d = 48
        · exact .inl (by rw [hd])
        · exact .inr (by simpa using hd)
      · have hpad : zeroPad 2 (decimal x.natAbs) ≠ [] :=
          List.append_ne_nil_of_right_ne_nil _ (decimal_ne_nil _)
        refine ⟨101, [if x < 0 then 45 else 43], zeroPad 2 (decimal x.natAbs), .inl rfl, ?_,
          ⟨hpad, isDigit_zeroPad⟩, rfl⟩
        split <;> simp

/-- `%g` writes the text of a number. -/
lemma isNumber_gText (p : ℕ) (q : ℚ) : IsNumber (gText p q) := by
  rw [gText]
  split
  · have hzero := isNumber_decimal 0
    rwa [decimal_of_lt (by norm_num)] at hzero
  · split
    · obtain ⟨int, frac, exp, htext, hdigits, hzero, hfrac, hexp⟩ := gPositive_grammar p (-q)
      rw [htext]
      exact .mk (.inr rfl) hdigits hzero hfrac hexp
    · obtain ⟨int, frac, exp, htext, hdigits, hzero, hfrac, hexp⟩ := gPositive_grammar p q
      rw [htext]
      exact .mk (.inl rfl) hdigits hzero hfrac hexp

/-- What `%g` writes for the double nearest to `q`, which is an infinity from the midpoint between
the largest double and the next power of two on. -/
def gDouble (p : ℕ) (q : ℚ) : List UInt8 :=
  if 2 ^ 1024 - 2 ^ 970 ≤ q then [105, 110, 102]
  else if q ≤ -(2 ^ 1024 - 2 ^ 970) then [45, 105, 110, 102]
  else gText p q

/-- It writes a number or an infinity. -/
lemma isNumber_gDouble (p : ℕ) (q : ℚ) : IsNumber (gDouble p q) ∨ IsNonFinite (gDouble p q) := by
  rw [gDouble]
  split
  · exact Or.inr (by decide)
  · split
    · exact Or.inr (by decide)
    · exact Or.inl (isNumber_gText p q)

/-! ## Numbers with few digits -/

/-- The number has at most `p` significant decimal digits. -/
def HasDigits (p : ℕ) (q : ℚ) : Prop := ∃ (m : ℕ) (k : ℤ), m < 10 ^ p ∧ q = m * 10 ^ k

lemma hasDigits_natCast {p n : ℕ} (h : n < 10 ^ p) : HasDigits p n :=
  ⟨n, 0, h, by rw [zpow_zero, mul_one]⟩

variable {p : ℕ} {q : ℚ}

/-- A number of at most `p` digits is an integer of `p` digits, scaled. -/
lemma HasDigits.normal (hp : 0 < p) (hq : 0 < q) (h : HasDigits p q) :
    ∃ M : ℕ, 10 ^ (p - 1) ≤ M ∧ M < 10 ^ p ∧ q = M * 10 ^ (Int.log 10 q + 1 - p) := by
  obtain ⟨m, k, hm, hqm⟩ := h
  set x := Int.log 10 q with hx
  have hlow : (10 : ℚ) ^ x ≤ q := by
    exact_mod_cast Int.zpow_log_le_self (by norm_num) hq
  have hhigh : q < (10 : ℚ) ^ (x + 1) := by
    exact_mod_cast Int.lt_zpow_succ_log_self (by norm_num) q
  have hscale : ∀ z : ℤ, (0 : ℚ) < 10 ^ z := fun z => by positivity
  -- the last digit of `m` is not lost: its place is at or above the last place kept
  have hk : x + 1 - p ≤ k := by
    have hlt : (10 : ℚ) ^ x < 10 ^ (k + p) := by
      refine hlow.trans_lt ?_
      rw [hqm, zpow_add₀ (by norm_num), zpow_natCast, mul_comm]
      have : (m : ℚ) < 10 ^ p := by exact_mod_cast hm
      exact mul_lt_mul_of_pos_left this (hscale k)
    have := (zpow_lt_zpow_iff_right₀ (by norm_num : (1 : ℚ) < 10)).mp hlt
    omega
  have hM : q = ((m * 10 ^ (k - (x + 1 - p)).toNat : ℕ) : ℚ) * 10 ^ (x + 1 - p) := by
    rw [hqm]
    push_cast
    rw [mul_assoc, ← zpow_natCast, Int.toNat_of_nonneg (by omega), ← zpow_add₀ (by norm_num)]
    congr 2
    ring
  set M := m * 10 ^ (k - (x + 1 - p)).toNat
  refine ⟨M, ?_, ?_, hM⟩
  · have hle : (10 : ℚ) ^ ((p - 1 : ℕ) : ℤ) * 10 ^ (x + 1 - p) ≤ M * 10 ^ (x + 1 - p) := by
      rw [← hM, ← zpow_add₀ (by norm_num)]
      refine le_of_eq_of_le ?_ hlow
      congr 1
      omega
    have := le_of_mul_le_mul_right hle (hscale _)
    rw [zpow_natCast] at this
    exact_mod_cast this
  · have hlt : (M : ℚ) * 10 ^ (x + 1 - p) < 10 ^ (p : ℤ) * 10 ^ (x + 1 - p) := by
      rw [← hM, ← zpow_add₀ (by norm_num)]
      refine lt_of_lt_of_eq hhigh ?_
      congr 1
      ring
    have := lt_of_mul_lt_mul_right hlt (hscale _).le
    rw [zpow_natCast] at this
    exact_mod_cast this

/-- Its digits are not rounded. -/
lemma HasDigits.scientific_eq (hp : 0 < p) (hq : 0 < q) (h : HasDigits p q) :
    10 ^ (p - 1) ≤ (scientific p q).1 ∧ (scientific p q).1 < 10 ^ p ∧
      q = (scientific p q).1 * 10 ^ ((scientific p q).2 + 1 - p) := by
  obtain ⟨M, hlow, hhigh, hM⟩ := h.normal hp hq
  have hround : roundHalfEven (q / 10 ^ (Int.log 10 q + 1 - p)) = M := by
    have hquot : q / 10 ^ (Int.log 10 q + 1 - p) = M := by
      rw [div_eq_iff (by positivity)]
      exact hM
    rw [hquot, roundHalfEven_natCast]
  have heq : scientific p q = (M, Int.log 10 q) := by
    rw [scientific]
    simp only [hround, Int.toNat_natCast]
    rw [if_neg hhigh.ne]
  rw [heq]
  exact ⟨hlow, hhigh, hM⟩

/-- Taking zeros off does not change the value. -/
lemma ofDigits_stripZeros (int ds : List UInt8) :
    (ofDigits 0 (int ++ stripZeros ds) : ℚ) / 10 ^ (stripZeros ds).length =
      ofDigits 0 (int ++ ds) / 10 ^ ds.length := by
  obtain ⟨k, hk⟩ := stripZeros_append ds
  set es := stripZeros ds
  have hvalue : ofDigits 0 (int ++ ds) = ofDigits 0 (int ++ es) * 10 ^ k := by
    rw [hk, ← List.append_assoc, ofDigits_append_zeros]
  have hlength : ds.length = es.length + k := by
    rw [hk, List.length_append, List.length_replicate]
  rw [hvalue, hlength, pow_add]
  push_cast
  rw [mul_div_mul_right _ _ (by positivity)]

lemma isDigit_stripZeros {ds : List UInt8} (hds : ∀ b ∈ ds, IsDigit b) :
    ∀ b ∈ stripZeros ds, IsDigit b := fun b hb => hds b (mem_stripZeros hb)

/-- The value of a text that ends with a fraction, with or without an exponent. -/
lemma unsignedValue_fraction {int ds exp : List UInt8} (hint : ∀ b ∈ int, IsDigit b)
    (hds : ∀ b ∈ ds, IsDigit b) (hexp : ∀ b ∈ exp.head?, IsExponentMark b = true) :
    unsignedValue (int ++ fraction ds ++ exp) =
      ofDigits 0 (int ++ ds) / 10 ^ ds.length * 10 ^ exponentValue exp.tail := by
  rw [fraction_eq, unsignedValue_parts hint (isDigit_stripZeros hds) hexp, ofDigits_stripZeros]

/-- The value of a number written without an exponent. -/
lemma unsignedValue_fixed (m k : ℕ) :
    unsignedValue (decimal (m / 10 ^ k) ++ fraction (zeroPad k (decimal (m % 10 ^ k)))) =
      m / 10 ^ k := by
  have hnone : ∀ b ∈ ([] : List UInt8).head?, IsExponentMark b = true := by simp
  have hdigits := unsignedValue_fraction (decimal_isDigit (m / 10 ^ k))
    (isDigit_zeroPad (k := k) (n := m % 10 ^ k)) hnone
  rw [List.append_nil] at hdigits
  rw [hdigits, show exponentValue [].tail = 0 from rfl, zpow_zero, mul_one, ofDigits_append,
    ofDigits_decimal, ofDigits_acc, ofDigits_zeroPad, ofDigits_decimal]
  set digits := zeroPad k (decimal (m % 10 ^ k)) with hpad
  have hmod : ((m % 10 ^ k : ℕ) : ℚ) / 10 ^ digits.length = ((m % 10 ^ k : ℕ) : ℚ) / 10 ^ k := by
    rcases Nat.eq_zero_or_pos k with rfl | hk
    · simp [Nat.mod_one]
    · have hlength := length_decimal_le hk (Nat.mod_lt m (by positivity : 0 < 10 ^ k))
      have : digits.length = k := by
        rw [hpad, zeroPad, List.length_append, List.length_replicate]
        omega
      rw [this]
  have hdiv : (m : ℚ) = ((m / 10 ^ k : ℕ) : ℚ) * 10 ^ k + ((m % 10 ^ k : ℕ) : ℚ) := by
    exact_mod_cast (Nat.div_add_mod' m (10 ^ k)).symm
  rw [hdiv]
  push_cast
  rw [add_div, add_div, mul_div_assoc, mul_div_assoc, div_self (by positivity),
    div_self (by positivity)]
  congr 1

lemma exponentValue_sign (x : ℤ) :
    exponentValue ((if x < 0 then 45 else 43) :: zeroPad 2 (decimal x.natAbs)) = x := by
  have hvalue : ofDigits 0 (zeroPad 2 (decimal x.natAbs)) = x.natAbs := by
    rw [ofDigits_zeroPad, ofDigits_decimal]
  split
  · show -((ofDigits 0 _ : ℕ) : ℤ) = x
    rw [hvalue]
    omega
  · show ((ofDigits 0 _ : ℕ) : ℤ) = x
    rw [hvalue]
    omega

/-- The value of a number written with an exponent. -/
lemma unsignedValue_exponent (m : ℕ) (x : ℤ) :
    unsignedValue ((decimal m).take 1 ++ fraction ((decimal m).drop 1) ++
        101 :: (if x < 0 then 45 else 43) :: zeroPad 2 (decimal x.natAbs)) =
      m / 10 ^ ((decimal m).length - 1) * 10 ^ x := by
  have hdigits := decimal_isDigit m
  rw [unsignedValue_fraction (fun b hb => hdigits b (List.mem_of_mem_take hb))
    (fun b hb => hdigits b (List.mem_of_mem_drop hb)) (by simp [IsExponentMark]),
    List.take_append_drop, ofDigits_decimal, List.length_drop, List.tail_cons, exponentValue_sign]

lemma ofDigits_lt {ds : List UInt8} (h : ∀ b ∈ ds, IsDigit b) : ofDigits 0 ds < 10 ^ ds.length := by
  induction ds with
  | nil => exact Nat.one_pos
  | cons b ds ih =>
    have hb : digitValue b < 10 := by
      obtain ⟨hlow, hhigh⟩ := h b List.mem_cons_self
      rw [UInt8.le_iff_toNat_le] at hlow hhigh
      rw [digitValue]
      simp at hlow hhigh
      omega
    have hrest := ih fun c hc => h c (List.mem_cons_of_mem b hc)
    rw [ofDigits_cons, ofDigits_acc, List.length_cons, pow_succ]
    nlinarith

/-- The length of the text of a number of `p` digits. -/
lemma length_decimal {m : ℕ} (hp : 0 < p) (hlow : 10 ^ (p - 1) ≤ m) (hhigh : m < 10 ^ p) :
    (decimal m).length = p := by
  refine le_antisymm (length_decimal_le hp hhigh) ?_
  have hlt := ofDigits_lt (decimal_isDigit m)
  rw [ofDigits_decimal] at hlt
  have := (Nat.pow_lt_pow_iff_right (by norm_num)).mp (hlow.trans_lt hlt)
  omega

/-- A text that starts with a digit has no sign. -/
lemma numberValue_of_isDigit {t : List UInt8} (h : ∀ b ∈ t.head?, IsDigit b) :
    numberValue t = unsignedValue t := by
  unfold numberValue
  split
  · exact absurd (h 45 rfl) (by decide)
  · rfl

/-- The digits of a positive number are as many as the precision says. -/
lemma scientific_bounds (hp : 0 < p) (hq : 0 < q) :
    10 ^ (p - 1) ≤ (scientific p q).1 ∧ (scientific p q).1 < 10 ^ p := by
  set x := Int.log 10 q with hx
  set y := q / 10 ^ (x + 1 - p) with hy
  have hscale : (0 : ℚ) < 10 ^ (x + 1 - p) := by positivity
  have hlow : ((10 ^ (p - 1) : ℕ) : ℚ) ≤ y := by
    rw [hy, le_div_iff₀ hscale, Nat.cast_pow, ← zpow_natCast, Nat.cast_ofNat,
      ← zpow_add₀ (by norm_num), show ((p - 1 : ℕ) : ℤ) + (x + 1 - p) = x by omega]
    exact_mod_cast Int.zpow_log_le_self (by norm_num) hq
  have hhigh : y < ((10 ^ p : ℕ) : ℚ) := by
    rw [hy, div_lt_iff₀ hscale, Nat.cast_pow, ← zpow_natCast, Nat.cast_ofNat,
      ← zpow_add₀ (by norm_num), show (p : ℤ) + (x + 1 - p) = x + 1 by ring]
    exact_mod_cast Int.lt_zpow_succ_log_self (by norm_num) q
  have hfloor : ((10 ^ (p - 1) : ℕ) : ℤ) ≤ ⌊y⌋ := Int.le_floor.mpr (by exact_mod_cast hlow)
  have hfloor' : ⌊y⌋ < ((10 ^ p : ℕ) : ℤ) := Int.floor_lt.mpr (by exact_mod_cast hhigh)
  have hround : ⌊y⌋ ≤ roundHalfEven y ∧ roundHalfEven y ≤ ⌊y⌋ + 1 := by
    rw [roundHalfEven]
    split_ifs <;> omega
  have hmono : 10 ^ (p - 1) < 10 ^ p := Nat.pow_lt_pow_right (by norm_num) (by omega)
  rw [scientific, ← hx, ← hy]
  generalize 10 ^ (p - 1) = low at *
  generalize 10 ^ p = high at *
  split_ifs with htop
  · exact ⟨le_rfl, hmono⟩
  · exact ⟨by omega, by omega⟩

/-- The value of what `%g` writes is that of the digits it keeps. -/
lemma numberValue_gText_eq (hp : 0 < p) (hq : 0 < q) :
    numberValue (gText p q) = (scientific p q).1 * 10 ^ ((scientific p q).2 + 1 - p) := by
  obtain ⟨hlow, hhigh⟩ := scientific_bounds hp hq
  have hunsigned : numberValue (gPositive p q) = unsignedValue (gPositive p q) := by
    obtain ⟨int, frac, exp, htext, ⟨hne, hdigits⟩, -⟩ := gPositive_grammar p q
    refine numberValue_of_isDigit ?_
    intro b hb
    rw [htext, List.append_assoc, List.head?_append_of_ne_nil _ hne] at hb
    exact hdigits b (List.mem_of_mem_head? hb)
  rw [gText, if_neg hq.ne', if_neg hq.not_gt, hunsigned, gPositive]
  generalize scientific p q = digits at *
  obtain ⟨m, x⟩ := digits
  dsimp only at *
  split
  · rename_i hx
    rw [unsignedValue_fixed, div_eq_mul_inv, ← zpow_natCast, ← zpow_neg]
    congr 2
    omega
  · rw [unsignedValue_exponent, length_decimal hp hlow hhigh, div_eq_mul_inv, mul_assoc,
      ← zpow_natCast, ← zpow_neg, ← zpow_add₀ (by norm_num)]
    congr 2
    omega

/-- **What is written exactly.**  A positive number with at most `p` significant digits is the value
of what `%g` writes for it with precision `p`. -/
lemma numberValue_gText (hp : 0 < p) (hq : 0 < q) (h : HasDigits p q) :
    numberValue (gText p q) = q := by
  rw [numberValue_gText_eq hp hq]
  exact (h.scientific_eq hp hq).2.2.symm

/-- No other number is. -/
lemma numberValue_gText_iff (hp : 0 < p) (hq : 0 < q) :
    numberValue (gText p q) = q ↔ HasDigits p q := by
  refine ⟨?_, numberValue_gText hp hq⟩
  intro h
  rw [← h, numberValue_gText_eq hp hq]
  exact ⟨_, _, (scientific_bounds hp hq).2, rfl⟩

end TickPlant.Lib
