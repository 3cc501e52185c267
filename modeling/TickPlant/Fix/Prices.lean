/-
# Prices through the builder and the parser

The builder writes a price with `operator<<` and its default settings, which is `%g` with six
significant digits; the parser reads digits, a point and digits, and stops at anything else.  A
natural number below a million is written out and read back exactly, whatever the rounding of
the arithmetic.  From a million on the text has an exponent, which the parser does not know: it
reads the mantissa, a number below sixty.
-/
import TickPlant.Fix.RoundTrip

namespace TickPlant

open Lib

namespace FIXParser

variable (r : Rounding)

/-! ## Reading numbers -/

lemma digitValue_le {c : UInt8} (h : IsDigit c) : digitValue c ≤ 9 := by
  have hle : c.toNat ≤ 57 := UInt8.le_iff_toNat_le.mp h.2
  rw [digitValue]
  omega

/-- One digit of the integer part is read exactly. -/
lemma round_digit {acc d : ℕ} (h : acc * 10 + d ≤ 2 ^ 53) :
    r.round (r.round ((acc : ℚ) * 10) + d) = ((acc * 10 + d : ℕ) : ℚ) := by
  have hten : r.round ((acc : ℚ) * 10) = ((acc * 10 : ℕ) : ℚ) := by
    have := r.round_nat (n := acc * 10) (by omega)
    push_cast at this ⊢
    exact this
  have := r.round_nat h
  rw [hten]
  push_cast at this ⊢
  exact this

/-- The digits of the integer part, up to a byte that is none. -/
lemma parseWhole_digits {ds : Bytes} (hds : ∀ b ∈ ds, IsDigit b) (acc : ℕ)
    (h : ofDigits acc ds ≤ 2 ^ 53) (rest : Bytes) (hrest : ∀ c ∈ rest.head?, ¬ IsDigit c) :
    parseWhole r acc (ds ++ rest) = (((ofDigits acc ds : ℕ) : ℚ), rest) := by
  induction ds generalizing acc with
  | nil =>
    cases rest with
    | nil => rfl
    | cons c rest =>
      rw [List.nil_append, parseWhole, if_neg (hrest c rfl)]
      rfl
  | cons c ds ih =>
    rw [ofDigits_cons] at h ⊢
    have hle := le_ofDigits (acc * 10 + digitValue c) ds
    rw [List.cons_append, parseWhole, if_pos (hds c List.mem_cons_self),
      round_digit r (by omega)]
    exact ih (fun b hb => hds b (List.mem_cons_of_mem _ hb)) _ h

/-- A text that starts with a digit has no sign. -/
lemma parseDouble_of_digit {d : UInt8} (hd : IsDigit d) (rest : Bytes) :
    parseDouble r (d :: rest) = parseUnsigned r (d :: rest) := by
  rw [parseDouble]
  rintro rest' ⟨⟩
  exact absurd hd (by decide)

/-- The decimal text of a natural number up to `2^53` is read exactly. -/
lemma parseDouble_decimal {n : ℕ} (h : n ≤ 2 ^ 53) : parseDouble r (decimal n) = n := by
  have hread := ofDigits_decimal n
  have hwhole := parseWhole_digits r (decimal_isDigit n) 0 (by rw [hread]; exact h) [] (by simp)
  rw [List.append_nil, hread, Nat.cast_zero] at hwhole
  have hunsigned : parseUnsigned r (decimal n) = n := by rw [parseUnsigned, hwhole]
  cases hdec : decimal n with
  | nil => exact absurd hdec (decimal_ne_nil n)
  | cons d rest =>
    have hd : IsDigit d := decimal_isDigit n d (by rw [hdec]; exact List.mem_cons_self)
    rw [parseDouble_of_digit r hd, ← hdec, hunsigned]

/-- Each digit after the point adds at most nine. -/
lemma parseFraction_le {c : UInt8} (hc : ¬ IsDigit c) (rest : Bytes) {ds : Bytes}
    (hds : ∀ b ∈ ds, IsDigit b) {result factor : ℚ} {bound : ℕ} (hresult : result ≤ bound)
    (hfactor : 0 ≤ factor ∧ factor ≤ 1) (hbound : bound + 9 * ds.length ≤ 2 ^ 53) :
    parseFraction r result factor (ds ++ c :: rest) ≤ ((bound + 9 * ds.length : ℕ) : ℚ) := by
  induction ds generalizing result factor bound with
  | nil =>
    rw [List.nil_append, parseFraction, if_neg hc]
    simpa using hresult
  | cons d ds ih =>
    have hlength : bound + 9 * (d :: ds).length = bound + 9 + 9 * ds.length := by
      rw [List.length_cons]
      ring
    rw [hlength] at hbound ⊢
    have hdigit : (digitValue d : ℚ) ≤ 9 := by
      exact_mod_cast digitValue_le (hds d List.mem_cons_self)
    have hterm : r.round (digitValue d * factor) ≤ ((9 : ℕ) : ℚ) := by
      refine r.round_le ?_ (by norm_num)
      have := mul_le_mul hdigit hfactor.2 hfactor.1 (by norm_num)
      simpa using this
    have hsum : r.round (result + r.round (digitValue d * factor)) ≤ ((bound + 9 : ℕ) : ℚ) := by
      refine r.round_le ?_ (by omega)
      push_cast at hterm ⊢
      exact add_le_add hresult hterm
    have htenth := r.round_unit (q := 1 / 10) (by norm_num)
    have hnext := r.round_unit (q := factor * r.round (1 / 10))
      ⟨mul_nonneg hfactor.1 htenth.1, mul_le_one₀ hfactor.2 htenth.1 htenth.2⟩
    rw [List.cons_append, parseFraction, if_pos (hds d List.mem_cons_self)]
    exact ih (fun b hb => hds b (List.mem_cons_of_mem _ hb)) hsum hnext hbound

lemma length_stripZeros_le (ds : Bytes) : (stripZeros ds).length ≤ ds.length := by
  have hle := (List.dropWhile_sublist (l := ds.reverse) fun b => decide (b = 48)).length_le
  rw [List.length_reverse] at hle
  rwa [stripZeros, List.length_reverse]

/-- Of a text with an exponent only the mantissa is read. -/
lemma parseDouble_exponent_le {d : UInt8} (hd : IsDigit d) {ds : Bytes}
    (hds : ∀ b ∈ ds, IsDigit b) (hlength : ds.length ≤ 5) (rest : Bytes) :
    parseDouble r (d :: (fraction ds ++ 101 :: rest)) ≤ 54 := by
  have hvalue : ((digitValue d : ℕ) : ℚ) ≤ ((9 : ℕ) : ℚ) := by exact_mod_cast digitValue_le hd
  have hwhole : ∀ tail : Bytes, (∀ c ∈ tail.head?, ¬ IsDigit c) →
      parseWhole r 0 (d :: tail) = ((digitValue d : ℚ), tail) := by
    intro tail htail
    have hone : ofDigits 0 [d] = digitValue d := by
      rw [ofDigits_cons, Nat.zero_mul, Nat.zero_add]
      rfl
    have hsmall : ofDigits 0 [d] ≤ 2 ^ 53 := by
      have := digitValue_le hd
      omega
    have := parseWhole_digits r (by simpa using hd) 0 hsmall tail htail
    rwa [hone, Nat.cast_zero, List.singleton_append] at this
  rw [parseDouble_of_digit r hd, parseUnsigned]
  by_cases hzero : stripZeros ds = []
  · -- no fraction: the exponent follows the first digit
    rw [fraction, if_pos hzero, List.nil_append, hwhole (101 :: rest) (by simp; decide)]
    exact le_trans hvalue (by norm_num)
  · rw [fraction, if_neg hzero, List.cons_append,
      hwhole (46 :: (stripZeros ds ++ 101 :: rest)) (by simp; decide)]
    have hstrip := length_stripZeros_le ds
    have hle := parseFraction_le r (c := 101) (by decide) rest
      (fun b hb => hds b (mem_stripZeros hb)) hvalue (r.round_unit (q := 1 / 10) (by norm_num))
      (by omega)
    refine le_trans hle ?_
    exact_mod_cast (by omega : 9 + 9 * (stripZeros ds).length ≤ 54)

/-- A natural number is read back exactly if it is below a million. -/
lemma parseDouble_gText_iff {n : ℕ} (h : n < 2 ^ 53) :
    parseDouble r (gText 6 n) = n ↔ (n : ℚ) < 10 ^ 6 := by
  rcases Nat.lt_or_ge n (10 ^ 6) with hn | hn
  · rw [gText_of_lt hn]
    exact iff_of_true (parseDouble_decimal r (by omega)) (by exact_mod_cast hn)
  · obtain ⟨d, ds, rest, htext, hd, hds, hlength⟩ := gText_of_le (p := 6) (by norm_num) hn
    refine iff_of_false ?_ (not_lt.mpr (by exact_mod_cast hn))
    rw [htext]
    intro heq
    have hle := parseDouble_exponent_le r hd hds (by omega) rest
    rw [heq] at hle
    have hcast : n ≤ 54 := by exact_mod_cast hle
    omega

/-! ## Messages -/

/-- The message has the prices and quantities of the entries. -/
def KeepsPrices (entries : List MDEntry) (out : FIXRecord) : Prop :=
  out.filled.map (fun e => (e.price, e.quantity)) = entries.map fun e => (e.price, e.quantity)

/-- A natural number that a `double` represents. -/
def IsExactNat (q : ℚ) : Prop := ∃ n : ℕ, n < 2 ^ 53 ∧ q = n

lemma keepsPrices_iff (sendingTime symbol : Bytes) {msgTypeStr : Bytes} {entries : List MDEntry}
    (hmsg : msgTypeStr = bytes "W" ∨ msgTypeStr = bytes "X") (htime : fixSoh ∉ sendingTime)
    (hsym : fixSoh ∉ symbol) (hlength : entries.length ≤ fixMaxMdEntries)
    (hentries : ∀ e ∈ entries, IsExactNat e.price ∧ IsExactNat e.quantity) (seqNum : ℤ) :
    KeepsPrices entries
        (parse r (buildFixMessage (gText 6) sendingTime msgTypeStr symbol entries seqNum
          fixSoh)).2 ↔
      ∀ e ∈ entries, e.price < 10 ^ 6 ∧ e.quantity < 10 ^ 6 := by
  obtain ⟨out, hparse, -, -, -, -, hfilled⟩ :=
    parse_buildFixMessage r hmsg htime hsym (fun e _ => soh_not_mem_gText 6 e.price)
      (fun e _ => soh_not_mem_gText 6 e.quantity) seqNum []
  rw [List.append_nil] at hparse
  rw [hparse, KeepsPrices, hfilled, List.take_of_length_le (by simpa using hlength),
    List.map_map, List.map_inj_left]
  refine forall₂_congr fun e he => ?_
  obtain ⟨⟨n, hn, hprice⟩, ⟨m, hm, hquantity⟩⟩ := hentries e he
  rw [hprice, hquantity, ← parseDouble_gText_iff r hn, ← parseDouble_gText_iff r hm]
  simp [readEntry, hprice, hquantity]

/-- **Which prices survive.**  For at most 32 entries whose prices and quantities are natural
numbers below `2^53`, the messages of the builder are read with exactly these numbers if and
only if all of them are below a million. -/
theorem prices_kept_iff (sendingTime symbol : Bytes) (htime : fixSoh ∉ sendingTime)
    (hsym : fixSoh ∉ symbol) (entries : List MDEntry)
    (hlength : entries.length ≤ fixMaxMdEntries)
    (hentries : ∀ e ∈ entries, IsExactNat e.price ∧ IsExactNat e.quantity) (seqNum : ℤ) :
    (KeepsPrices entries
        (parse r (buildSnapshot (gText 6) sendingTime symbol entries seqNum true)).2 ↔
      ∀ e ∈ entries, e.price < 10 ^ 6 ∧ e.quantity < 10 ^ 6) ∧
    (KeepsPrices entries
        (parse r (buildIncremental (gText 6) sendingTime symbol entries seqNum true)).2 ↔
      ∀ e ∈ entries, e.price < 10 ^ 6 ∧ e.quantity < 10 ^ 6) :=
  ⟨keepsPrices_iff r _ _ (Or.inl rfl) htime hsym hlength hentries seqNum,
    keepsPrices_iff r _ _ (Or.inr rfl) htime hsym hlength hentries seqNum⟩

lemma isExactNat_natCast {n : ℕ} (h : n < 2 ^ 53) : IsExactNat n := ⟨n, h, rfl⟩

theorem prices_kept_iff_oneBid :
    KeepsPrices [⟨0, 0, 999999, 1⟩] (parse .exact (buildSnapshot (gText 6)
      (bytes "20250101-00:00:00.000") (bytes "BTC") [⟨0, 0, 999999, 1⟩] 1 true)).2 := by
  refine (prices_kept_iff .exact _ _ (by decide) (by decide) _ (by decide) ?_ 1).1.mpr ?_
  · simp only [List.forall_mem_singleton]
    exact ⟨isExactNat_natCast (n := 999999) (by norm_num),
      by simpa using isExactNat_natCast (n := 1) (by norm_num)⟩
  · norm_num

/-- The price `1234567` is written as `1.23457e+06`, and the parser stops at the exponent. -/
theorem large_price_lost :
    ¬ KeepsPrices [⟨0, 0, 1234567, 1⟩] (parse .exact (buildSnapshot (gText 6)
      (bytes "20250101-00:00:00.000") (bytes "BTC") [⟨0, 0, 1234567, 1⟩] 1 true)).2 := by
  have hexact : ∀ e ∈ [(⟨0, 0, 1234567, 1⟩ : MDEntry)],
      IsExactNat e.price ∧ IsExactNat e.quantity := by
    simp only [List.forall_mem_singleton]
    exact ⟨isExactNat_natCast (n := 1234567) (by norm_num),
      by simpa using isExactNat_natCast (n := 1) (by norm_num)⟩
  have hiff := keepsPrices_iff .exact (bytes "20250101-00:00:00.000") (bytes "BTC") (Or.inl rfl)
    (by decide) (by decide) (by decide) hexact 1
  intro hkept
  have hlow := (hiff.mp hkept) _ List.mem_cons_self
  norm_num at hlow

end FIXParser

end TickPlant
