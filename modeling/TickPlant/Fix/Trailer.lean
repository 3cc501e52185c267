/-
# Body length and checksum

`build_fix_message` writes the body first and the header and the trailer around it.  A message is
`Framed` when tag 9 has the number of bytes between its delimiter and the checksum field, and
tag 10 the sum of all bytes before it modulo 256, in three digits.

The sum is kept in an `unsigned int`, which does no harm, since 256 divides `2^32`
(`checksum_eq`).  The size of the body is cast to `int`, so the messages that are framed are
those with a body below `2^31` bytes (`build_framed_iff`).
-/
import TickPlant.Fix.RoundTrip

namespace TickPlant

open Lib

namespace FIXParser

/-! ## Framed messages -/

/-- The sum of the bytes of a text. -/
def byteSum (s : Bytes) : ℕ := (s.map UInt8.toNat).sum

/-- A number below 1000 in three digits. -/
def threeDigits (n : ℕ) : Bytes := [digit (n / 100), digit (n / 10 % 10), digit (n % 10)]

lemma length_threeDigits (n : ℕ) : (threeDigits n).length = 3 := rfl

/-- What stands before the checksum field of a message with this body. -/
def upToChecksum (delim : UInt8) (body : Bytes) : Bytes :=
  (bytes "8=FIX.4.4" ++ [delim]) ++ (bytes "9=" ++ decimal body.length ++ [delim]) ++ body

/-- Tag 9 counts the bytes from its delimiter to the checksum field, and tag 10 is the checksum
of all bytes before it. -/
def Framed (delim : UInt8) (msg : Bytes) : Prop :=
  ∃ body, msg = upToChecksum delim body ++
    (bytes "10=" ++ threeDigits (byteSum (upToChecksum delim body) % 256) ++ [delim])

/-! ## The checksum -/

/-- Wrapping at `2^32` does not change a sum modulo 256. -/
lemma checksum_eq (s : Bytes) : checksum s = byteSum s % 256 := by
  have hloop : ∀ acc : ℕ, (s.foldl (fun sum c => (sum + c.toNat) % 2 ^ 32) acc) % 256 =
      (acc + byteSum s) % 256 := by
    induction s with
    | nil => intro acc; rfl
    | cons c s ih =>
      intro acc
      rw [List.foldl_cons, ih, byteSum, byteSum, List.map_cons, List.sum_cons]
      omega
  rw [checksum, hloop, Nat.zero_add]

lemma zeroPad_toText {n : ℕ} (h : n < 1000) : zeroPad 3 (toText n) = threeDigits n := by
  have hzero : digit 0 = 48 := rfl
  rw [toText_eq_decimal, threeDigits]
  rcases lt_or_ge n 10 with h1 | h1
  · rw [decimal_of_lt h1, Nat.div_eq_of_lt (by omega), Nat.div_eq_of_lt h1, Nat.zero_mod,
      Nat.mod_eq_of_lt h1, hzero]
    rfl
  · rcases lt_or_ge n 100 with h2 | h2
    · rw [decimal_of_le h1, decimal_of_lt (by omega), Nat.div_eq_of_lt h2,
        Nat.mod_eq_of_lt (show n / 10 < 10 by omega), hzero]
      rfl
    · rw [decimal_of_le h1, decimal_of_le (by omega), decimal_of_lt (by omega),
        Nat.div_div_eq_div_mul]
      rfl

/-! ## The size of the body -/

/-- The number of bytes of the fields of one entry. -/
def entrySize (fmt : ℚ → Bytes) (incremental : Bool) (e : MDEntry) : ℕ :=
  (if incremental then 5 + (intText e.updateAction).length else 0) +
    (5 + (intText e.entryType).length) + (5 + (fmt e.price).length) +
    (5 + (fmt e.quantity).length)

/-- The number of bytes of the body. -/
def bodySize (fmt : ℚ → Bytes) (incremental : Bool) (sendingTime symbol : Bytes)
    (entries : List MDEntry) (seqNum : ℤ) : ℕ :=
  5 + (4 + (intText seqNum).length) + 13 + 10 + (4 + sendingTime.length) + (4 + symbol.length) +
    (5 + (toText entries.length).length) + (entries.map (entrySize fmt incremental)).sum

lemma length_entryText (fmt : ℚ → Bytes) (incremental : Bool) (delim : UInt8) (e : MDEntry) :
    (entryText fmt (if incremental then bytes "X" else bytes "W") delim e).length =
      entrySize fmt incremental e := by
  have h279 : (bytes "279=").length = 4 := rfl
  have h269 : (bytes "269=").length = 4 := rfl
  have h270 : (bytes "270=").length = 4 := rfl
  have h271 : (bytes "271=").length = 4 := rfl
  have hne : bytes "W" ≠ bytes "X" := by decide
  cases incremental <;>
    simp [entryText, entrySize, h279, h269, h270, h271, hne] <;> omega

lemma length_bodyText (fmt : ℚ → Bytes) (incremental : Bool) (sendingTime symbol : Bytes)
    (entries : List MDEntry) (seqNum : ℤ) (delim : UInt8) :
    (bodyText fmt sendingTime (if incremental then bytes "X" else bytes "W") symbol entries seqNum
      delim).length = bodySize fmt incremental sendingTime symbol entries seqNum := by
  have htype : (if incremental then bytes "X" else bytes "W").length = 1 := by
    cases incremental <;> rfl
  have hentries : (entries.flatMap (entryText fmt (if incremental then bytes "X" else bytes "W")
      delim)).length = (entries.map (entrySize fmt incremental)).sum := by
    rw [List.length_flatMap]
    congr 1
    exact List.map_congr_left fun e _ => length_entryText fmt incremental delim e
  have h35 : (bytes "35=").length = 3 := rfl
  have h34 : (bytes "34=").length = 3 := rfl
  have h49 : (bytes "49=SIMULATOR").length = 12 := rfl
  have h56 : (bytes "56=CLIENT").length = 9 := rfl
  have h52 : (bytes "52=").length = 3 := rfl
  have h55 : (bytes "55=").length = 3 := rfl
  have h268 : (bytes "268=").length = 4 := rfl
  simp only [bodyText, bodySize, List.length_append, List.length_cons, List.length_nil, htype,
    hentries, h35, h34, h49, h56, h52, h55, h268]
  omega

/-! ## The length field -/

/-- The length field is right if and only if the length is an `int`. -/
lemma intText_toInt32_iff (n : ℕ) : intText (toInt32 n) = decimal n ↔ n < 2 ^ 31 := by
  constructor
  · intro h
    rw [intText] at h
    split_ifs at h with hneg
    · have hdigit := decimal_isDigit n 45 (by rw [← h]; exact List.mem_cons_self)
      exact absurd hdigit (by decide)
    · rw [toText_eq_decimal] at h
      have hvalue : (toInt32 n).natAbs = n := by
        rw [← ofDigits_decimal (toInt32 n).natAbs, h, ofDigits_decimal]
      have hlt : toInt32 n < 2 ^ 31 := by
        have := Int.bmod_lt (x := (n : ℤ)) (m := 2 ^ 32) (by norm_num)
        rw [toInt32]
        norm_num at this ⊢
        omega
      omega
  · intro h
    rw [toInt32_of_lt (by omega) (by omega), intText, if_neg (by omega), Int.natAbs_natCast,
      toText_eq_decimal]

lemma not_mem_intText {b : UInt8} (hdigit : ¬ IsDigit b) (hminus : b ≠ 45) (i : ℤ) :
    b ∉ intText i := by
  have htext : ∀ n : ℕ, b ∉ toText n := by
    intro n hmem
    rw [toText_eq_decimal] at hmem
    exact hdigit (decimal_isDigit n b hmem)
  rw [intText]
  split_ifs
  · rw [List.mem_cons, not_or]
    exact ⟨hminus, htext _⟩
  · exact htext _

/-- The length field and the length of the body can be read off a message. -/
lemma cut_unique {delim : UInt8} {len len' body body' cksum cksum' : Bytes} (hlen : delim ∉ len)
    (hlen' : delim ∉ len') (hcksum : cksum.length = cksum'.length)
    (h : (bytes "8=FIX.4.4" ++ [delim]) ++ (bytes "9=" ++ len ++ [delim]) ++ body ++
        (bytes "10=" ++ cksum ++ [delim]) =
      (bytes "8=FIX.4.4" ++ [delim]) ++ (bytes "9=" ++ len' ++ [delim]) ++ body' ++
        (bytes "10=" ++ cksum' ++ [delim])) : len = len' ∧ body.length = body'.length := by
  simp only [List.append_assoc, List.append_cancel_left_eq, List.cons_append,
    List.nil_append] at h
  have hcut := List.append_cancel_left (List.cons.inj h).2
  have hfirst := congrArg (List.findIdx? (· = delim)) hcut
  rw [findIdx?_append_cons hlen, findIdx?_append_cons hlen', Option.some.injEq] at hfirst
  obtain ⟨heq, hrest⟩ := List.append_inj hcut hfirst
  refine ⟨heq, ?_⟩
  have hlength := congrArg List.length hrest
  simp only [List.length_cons, List.length_append, hcksum] at hlength
  omega

/-- A message of the builder is framed if and only if its body is shorter than `2^31` bytes. -/
lemma buildFixMessage_framed_iff {delim : UInt8} (hdigit : ¬ IsDigit delim) (hminus : delim ≠ 45)
    (fmt : ℚ → Bytes) (sendingTime msgTypeStr symbol : Bytes) (entries : List MDEntry)
    (seqNum : ℤ) :
    Framed delim (buildFixMessage fmt sendingTime msgTypeStr symbol entries seqNum delim) ↔
      (bodyText fmt sendingTime msgTypeStr symbol entries seqNum delim).length < 2 ^ 31 := by
  rw [← intText_toInt32_iff, buildFixMessage]
  generalize bodyText fmt sendingTime msgTypeStr symbol entries seqNum delim = body
  rw [checksum_eq, zeroPad_toText (by omega)]
  constructor
  · rintro ⟨body', h⟩
    have hdecimal : delim ∉ decimal body'.length := fun hmem => hdigit (decimal_isDigit _ _ hmem)
    obtain ⟨hlen, hlength⟩ := cut_unique (not_mem_intText hdigit hminus _) hdecimal
      (by rw [length_threeDigits, length_threeDigits]) h
    rw [hlen, hlength]
  · intro h
    refine ⟨body, ?_⟩
    rw [h]
    rfl

/-- **When a message is framed.**  For every symbol, list of entries, sequence number and
delimiter, the messages of `build_snapshot` and `build_incremental` have the right length and
checksum if and only if the fields after the length take less than `2^31` bytes. -/
theorem build_framed_iff (fmt : ℚ → Bytes) (sendingTime symbol : Bytes) (entries : List MDEntry)
    (seqNum : ℤ) (useSoh : Bool) :
    (Framed (if useSoh then fixSoh else 124)
        (buildSnapshot fmt sendingTime symbol entries seqNum useSoh) ↔
      bodySize fmt false sendingTime symbol entries seqNum < 2 ^ 31) ∧
    (Framed (if useSoh then fixSoh else 124)
        (buildIncremental fmt sendingTime symbol entries seqNum useSoh) ↔
      bodySize fmt true sendingTime symbol entries seqNum < 2 ^ 31) := by
  have hdigit : ¬ IsDigit (if useSoh then fixSoh else 124) := by cases useSoh <;> decide
  have hminus : (if useSoh then fixSoh else 124) ≠ (45 : UInt8) := by cases useSoh <;> decide
  constructor
  · rw [buildSnapshot, buildFixMessage_framed_iff hdigit hminus,
      ← length_bodyText fmt false sendingTime symbol entries seqNum
        (if useSoh then fixSoh else 124)]
    rfl
  · rw [buildIncremental, buildFixMessage_framed_iff hdigit hminus,
      ← length_bodyText fmt true sendingTime symbol entries seqNum (if useSoh then fixSoh else 124)]
    rfl

/-- The size of a body of `2^31` bytes is written as a negative number. -/
theorem long_symbol_not_framed :
    ¬ ∀ (fmt : ℚ → Bytes) (sendingTime symbol : Bytes) (entries : List MDEntry) (seqNum : ℤ)
      (useSoh : Bool), Framed (if useSoh then fixSoh else 124)
        (buildSnapshot fmt sendingTime symbol entries seqNum useSoh) := by
  intro hclaim
  have hframed := hclaim (fun _ => []) [] (List.replicate (2 ^ 31) 65) [] 1 true
  rw [buildSnapshot, buildFixMessage_framed_iff (by decide) (by decide)] at hframed
  have hsize := length_bodyText (fun _ => []) false [] (List.replicate (2 ^ 31) 65) [] 1 fixSoh
  rw [bodySize, List.length_replicate] at hsize
  simp only [Bool.false_eq_true, if_false] at hsize
  rw [if_pos rfl, hsize] at hframed
  omega

end FIXParser

end TickPlant
