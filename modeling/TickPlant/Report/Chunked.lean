/-
# Chunked bodies

`decode_chunked` of `questdb_data_source.cpp`: a chunk is a line with its size in hexadecimal, the
data, and a CRLF; a chunk of size zero ends the body.  The position is a `size_t`, the size comes
from the server, and their sum is compared with the length of the body modulo `2^64`.

One turn of the loop depends on the body and the position only.  A turn that goes on moves the
position forward, unless the size is so large that the sum wraps around far enough to land at or
before the line it was read from (`WrapsBack`); then the loop may go round for ever.  So the loop
is given fuel, and `DecodesTo` says that some fuel is enough.
-/
import TickPlant.Text
import TickPlant.Lib.Search

namespace TickPlant.QuestDbDataSource

open Lib

/-! ## Sizes -/

/-- `std::isspace` in the C locale. -/
def isSpace (c : UInt8) : Bool := c = 32 ∨ 9 ≤ c ∧ c ≤ 13

/-- A hexadecimal digit of either case. -/
def isHexDigit (c : UInt8) : Bool := 48 ≤ c ∧ c ≤ 57 ∨ 65 ≤ c ∧ c ≤ 70 ∨ 97 ≤ c ∧ c ≤ 102

/-- The value of a hexadecimal digit. -/
def hexValue (c : UInt8) : ℕ :=
  if c ≤ 57 then c.toNat - 48 else if c ≤ 70 then c.toNat - 55 else c.toNat - 87

/-- The value of a list of hexadecimal digits. -/
def ofHex (digits : Bytes) : ℕ := digits.foldl (fun v c => v * 16 + hexValue c) 0

/-- The sign that `strtoul` accepts: whether the number is negated, and the rest. -/
def readSign : Bytes → Bool × Bytes
  | 45 :: s => (true, s)
  | 43 :: s => (false, s)
  | s => (false, s)

/-- The prefix `0x` that `strtoul` accepts before a digit. -/
def skipHexPrefix : Bytes → Bytes
  | 48 :: x :: c :: s => if (x = 120 ∨ x = 88) ∧ isHexDigit c then c :: s else 48 :: x :: c :: s
  | s => s

/-- `std::stoul(str, nullptr, 16)`: `none` if it throws, because there is no number or because the
number does not fit.  A negative number is negated in `unsigned long`. -/
def stoul (str : Bytes) : Option ℕ :=
  let (negative, s) := readSign (str.dropWhile isSpace)
  let digits := (skipHexPrefix s).takeWhile isHexDigit
  if digits = [] ∨ 2 ^ 64 ≤ ofHex digits then none
  else if negative then some ((2 ^ 64 - ofHex digits) % 2 ^ 64)
  else some (ofHex digits)

lemma stoul_lt {str : Bytes} {n : ℕ} (h : stoul str = some n) : n < 2 ^ 64 := by
  rw [stoul] at h
  simp only at h
  split at h
  · cases h
  · rename_i hfits
    split at h
    · cases h
      exact Nat.mod_lt _ (by norm_num)
    · cases h
      omega

/-! ## The loop -/

/-- The end of a line. -/
def crlf : Bytes := [13, 10]

/-- The line at `pos`: its length, and the size of the chunk without the extensions behind `;`.
`none` if there is no end of a line, or if `std::stoul` throws. -/
def sizeLine (body : Bytes) (pos : ℕ) : Option (ℕ × ℕ) := do
  let length ← search crlf (body.drop pos)
  let sizeStr := (body.drop pos).take length
  let chunkSize ← stoul (sizeStr.takeWhile (· ≠ 59))
  return (length, chunkSize)

/-- One turn of the loop, with arithmetic in `size_t`: the bytes appended and the next position.
`none` if the loop ends here. -/
def turn (body : Bytes) (pos : ℕ) : Option (Bytes × ℕ) :=
  if pos < body.length then
    match sizeLine body pos with
    | none => none
    | some (length, chunkSize) =>
      if chunkSize = 0 then none
      else
        let pos := (pos + length + 2) % 2 ^ 64
        if body.length < (pos + chunkSize) % 2 ^ 64 then none
        else some ((body.drop pos).take chunkSize, (pos + chunkSize + 2) % 2 ^ 64)
  else none

/-- The loop of `decode_chunked`; `none` if it is still running after `fuel` turns. -/
def decodeLoop (body : Bytes) : ℕ → ℕ → Bytes → Option Bytes
  | 0, _, _ => none
  | fuel + 1, pos, result =>
    match turn body pos with
    | none => some result
    | some (chunk, pos) => decodeLoop body fuel pos (result ++ chunk)

/-- `decode_chunked`, on at most `fuel` turns of its loop. -/
def decodeChunked (fuel : ℕ) (body : Bytes) : Option Bytes := decodeLoop body fuel 0 []

/-- `decode_chunked` returns. -/
def DecodesTo (body result : Bytes) : Prop := ∃ fuel, decodeChunked fuel body = some result

/-- `::tolower` in the C locale. -/
def toLower (c : UInt8) : UInt8 := if 65 ≤ c ∧ c ≤ 90 then c + 32 else c

/-- What `http_get` returns for the bytes received: the body behind the blank line, decoded if a
header names the encoding in either case. -/
def httpBody (fuel : ℕ) (resp : Bytes) : Option Bytes :=
  match search (crlf ++ crlf) resp with
  | none => some []
  | some sep =>
    let headers := resp.take sep
    let body := resp.drop (sep + 4)
    if bytes "transfer-encoding: chunked" <:+: headers.map toLower then decodeChunked fuel body
    else some body

/-- A `std::string` is at most this long. -/
def maxSize : ℕ := 2 ^ 63 - 1

/-! ## Progress -/

/-- The position after one turn. -/
def next (body : Bytes) (pos : ℕ) : Option ℕ := (turn body pos).map Prod.snd

/-- The position at the start of turn `k`; `none` if the loop has ended. -/
def posAt (body : Bytes) (k : ℕ) : Option ℕ := (fun o => o.bind (next body))^[k] (some 0)

/-- `decode_chunked` returns, and every turn before the last moves the position forward. -/
structure Advances (body : Bytes) : Prop where
  returns : ∃ result, DecodesTo body result
  increases : ∀ k pos pos', posAt body k = some pos → posAt body (k + 1) = some pos' → pos < pos'

/-- The size on the line at `pos` is so close to `2 ^ 64` that adding it to the position of the
data, and skipping the CRLF behind them, leads back to `pos` or before. -/
def WrapsBack (body : Bytes) (pos : ℕ) : Prop :=
  ∃ length chunkSize, sizeLine body pos = some (length, chunkSize) ∧
    length + 4 ≤ 2 ^ 64 - chunkSize ∧ 2 ^ 64 - chunkSize ≤ pos + length + 2

section

variable {body : Bytes} {pos : ℕ}

lemma sizeLine_spec {length chunkSize : ℕ} (h : sizeLine body pos = some (length, chunkSize)) :
    pos + length + 2 ≤ body.length ∧ chunkSize < 2 ^ 64 := by
  obtain ⟨i, hi, h⟩ := Option.bind_eq_some_iff.mp h
  obtain ⟨n, hn, h⟩ := Option.bind_eq_some_iff.mp h
  cases h
  have hle := search_add_length_le hi
  rw [List.length_drop] at hle
  have hcrlf : crlf.length = 2 := rfl
  exact ⟨by omega, stoul_lt hn⟩

/-- What a turn does that goes on: the sum is compared with the length of the body after it has
wrapped around. -/
lemma next_eq_some_iff (hsize : body.length ≤ maxSize) {pos' : ℕ} :
    next body pos = some pos' ↔ ∃ length chunkSize,
      sizeLine body pos = some (length, chunkSize) ∧ chunkSize ≠ 0 ∧
        (pos + length + 2 + chunkSize ≤ body.length ∧ pos' = pos + length + chunkSize + 4 ∨
          2 ^ 64 ≤ pos + length + 2 + chunkSize ∧
            pos' + 2 ^ 64 = pos + length + chunkSize + 4) := by
  cases hline : sizeLine body pos with
  | none => simp [next, turn, hline]
  | some line =>
    obtain ⟨length, chunkSize⟩ := line
    obtain ⟨hle, hlt⟩ := sizeLine_spec hline
    rw [maxSize] at hsize
    have hpos : pos < body.length := by omega
    have hdata : (pos + length + 2) % 2 ^ 64 = pos + length + 2 := Nat.mod_eq_of_lt (by omega)
    have hsome : ∀ p : ℕ → ℕ → Prop, (∃ l n, some (length, chunkSize) = some (l, n) ∧ p l n) ↔
        p length chunkSize := by
      intro p
      constructor
      · rintro ⟨_, _, ⟨⟩, h⟩
        exact h
      · intro h
        exact ⟨length, chunkSize, rfl, h⟩
    rw [hsome, next, turn, if_pos hpos, hline]
    simp only [hdata]
    by_cases hzero : chunkSize = 0
    · rw [if_pos hzero]
      simp [hzero]
    · rw [if_neg hzero]
      -- the sum fits and is compared as it is, or it wraps around to a small number
      rcases Nat.lt_or_ge (pos + length + 2 + chunkSize) (2 ^ 64) with hfits | hwraps
      · rw [Nat.mod_eq_of_lt hfits]
        by_cases hlong : body.length < pos + length + 2 + chunkSize
        · rw [if_pos hlong]
          simp
          omega
        · have hnext : (pos + length + 2 + chunkSize + 2) % 2 ^ 64 =
              pos + length + 2 + chunkSize + 2 := Nat.mod_eq_of_lt (by omega)
          rw [if_neg hlong, hnext]
          simp
          omega
      · have hsum : (pos + length + 2 + chunkSize) % 2 ^ 64 =
            pos + length + 2 + chunkSize - 2 ^ 64 := by omega
        have hnext : (pos + length + 2 + chunkSize + 2) % 2 ^ 64 =
            pos + length + 2 + chunkSize + 2 - 2 ^ 64 := by omega
        rw [hsum, if_neg (by omega), hnext]
        simp
        omega

/-- Such a turn moves forward exactly if its size does not wrap back. -/
lemma lt_next_iff (hsize : body.length ≤ maxSize) {pos' : ℕ} (h : next body pos = some pos') :
    pos < pos' ↔ ¬ WrapsBack body pos := by
  obtain ⟨length, chunkSize, hline, -, hpos'⟩ := (next_eq_some_iff hsize).mp h
  have hlt := (sizeLine_spec hline).2
  have hmax : body.length < 2 ^ 63 := lt_of_le_of_lt hsize (by norm_num [maxSize])
  rw [WrapsBack, hline]
  constructor
  · rintro hmore ⟨_, _, ⟨⟩, h₁, h₂⟩
    omega
  · intro hnot
    by_contra hback
    exact hnot ⟨length, chunkSize, rfl, by omega, by omega⟩

/-- A size that wraps back does not end the loop. -/
lemma next_of_wrapsBack (hsize : body.length ≤ maxSize) (h : WrapsBack body pos) :
    ∃ pos', next body pos = some pos' := by
  obtain ⟨length, chunkSize, hline, h₁, h₂⟩ := h
  obtain ⟨hle, hlt⟩ := sizeLine_spec hline
  have hmax : body.length < 2 ^ 63 := lt_of_le_of_lt hsize (by norm_num [maxSize])
  have hsome : chunkSize ≠ 0 := by omega
  have hwraps : 2 ^ 64 ≤ pos + length + 2 + chunkSize := by omega
  refine ⟨pos + length + chunkSize + 4 - 2 ^ 64, (next_eq_some_iff hsize).mpr ?_⟩
  exact ⟨length, chunkSize, hline, hsome, Or.inr ⟨hwraps, by omega⟩⟩

/-! ## The loop and its positions -/

lemma posAt_succ (body : Bytes) (k : ℕ) : posAt body (k + 1) = (posAt body k).bind (next body) := by
  rw [posAt, Function.iterate_succ_apply']
  rfl

/-- The loop returns as soon as there is no next position. -/
lemma decodeLoop_of_none {k : ℕ} (result : Bytes)
    (h : (fun o : Option ℕ => o.bind (next body))^[k] (some pos) = none) :
    ∃ out, decodeLoop body k pos result = some out := by
  induction k generalizing pos result with
  | zero => cases h
  | succ k ih =>
    rw [Function.iterate_succ_apply, Option.bind_some] at h
    rw [decodeLoop]
    cases hturn : turn body pos with
    | none => exact ⟨result, rfl⟩
    | some step =>
      rw [next, hturn] at h
      exact ih _ h

end

/-- **Progress of `decode_chunked`.**  For every body, the call returns and every turn moves the
position forward if and only if no line that the loop reaches has a size that wraps back. -/
theorem decodeChunked_advances_iff (body : Bytes) (hsize : body.length ≤ maxSize) :
    Advances body ↔ ∀ k pos, posAt body k = some pos → ¬ WrapsBack body pos := by
  constructor
  · intro h k pos hpos hback
    obtain ⟨pos', hnext⟩ := next_of_wrapsBack hsize hback
    have hlt := h.increases k pos pos' hpos (by rw [posAt_succ, hpos]; exact hnext)
    exact (lt_next_iff hsize hnext).mp hlt hback
  · intro h
    have hincreases : ∀ k pos pos', posAt body k = some pos → posAt body (k + 1) = some pos' →
        pos < pos' := by
      intro k pos pos' hpos hpos'
      rw [posAt_succ, hpos] at hpos'
      exact (lt_next_iff hsize hpos').mpr (h k pos hpos)
    refine ⟨?_, hincreases⟩
    -- after `k` turns the position is at least `k`
    have hle : ∀ k pos, posAt body k = some pos → k ≤ pos := by
      intro k
      induction k with
      | zero => exact fun pos _ => Nat.zero_le pos
      | succ k ih =>
        intro pos' hpos'
        have hbind := hpos'
        rw [posAt_succ] at hbind
        obtain ⟨pos, hpos, -⟩ := Option.bind_eq_some_iff.mp hbind
        exact lt_of_le_of_lt (ih pos hpos) (hincreases k pos pos' hpos hpos')
    have hend : posAt body (body.length + 1) = none := by
      rw [posAt_succ]
      cases hpos : posAt body body.length with
      | none => rfl
      | some pos =>
        have hpast := hle _ _ hpos
        rw [Option.bind_some, next, turn, if_neg (by omega)]
        rfl
    obtain ⟨result, hresult⟩ := decodeLoop_of_none [] hend
    exact ⟨result, body.length + 1, hresult⟩

theorem decodeChunked_advances_iff_oneChunk :
    Advances (bytes "3\r\nabc\r\n0\r\n\r\n") ↔ ∀ k pos,
      posAt (bytes "3\r\nabc\r\n0\r\n\r\n") k = some pos →
        ¬ WrapsBack (bytes "3\r\nabc\r\n0\r\n\r\n") pos :=
  decodeChunked_advances_iff (bytes "3\r\nabc\r\n0\r\n\r\n") (by decide)

/-- A chunk, and a size line that leads back to itself. -/
theorem decodeChunked_loops :
    ¬ ∃ result, DecodesTo (bytes "1\r\na\r\nffffffffffffffec\r\n") result := by
  have hfirst : turn (bytes "1\r\na\r\nffffffffffffffec\r\n") 0 = some (bytes "a", 6) := by
    decide +kernel
  have hback : turn (bytes "1\r\na\r\nffffffffffffffec\r\n") 6 = some ([], 6) := by
    decide +kernel
  have hnever : ∀ fuel before,
      decodeLoop (bytes "1\r\na\r\nffffffffffffffec\r\n") fuel 6 before = none := by
    intro fuel
    induction fuel with
    | zero => exact fun _ => rfl
    | succ fuel ih =>
      intro before
      rw [decodeLoop, hback]
      exact ih _
  rintro ⟨result, fuel, hresult⟩
  cases fuel with
  | zero => cases hresult
  | succ fuel =>
    rw [decodeChunked, decodeLoop, hfirst] at hresult
    exact absurd (hresult.symm.trans (hnever fuel _)) (by simp)

end TickPlant.QuestDbDataSource
