/-
# The input buffer of a connection

The three servers collect the bytes of a connection in a buffer of 512 bytes and look for a
newline after every `recv`.  A line that is found is terminated in place by a zero byte,
handed on as a C string, and the bytes after it are moved to the front.  The buffer is
modelled with all its 512 bytes; the first `len` of them are the bytes received and not yet
consumed (`valid`), and `takeLine_eq` says what the in-place operations do to these.
-/
import TickPlant.Text

namespace TickPlant

/-- The newline. -/
def newline : UInt8 := 10

/-- The first line and the bytes after its newline. -/
def splitLine (s : Bytes) : Option (Bytes × Bytes) :=
  match s.findIdx? (· = newline) with
  | none => none
  | some i => some (s.take i, s.drop (i + 1))

/-- `char inbuf[512]` with `inlen`, which stays below the size of the buffer. -/
structure LineBuffer where
  data : Bytes
  len : ℕ
  length_data : data.length = 512
  len_le : len ≤ 511

namespace LineBuffer

/-- `char inbuf[512] = {}`. -/
def empty : LineBuffer where
  data := List.replicate 512 0
  len := 0
  length_data := List.length_replicate
  len_le := Nat.zero_le _

/-- A buffer with nothing received yet, over bytes that are there already. -/
def clear (b : LineBuffer) : LineBuffer where
  data := b.data
  len := 0
  length_data := b.length_data
  len_le := Nat.zero_le _

/-- The bytes received and not yet consumed. -/
def valid (b : LineBuffer) : Bytes := b.data.take b.len

/-- The length asked for in a `recv`: one byte of the buffer is always left. -/
def room (b : LineBuffer) : ℕ := 512 - b.len - 1

/-- A `recv` into the buffer at `inlen` returns `chunk`; `none` when this is not a possible
result of a successful call. -/
def recv (b : LineBuffer) (chunk : Bytes) : Option LineBuffer :=
  if h : 0 < chunk.length ∧ chunk.length ≤ b.room then
    some
      { data := b.data.take b.len ++ chunk ++ b.data.drop (b.len + chunk.length)
        len := b.len + chunk.length
        length_data := by
          have h1 := b.length_data
          have h2 := h.2
          rw [room] at h2
          simp only [List.length_append, List.length_take, List.length_drop]
          omega
        len_le := by
          have h2 := h.2
          rw [room] at h2
          omega }
  else none

/-- `buf[pos] = '\0'`, which the simple server writes after each `recv`. -/
def terminate (b : LineBuffer) : LineBuffer where
  data := b.data.set b.len 0
  len := b.len
  length_data := by rw [List.length_set, b.length_data]
  len_le := b.len_le

/-- `memchr` for the newline, `*nl = '\0'`, the C string at the start, and `memmove` of the
rest to the front. -/
def takeLine (b : LineBuffer) : Option (Bytes × LineBuffer) :=
  match b.valid.findIdx? (· = newline) with
  | none => none
  | some nl =>
    let data := b.data.set nl 0
    let rest := b.len - (nl + 1)
    some (cString data,
      { data := (data.drop (nl + 1)).take rest ++ data.drop rest
        len := rest
        length_data := by
          have h1 := b.length_data
          have h2 := b.len_le
          simp only [data, rest, List.length_append, List.length_take, List.length_drop,
            List.length_set]
          omega
        len_le := by
          have h2 := b.len_le
          simp only [rest]
          omega })

lemma length_valid (b : LineBuffer) : b.valid.length = b.len := by
  have h1 := b.length_data
  have h2 := b.len_le
  rw [valid, List.length_take]
  omega

/-- The zero byte is written after the valid bytes. -/
@[simp] lemma valid_terminate (b : LineBuffer) : b.terminate.valid = b.valid :=
  List.take_set_of_le le_rfl

/-- A successful `recv` appends its bytes. -/
lemma valid_recv {b b' : LineBuffer} {chunk : Bytes} (h : b.recv chunk = some b') :
    b'.valid = b.valid ++ chunk ∧ 0 < chunk.length := by
  rw [recv] at h
  split at h
  · rename_i hc
    obtain rfl := Option.some.inj h
    have h1 := b.length_data
    have h2 := b.len_le
    refine ⟨?_, hc.1⟩
    show (b.data.take b.len ++ chunk ++ _).take (b.len + chunk.length) = _
    rw [valid, List.take_left']
    rw [List.length_append, List.length_take]
    omega
  · exact absurd h (by simp)

/-- What `takeLine` does to the valid bytes: the first line goes to the caller as a C string,
the bytes after its newline stay. -/
lemma takeLine_eq (b : LineBuffer) :
    b.takeLine.map (fun x => (x.1, x.2.valid)) =
      (splitLine b.valid).map fun x => (cString x.1, x.2) := by
  rw [takeLine, splitLine]
  rcases hnl : b.valid.findIdx? (· = newline) with _ | nl
  · rfl
  · have hlt : nl < b.len := by
      rw [← length_valid]
      exact (List.findIdx?_eq_some_iff_getElem.mp hnl).1
    have h1 := b.length_data
    have h2 := b.len_le
    simp only [Option.map_some, Option.some.injEq, Prod.mk.injEq]
    constructor
    · have hcut : b.valid.take nl = b.data.take nl := by
        rw [valid, List.take_take, Nat.min_eq_left hlt.le]
      rw [hcut, List.set_eq_take_append_cons_drop, if_pos (by omega), cString_append_zero]
    · show ((_ : Bytes) ++ _).take (b.len - (nl + 1)) = _
      rw [List.take_left' (by
          simp only [List.length_take, List.length_drop, List.length_set]; omega),
        List.drop_set_of_lt (by omega), valid, List.drop_take]

/-- No line is found when there is no newline among the valid bytes. -/
lemma takeLine_eq_none {b : LineBuffer} (h : b.takeLine = none) : splitLine b.valid = none := by
  have heq := b.takeLine_eq
  rwa [h, Option.map_none, eq_comm, Option.map_eq_none_iff] at heq

/-- The line that is found, and what is left. -/
lemma takeLine_eq_some {b b' : LineBuffer} {line : Bytes} (h : b.takeLine = some (line, b')) :
    ∃ raw, splitLine b.valid = some (raw, b'.valid) ∧ cString raw = line := by
  have heq := b.takeLine_eq
  rw [h, Option.map_some] at heq
  obtain ⟨⟨raw, rest⟩, hsplit, hx⟩ := Option.map_eq_some_iff.mp heq.symm
  obtain ⟨hraw, hrest⟩ : cString raw = line ∧ rest = b'.valid := Prod.mk.inj hx
  exact ⟨raw, hrest ▸ hsplit, hraw⟩

end LineBuffer

end TickPlant
