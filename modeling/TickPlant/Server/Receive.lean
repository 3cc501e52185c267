/-
# The receive paths and their buffer

`LineBuffer` is a buffer whose length cannot leave `0 .. 511`.  Here the three receive
paths are followed with a plain `char[512]` and a plain `int`, and with every access they
make to the array: the `recv` calls with the length they ask for, the scans for a newline,
the zero bytes written, and the moves of the bytes left over.  The bytes that arrive, and
how many a `recv` returns, are arbitrary.

Each operation, applied where the servers apply it, is the operation of `LineBuffer`
(`Buffer.Holds`), so the length stays in range along every run, and every access recorded
lies inside the array.
-/
import TickPlant.Server.Connection

namespace TickPlant.Receive

open Lib

/-! ## The buffer -/

/-- An access to the buffer, with the offsets and lengths that the code computes. -/
inductive Access
  /-- A `recv` to the offset `off` that asks for `len` bytes. -/
  | recv (off len : ℤ)
  /-- `memchr` over the first `len` bytes. -/
  | scan (len : ℤ)
  /-- A byte is stored. -/
  | store (i : ℤ)
  /-- `memmove` of `len` bytes from `src` to the front. -/
  | move (src len : ℤ)
deriving DecidableEq

/-- The access touches only the 512 bytes, and a `recv` asks for at least one. -/
def Access.Inside : Access → Prop
  | .recv off len => 1 ≤ len ∧ 0 ≤ off ∧ off + len ≤ 512
  | .scan len => 0 ≤ len ∧ len ≤ 512
  | .store i => 0 ≤ i ∧ i < 512
  | .move src len => 0 ≤ len ∧ 0 ≤ src ∧ src + len ≤ 512

instance : DecidablePred Access.Inside := fun a => by
  cases a <;> exact inferInstanceAs (Decidable (_ ∧ _))

/-- `char inbuf[512]` and `int inlen`, with the accesses made so far. -/
structure Buffer where
  inbuf : Bytes
  inlen : ℤ
  accesses : List Access

namespace Buffer

/-- The buffer of a new connection, over the bytes that are in memory. -/
def new (memory : LineBuffer) : Buffer := ⟨memory.data, 0, []⟩

/-- An access to the buffer is noted. -/
def access (r : Buffer) (a : Access) : Buffer := { r with accesses := r.accesses ++ [a] }

/-- `INBUF_SIZE - inlen - 1`. -/
def room (r : Buffer) : ℤ := 512 - r.inlen - 1

/-- The first `inlen` bytes. -/
def valid (r : Buffer) : Bytes := r.inbuf.take r.inlen.toNat

/-- The kernel has stored `chunk` at `inlen`, and `inlen += chunk.size()`. -/
def received (r : Buffer) (chunk : Bytes) : Buffer :=
  { r with
    inbuf := r.valid ++ chunk ++ r.inbuf.drop (r.inlen.toNat + chunk.length)
    inlen := r.inlen + chunk.length }

/-- `inbuf[i] = '\0'`. -/
def storeZero (r : Buffer) (i : ℤ) : Buffer :=
  { r.access (.store i) with inbuf := r.inbuf.set i.toNat 0 }

/-- `memchr(inbuf, '\n', inlen)`. -/
def findNewline (r : Buffer) : Option ℕ × Buffer :=
  (r.valid.findIdx? (· = newline), r.access (.scan r.inlen))

/-- `inlen -= nl + 1`, and `memmove` of the rest to the front if there is any. -/
def slide (r : Buffer) (nl : ℕ) : Buffer :=
  let rest := r.inlen - (nl + 1)
  if rest > 0 then
    { r.access (.move (nl + 1) rest) with
      inbuf := (r.inbuf.drop (nl + 1)).take rest.toNat ++ r.inbuf.drop rest.toNat
      inlen := rest }
  else { r with inlen := rest }

/-- A line ends at `nl`: it is terminated in place, handled, and taken out. -/
def consume (r : Buffer) (nl : ℕ) : Buffer := (r.storeZero nl).slide nl

end Buffer

/-! ## The servers -/

/-- The three servers. -/
inductive Server
  | epoll
  | uring
  | simple
deriving DecidableEq

/-- Why a connection was closed. -/
inductive Reason
  /-- The check for a line that does not fit. -/
  | overLong
  /-- The peer or an error. -/
  | lost
deriving DecidableEq

/-- Where the server stands with a connection. -/
inductive Phase
  /-- Waiting for the socket to become readable. -/
  | waiting
  /-- A `recv` has been issued that asks for `len` bytes. -/
  | receiving (len : ℤ)
  /-- A reply is being sent. -/
  | replying
  | closed (why : Reason)
deriving DecidableEq

/-- A connection: its receive buffer and where the server stands with it. -/
structure Conn where
  buf : Buffer
  phase : Phase

/-- What happens on a connection. -/
inductive Event
  /-- `EPOLLIN` while `READING`. -/
  | readable
  /-- The `recv` returns bytes. -/
  | data (chunk : Bytes)
  /-- The `recv` reports `EAGAIN`. -/
  | wouldBlock
  /-- The end of the stream, an error or a hang-up. -/
  | failed
  /-- The reply is out. -/
  | replied

/-- `recv(fd, inbuf + inlen, INBUF_SIZE - inlen - 1, 0)`, `submit_recv` in the io_uring
server. -/
def submitRecv (r : Buffer) : Conn := ⟨r.access (.recv r.inlen r.room), .receiving r.room⟩

/-- The top of the `recv` loop of the epoll server. -/
def enterRecv (r : Buffer) : Conn :=
  if r.room ≤ 0 then ⟨r, .closed .overLong⟩ else submitRecv r

/-- A `recv` has returned bytes, and they have been counted. -/
def onData (server : Server) (r : Buffer) : Conn :=
  match server with
  | .epoll =>
    match r.findNewline with
    | (none, r) => enterRecv r
    | (some nl, r) => ⟨r.consume nl, .replying⟩
  | .uring =>
    match r.findNewline with
    | (none, r) => if r.inlen ≥ 512 - 1 then ⟨r, .closed .overLong⟩ else submitRecv r
    | (some nl, r) => ⟨r.consume nl, .replying⟩
  | .simple =>
    match (r.storeZero r.inlen).findNewline with
    | (none, r) => if r.inlen ≥ 512 - 1 then ⟨r, .closed .overLong⟩ else submitRecv r
    -- the `send` of the reply blocks, and its result is ignored
    | (some nl, r) => submitRecv (r.consume nl)

/-- One event; `none` when it cannot happen. -/
def step (server : Server) (c : Conn) : Event → Option Conn
  | .readable =>
    match server, c.phase with
    | .epoll, .waiting => some (enterRecv c.buf)
    | _, _ => none
  | .data chunk =>
    match c.phase with
    | .receiving len =>
      if 1 ≤ (chunk.length : ℤ) ∧ (chunk.length : ℤ) ≤ len then
        some (onData server (c.buf.received chunk))
      else none
    | _ => none
  | .wouldBlock =>
    match server, c.phase with
    | .epoll, .receiving _ => some ⟨c.buf, .waiting⟩
    | _, _ => none
  | .failed =>
    match c.phase with
    | .closed _ => none
    | _ => some ⟨c.buf, .closed .lost⟩
  | .replied =>
    match server, c.phase with
    | .epoll, .replying => some ⟨c.buf, .waiting⟩
    | .uring, .replying => some (submitRecv c.buf)
    | _, _ => none

/-- `step` as a transition relation. -/
def Step (server : Server) (c : Conn) (e : Event) (c' : Conn) : Prop := step server c e = some c'

/-- A new connection; `char buf[512]` of the simple server is not initialised. -/
def start (server : Server) (memory : LineBuffer) : Conn :=
  match server with
  | .epoll => ⟨.new memory, .waiting⟩
  | .uring | .simple => submitRecv (.new memory)

/-! ## The operations on a buffer that is in range -/

namespace Buffer

/-- The array and its length are those of a `LineBuffer`. -/
def Holds (r : Buffer) (b : LineBuffer) : Prop := r.inbuf = b.data ∧ r.inlen = b.len

variable {r : Buffer} {b : LineBuffer}

lemma Holds.toNat_inlen (h : r.Holds b) : r.inlen.toNat = b.len := by rw [h.2]; rfl

lemma Holds.valid_eq (h : r.Holds b) : r.valid = b.valid := by
  rw [valid, h.toNat_inlen, h.1]
  rfl

lemma Holds.inlen_le (h : r.Holds b) : 0 ≤ r.inlen ∧ r.inlen ≤ 511 := by
  have := b.len_le
  rw [h.2]
  omega

/-- The bytes of a `recv` that returns at most what it was asked for fit. -/
lemma Holds.received (h : r.Holds b) {chunk : Bytes} (hpos : 1 ≤ (chunk.length : ℤ))
    (hle : (chunk.length : ℤ) ≤ r.room) : ∃ b', b.recv chunk = some b' ∧
      (r.received chunk).Holds b' := by
  have hlen := h.2
  have hfit : 0 < chunk.length ∧ chunk.length ≤ b.room := by
    rw [room] at hle
    rw [LineBuffer.room]
    omega
  rw [LineBuffer.recv, dif_pos hfit]
  refine ⟨_, rfl, ?_, ?_⟩
  · show r.valid ++ chunk ++ r.inbuf.drop _ = b.data.take b.len ++ chunk ++ b.data.drop _
    rw [h.valid_eq, h.toNat_inlen, h.1]
    rfl
  · show r.inlen + chunk.length = ((b.len + chunk.length : ℕ) : ℤ)
    rw [hlen, Nat.cast_add]

/-- The zero byte after the received bytes. -/
lemma Holds.storeZero_inlen (h : r.Holds b) : (r.storeZero r.inlen).Holds b.terminate := by
  refine ⟨?_, h.2⟩
  show r.inbuf.set r.inlen.toNat 0 = b.data.set b.len 0
  rw [h.toNat_inlen, h.1]

/-- A line is taken out as `LineBuffer.takeLine` takes it. -/
lemma Holds.consume (h : r.Holds b) {nl : ℕ}
    (hnl : r.valid.findIdx? (· = newline) = some nl) :
    ∃ line b', b.takeLine = some (line, b') ∧ (r.consume nl).Holds b' := by
  have hlt : nl < b.len := by
    rw [← b.length_valid, ← h.valid_eq]
    exact (List.findIdx?_eq_some_iff_getElem.mp hnl).1
  have hlen := h.2
  rw [h.valid_eq] at hnl
  rw [LineBuffer.takeLine, hnl]
  refine ⟨_, _, rfl, ?_⟩
  have hrest : r.inlen - (nl + 1) = ((b.len - (nl + 1) : ℕ) : ℤ) := by omega
  have hset : r.inbuf.set (nl : ℤ).toNat 0 = b.data.set nl 0 := by rw [h.1]; rfl
  rw [Buffer.consume, slide]
  by_cases hpos : (r.storeZero nl).inlen - (nl + 1) > 0
  · rw [if_pos hpos]
    refine ⟨?_, hrest⟩
    show ((r.inbuf.set (nl : ℤ).toNat 0).drop (nl + 1)).take (r.inlen - (nl + 1)).toNat ++
      (r.inbuf.set (nl : ℤ).toNat 0).drop (r.inlen - (nl + 1)).toNat = _
    rw [hset, hrest]
    rfl
  · -- nothing is left, and nothing is moved
    rw [if_neg hpos]
    refine ⟨?_, hrest⟩
    have hzero : b.len - (nl + 1) = 0 := by
      have : ¬ r.inlen - (nl + 1) > 0 := hpos
      omega
    show r.inbuf.set (nl : ℤ).toNat 0 =
      ((b.data.set nl 0).drop (nl + 1)).take (b.len - (nl + 1)) ++
        (b.data.set nl 0).drop (b.len - (nl + 1))
    rw [hset, hzero]
    rfl

/-- At least the newline has gone. -/
lemma inlen_consume (r : Buffer) (nl : ℕ) : (r.consume nl).inlen = r.inlen - (nl + 1) := by
  rw [Buffer.consume, slide]
  split <;> rfl

/-- All accesses made so far were inside the array. -/
def Safe (r : Buffer) : Prop := ∀ a ∈ r.accesses, a.Inside

lemma Safe.access (h : r.Safe) {a : Access} (ha : a.Inside) : (r.access a).Safe := by
  intro a' ha'
  rcases List.mem_append.mp ha' with ha' | ha'
  · exact h a' ha'
  · rw [List.mem_singleton.mp ha']
    exact ha

lemma Safe.consume (h : r.Safe) {nl : ℕ} (hnl : (nl : ℤ) < r.inlen) (hlen : r.inlen ≤ 511) :
    (r.consume nl).Safe := by
  have hstore : (r.storeZero nl).Safe := h.access (a := .store nl) ⟨by omega, by omega⟩
  have hinlen : (r.storeZero nl).inlen = r.inlen := rfl
  rw [Buffer.consume, slide]
  split
  · exact hstore.access ⟨by omega, by omega, by omega⟩
  · exact hstore

end Buffer

/-! ## The invariant -/

/-- What the phase says about the buffer. -/
def PhaseOk (r : Buffer) : Phase → Prop
  | .waiting | .replying => r.inlen ≤ 510
  | .receiving len => len = r.room ∧ r.inlen ≤ 510
  | .closed .overLong => r.inlen = 511 ∧ newline ∉ r.valid
  | .closed .lost => True

/-- The invariant of a connection. -/
structure Inv (c : Conn) : Prop where
  holds : ∃ b, c.buf.Holds b
  safe : c.buf.Safe
  phase : PhaseOk c.buf c.phase

/-- A `recv` issued with room left is inside the array. -/
lemma inv_submitRecv {r : Buffer} (h : ∃ b, r.Holds b) (hsafe : r.Safe) (hlen : r.inlen ≤ 510) :
    Inv (submitRecv r) := by
  obtain ⟨b, hb⟩ := h
  have hrange := hb.inlen_le
  have hroom : r.room = 512 - r.inlen - 1 := rfl
  exact ⟨⟨b, hb⟩, hsafe.access ⟨by omega, by omega, by omega⟩, rfl, hlen⟩

/-- A connection is closed when there is no room for more and no newline was found. -/
lemma inv_overLong {r : Buffer} (h : ∃ b, r.Holds b) (hsafe : r.Safe) (hlen : 511 ≤ r.inlen)
    (hnl : newline ∉ r.valid) : Inv ⟨r, .closed .overLong⟩ := by
  obtain ⟨b, hb⟩ := h
  exact ⟨⟨b, hb⟩, hsafe, le_antisymm hb.inlen_le.2 hlen, hnl⟩

/-- The buffer after a line has been taken out has room again. -/
lemma consumed {r : Buffer} (h : ∃ b, r.Holds b) (hsafe : r.Safe) {nl : ℕ}
    (hnl : r.valid.findIdx? (· = newline) = some nl) :
    (∃ b, (r.consume nl).Holds b) ∧ (r.consume nl).Safe ∧ (r.consume nl).inlen ≤ 510 := by
  obtain ⟨b, hb⟩ := h
  obtain ⟨line, b', -, hb'⟩ := hb.consume hnl
  have hlt := (List.findIdx?_eq_some_iff_getElem.mp hnl).1
  rw [hb.valid_eq, b.length_valid] at hlt
  have hlen := hb.2
  have hrange := hb.inlen_le
  refine ⟨⟨b', hb'⟩, hsafe.consume (by omega) hrange.2, ?_⟩
  rw [Buffer.inlen_consume]
  omega

/-- The search for a newline, over a buffer in range. -/
lemma safe_scan {r : Buffer} (h : ∃ b, r.Holds b) (hsafe : r.Safe) :
    (r.access (.scan r.inlen)).Safe := by
  obtain ⟨b, hb⟩ := h
  have hrange := hb.inlen_le
  exact hsafe.access ⟨by omega, by omega⟩

/-- No newline was found, and a full buffer closes the connection. -/
lemma inv_notFound {r : Buffer} (h : ∃ b, r.Holds b) (hsafe : r.Safe) (hnl : newline ∉ r.valid) :
    Inv (if r.inlen ≥ 512 - 1 then ⟨r, .closed .overLong⟩ else submitRecv r) := by
  split
  · exact inv_overLong h hsafe (by omega) hnl
  · exact inv_submitRecv h hsafe (by omega)

/-- The received bytes are handled. -/
lemma inv_onData (server : Server) {r : Buffer} (h : ∃ b, r.Holds b) (hsafe : r.Safe) :
    Inv (onData server r) := by
  cases server with
  | epoll =>
    have hscan := safe_scan h hsafe
    simp only [onData, Buffer.findNewline]
    rcases hnl : r.valid.findIdx? (· = newline) with _ | nl
    · have hroom : (r.access (.scan r.inlen)).room = 512 - r.inlen - 1 := rfl
      simp only [enterRecv]
      split
      · exact inv_overLong h hscan (show 511 ≤ r.inlen by omega)
          (Lib.findIdx?_eq_none_iff_not_mem.mp hnl)
      · exact inv_submitRecv h hscan (show r.inlen ≤ 510 by omega)
    · obtain ⟨hholds', hsafe', hlen⟩ := consumed (r := r.access (.scan r.inlen)) h hscan hnl
      exact ⟨hholds', hsafe', hlen⟩
  | uring =>
    have hscan := safe_scan h hsafe
    simp only [onData, Buffer.findNewline]
    rcases hnl : r.valid.findIdx? (· = newline) with _ | nl
    · exact inv_notFound h hscan (Lib.findIdx?_eq_none_iff_not_mem.mp hnl)
    · obtain ⟨hholds', hsafe', hlen⟩ := consumed (r := r.access (.scan r.inlen)) h hscan hnl
      exact ⟨hholds', hsafe', hlen⟩
  | simple =>
    -- the zero byte after the received bytes is written before the search
    obtain ⟨b, hb⟩ := h
    have hrange := hb.inlen_le
    have hzero : (r.storeZero r.inlen).Safe :=
      hsafe.access (a := .store r.inlen) ⟨by omega, by omega⟩
    have hholds : ∃ b, (r.storeZero r.inlen).Holds b := ⟨_, hb.storeZero_inlen⟩
    have hscan := safe_scan hholds hzero
    simp only [onData, Buffer.findNewline]
    rcases hnl : (r.storeZero r.inlen).valid.findIdx? (· = newline) with _ | nl
    · exact inv_notFound hholds hscan (Lib.findIdx?_eq_none_iff_not_mem.mp hnl)
    · obtain ⟨hholds', hsafe', hlen⟩ :=
        consumed (r := (r.storeZero r.inlen).access (.scan r.inlen)) hholds hscan hnl
      exact inv_submitRecv hholds' hsafe' hlen

lemma inv_start (server : Server) (memory : LineBuffer) : Inv (start server memory) := by
  have hnew : ∃ b, (Buffer.new memory).Holds b := ⟨memory.clear, rfl, rfl⟩
  have hsafe : (Buffer.new memory).Safe := fun a ha => absurd ha List.not_mem_nil
  have hlen : (Buffer.new memory).inlen ≤ 510 := by show (0 : ℤ) ≤ 510; norm_num
  cases server with
  | epoll => exact ⟨hnew, hsafe, hlen⟩
  | uring => exact inv_submitRecv hnew hsafe hlen
  | simple => exact inv_submitRecv hnew hsafe hlen

/-- **Every event keeps the invariant.** -/
lemma inv_step {server : Server} {c c' : Conn} {e : Event} (h : Inv c)
    (hs : Step server c e c') : Inv c' := by
  have hphase := h.phase
  cases e with
  | readable =>
    simp only [Step, step] at hs
    split at hs
    · rename_i hpc
      obtain rfl := Option.some.inj hs
      rw [hpc] at hphase
      -- a connection that waits has room for a byte and the NUL
      have hroom : c.buf.room = 512 - c.buf.inlen - 1 := rfl
      have hlen : c.buf.inlen ≤ 510 := hphase
      rw [enterRecv, if_neg (by omega)]
      exact inv_submitRecv h.holds h.safe hlen
    · exact absurd hs (by simp)
  | data chunk =>
    simp only [Step, step] at hs
    split at hs
    · rename_i len hpc
      rw [hpc] at hphase
      split at hs
      · rename_i hlen
        obtain rfl := Option.some.inj hs
        obtain ⟨b, hb⟩ := h.holds
        obtain ⟨hroom, -⟩ : len = c.buf.room ∧ c.buf.inlen ≤ 510 := hphase
        obtain ⟨b', -, hb'⟩ := hb.received hlen.1 (hroom ▸ hlen.2)
        exact inv_onData server ⟨b', hb'⟩ h.safe
      · exact absurd hs (by simp)
    · exact absurd hs (by simp)
  | wouldBlock =>
    simp only [Step, step] at hs
    split at hs
    · rename_i hpc
      obtain rfl := Option.some.inj hs
      rw [hpc] at hphase
      exact ⟨h.holds, h.safe, hphase.2⟩
    · exact absurd hs (by simp)
  | failed =>
    simp only [Step, step] at hs
    split at hs
    · exact absurd hs (by simp)
    · obtain rfl := Option.some.inj hs
      exact ⟨h.holds, h.safe, trivial⟩
  | replied =>
    simp only [Step, step] at hs
    split at hs
    · rename_i hpc
      obtain rfl := Option.some.inj hs
      rw [hpc] at hphase
      exact ⟨h.holds, h.safe, hphase⟩
    · rename_i hpc
      obtain rfl := Option.some.inj hs
      rw [hpc] at hphase
      exact inv_submitRecv h.holds h.safe hphase
    · exact absurd hs (by simp)

/-- **The receive paths stay inside their buffers.**  Along every run of each server, the
buffered length stays in `0 .. 511`, every access is inside the 512 bytes, every `recv` asks
for at least one byte, and a connection that was closed for an over-long line has 511
buffered bytes without a newline. -/
theorem receive_inside (server : Server) (memory : LineBuffer) (es : List Event) (c : Conn)
    (hrun : Run (Step server) (start server memory) es c) :
    0 ≤ c.buf.inlen ∧ c.buf.inlen ≤ 511 ∧ (∀ a ∈ c.buf.accesses, a.Inside) ∧
      (c.phase = .closed .overLong →
        c.buf.inlen = 511 ∧ c.buf.valid.length = 511 ∧ newline ∉ c.buf.valid) := by
  have h : Inv c := hrun.invariant (inv_start server memory) fun _ _ _ hI hs => inv_step hI hs
  obtain ⟨b, hb⟩ := h.holds
  refine ⟨hb.inlen_le.1, hb.inlen_le.2, h.safe, ?_⟩
  intro hclosed
  have hphase := h.phase
  rw [hclosed] at hphase
  obtain ⟨hlen, hnl⟩ : c.buf.inlen = 511 ∧ newline ∉ c.buf.valid := hphase
  have hb2 := hb.2
  refine ⟨hlen, ?_, hnl⟩
  rw [hb.valid_eq, b.length_valid]
  omega

/-- A line of 511 bytes arrives in two pieces. -/
def longLine : List Event := [.data (List.replicate 500 65), .data (List.replicate 11 65)]

/-- The simple server after `longLine`. -/
def afterLongLine : Conn :=
  (longLine.foldlM (step .simple) (start .simple .empty)).get (by decide +kernel)

/-- The connection has been closed, and its buffer is full of `A`s. -/
theorem receive_inside_longLine :
    afterLongLine.phase = .closed .overLong ∧ afterLongLine.buf.valid.length = 511 ∧
      newline ∉ afterLongLine.buf.valid := by
  have hclosed : afterLongLine.phase = .closed .overLong := by decide +kernel
  exact ⟨hclosed, ((receive_inside .simple .empty longLine afterLongLine
    (Run.of_foldlM (Option.some_get _).symm)).2.2.2 hclosed).2⟩

end TickPlant.Receive
