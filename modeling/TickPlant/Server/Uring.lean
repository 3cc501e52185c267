/-
# One connection of the io_uring server

`IoUringQueryServer::serve_loop` keeps one operation in flight for each connection: a
`RECV` until a line is complete, then `SEND`s until the reply is out.  A step of a
connection is the completion of its operation; what the loop then does with the connection
(`Next`) is to close it or to submit the next operation.

`simulates` shows that every run is a run of the specification `Dialogue`.  The loop over
all connections is the subject of `TickPlant.Server.UringLoop`.
-/
import TickPlant.Server.Channel

namespace TickPlant.Uring

open Lib

variable {E : Type} {sv : Service E}

/-- A descriptor, an `int`. -/
abbrev Fd := BitVec 32

/-- The operations submitted to the ring. -/
inductive Op
  | accept
  | recv
  | send
deriving DecidableEq, Repr

/-- What the loop does with a connection after one of its completions. -/
inductive Next (E : Type)
  | close (c : Channel E)
  | submitRecv (c : Channel E)
  | submitSend (c : Channel E)

/-- The result of a completed operation. -/
inductive Result (E : Type)
  /-- An error, or the end of the stream (`res < 0` for an accept, `res <= 0` otherwise). -/
  | failed
  /-- An accepted connection. -/
  | accepted (fd : Fd)
  /-- Received bytes; `e` is what a reply would depend on at the moment of the completion. -/
  | data (chunk : Bytes) (e : E)
  /-- The number of bytes sent. -/
  | sent (n : ℕ)

/-- The handling of a `RECV` completion. -/
def onRecv (sv : Service E) (c : Channel E) : Result E → Option (Next E)
  | .failed => some (.close c)
  | .data chunk e =>
    match c.receive chunk with
    | none => none
    | some c =>
      match c.answer sv e with
      | none => some (if c.inbuf.len ≥ 512 - 1 then .close c else .submitRecv c)
      | some c => some (.submitSend c)
  | _ => none

/-- The handling of a `SEND` completion. -/
def onSend (c : Channel E) : Result E → Option (Next E)
  | .failed => some (.close c)
  | .sent n =>
    if 0 < n ∧ n ≤ c.unsent.length then
      let c := c.accept n
      some (if c.outpos < c.outbuf.length then .submitSend c else .submitRecv c.clearOut)
    else none
  | _ => none

/-- A connection with its operation in flight; `none` once it is closed. -/
structure Conn (E : Type) where
  chan : Channel E
  op : Option Op

/-- An accepted connection. -/
def Conn.new : Conn E := ⟨.new, some .recv⟩

/-- The connection after a completion has been handled. -/
def Next.conn : Next E → Conn E
  | .close c => ⟨c, none⟩
  | .submitRecv c => ⟨c, some .recv⟩
  | .submitSend c => ⟨c, some .send⟩

/-- The completion of the operation in flight. -/
def Conn.step (sv : Service E) (c : Conn E) (r : Result E) : Option (Conn E) :=
  match c.op with
  | some .recv => (onRecv sv c.chan r).map Next.conn
  | some .send => (onSend c.chan r).map Next.conn
  | _ => none

/-- `Conn.step` as a transition relation. -/
def Conn.Step (sv : Service E) (c : Conn E) (r : Result E) (c' : Conn E) : Prop :=
  c.step sv r = some c'

/-- What the completion of the operation in flight does. -/
inductive Conn.Move (sv : Service E) (c : Conn E) : Result E → Conn E → Prop
  | failed (hop : c.op = some .recv ∨ c.op = some .send) :
      Conn.Move sv c .failed (Next.close c.chan).conn
  /-- The buffer is full and holds no line. -/
  | full {chunk : Bytes} {e : E} {chan : Channel E} (hop : c.op = some .recv)
      (hrecv : c.chan.receive chunk = some chan) (hans : chan.answer sv e = none)
      (hfull : 511 ≤ chan.inbuf.len) : Conn.Move sv c (.data chunk e) (Next.close chan).conn
  | noLine {chunk : Bytes} {e : E} {chan : Channel E} (hop : c.op = some .recv)
      (hrecv : c.chan.receive chunk = some chan) (hans : chan.answer sv e = none)
      (hroom : chan.inbuf.len ≤ 510) : Conn.Move sv c (.data chunk e) (Next.submitRecv chan).conn
  | line {chunk : Bytes} {e : E} {chan chan' : Channel E} (hop : c.op = some .recv)
      (hrecv : c.chan.receive chunk = some chan) (hans : chan.answer sv e = some chan') :
      Conn.Move sv c (.data chunk e) (Next.submitSend chan').conn
  | sentPart {n : ℕ} (hop : c.op = some .send) (hn : n ≤ c.chan.unsent.length) :
      Conn.Move sv c (.sent n) (Next.submitSend (c.chan.accept n)).conn
  | sentAll {n : ℕ} (hop : c.op = some .send) (hn : n ≤ c.chan.unsent.length)
      (hout : (c.chan.accept n).unsent = []) :
      Conn.Move sv c (.sent n) (Next.submitRecv (c.chan.accept n).clearOut).conn

/-- Every completion is one of the moves. -/
lemma Conn.move_of_step {sv : Service E} {c c' : Conn E} {r : Result E}
    (hs : Conn.Step sv c r c') : Conn.Move sv c r c' := by
  rw [Conn.Step, Conn.step] at hs
  split at hs
  · rename_i hop
    obtain ⟨next, hnext, rfl⟩ := Option.map_eq_some_iff.mp hs
    cases r with
    | failed =>
      obtain rfl := Option.some.inj hnext
      exact .failed (Or.inl hop)
    | data chunk e =>
      simp only [onRecv] at hnext
      split at hnext
      · exact absurd hnext (by simp)
      · rename_i chan hrecv
        split at hnext
        · rename_i hans
          obtain rfl := Option.some.inj hnext
          split
          · rename_i hfull
            exact .full hop hrecv hans hfull
          · rename_i hroom
            exact .noLine hop hrecv hans (by omega)
        · rename_i chan' hans
          obtain rfl := Option.some.inj hnext
          exact .line hop hrecv hans
    | accepted fd => exact absurd hnext (by simp [onRecv])
    | sent n => exact absurd hnext (by simp [onRecv])
  · rename_i hop
    obtain ⟨next, hnext, rfl⟩ := Option.map_eq_some_iff.mp hs
    cases r with
    | failed =>
      obtain rfl := Option.some.inj hnext
      exact .failed (Or.inr hop)
    | sent n =>
      simp only [onSend] at hnext
      split at hnext
      · rename_i hn
        obtain rfl := Option.some.inj hnext
        split
        · exact .sentPart hop hn.2
        · rename_i hdone
          exact .sentAll hop hn.2 (List.drop_eq_nil_of_le (not_lt.mp hdone))
      · exact absurd hnext (by simp)
    | accepted fd => exact absurd hnext (by simp [onSend])
    | data chunk e => exact absurd hnext (by simp [onSend])
  · exact absurd hs (by simp)

/-! ## Refinement -/

/-- Nothing is left of the last reply while a receive is in flight. -/
def Idle (c : Conn E) : Prop := c.op = some .recv → c.chan.unsent = []

/-- The connection represents the state of a dialogue. -/
def Sim (c : Conn E) (d : Dialogue E) : Prop := c.chan.Represents c.op.isNone d ∧ Idle c

/-- The dialogue can follow to the connection `c`. -/
def Follows (sv : Service E) (d : Dialogue E) (c : Conn E) : Prop :=
  ∃ as d', Run (Dialogue.Step sv) d as d' ∧ Sim c d'

lemma Follows.trans {d d' : Dialogue E} {a : Deed E} {c : Conn E}
    (hs : Dialogue.Step sv d a d') (h : Follows sv d' c) : Follows sv d c := by
  obtain ⟨as, d'', hrun, hsim⟩ := h
  exact ⟨a :: as, d'', .cons hs hrun, hsim⟩

lemma follows_close {c : Channel E} {d : Dialogue E} (h : c.Represents false d) :
    Follows sv d (Next.close c).conn := by
  obtain ⟨d', hs, h'⟩ := h.close sv
  exact ⟨_, d', .single hs, h', fun hop => absurd hop (by simp [Next.conn])⟩

lemma follows_submitRecv {c : Channel E} {d : Dialogue E} (h : c.Represents false d)
    (hidle : c.unsent = []) : Follows sv d (Next.submitRecv c).conn :=
  ⟨[], d, .nil d, h, fun _ => hidle⟩

lemma follows_submitSend {c : Channel E} {d : Dialogue E} (h : c.Represents false d) :
    Follows sv d (Next.submitSend c).conn :=
  ⟨[], d, .nil d, h, fun hop => absurd hop (by simp [Next.conn])⟩

/-- **One completion is followed by the dialogue.** -/
lemma follows_step {c c' : Conn E} {d : Dialogue E} {r : Result E} (h : Sim c d)
    (hs : Conn.Step sv c r c') : Follows sv d c' := by
  obtain ⟨hrep, hidle⟩ := h
  cases Conn.move_of_step hs with
  | failed hop =>
    rcases hop with hop | hop
    · rw [hop] at hrep
      exact follows_close hrep
    · rw [hop] at hrep
      exact follows_close hrep
  | full hop hrecv hans hfull =>
    rw [hop] at hrep
    obtain ⟨d₁, hs₁, h₁⟩ := hrep.receive sv (hidle hop) hrecv
    exact .trans hs₁ (follows_close h₁)
  | noLine hop hrecv hans hroom =>
    rw [hop] at hrep
    obtain ⟨d₁, hs₁, h₁⟩ := hrep.receive sv (hidle hop) hrecv
    exact .trans hs₁ (follows_submitRecv h₁ ((Channel.unsent_receive hrecv).trans (hidle hop)))
  | line hop hrecv hans =>
    -- received and answered in one completion: two deeds of the dialogue
    rw [hop] at hrep
    obtain ⟨d₁, hs₁, h₁⟩ := hrep.receive sv (hidle hop) hrecv
    obtain ⟨d₂, hs₂, h₂⟩ := h₁.answer ((Channel.unsent_receive hrecv).trans (hidle hop)) hans
    exact .trans hs₁ (.trans hs₂ (follows_submitSend h₂))
  | sentPart hop hn =>
    rw [hop] at hrep
    obtain ⟨d₁, hs₁, h₁⟩ := hrep.accept sv hn
    exact .trans hs₁ (follows_submitSend h₁)
  | sentAll hop hn hout =>
    -- the reply is out, so a receive may be submitted
    rw [hop] at hrep
    obtain ⟨d₁, hs₁, h₁⟩ := hrep.accept sv hn
    exact .trans hs₁ (follows_submitRecv (h₁.clearOut hout) rfl)

/-- **The io_uring server refines the specification**: every run of a connection is a run of
the dialogue. -/
lemma simulates {rs : List (Result E)} {c : Conn E} (h : Run (Conn.Step sv) Conn.new rs c) :
    ∃ as d, Run (Dialogue.Step sv) Dialogue.init as d ∧ Sim c d :=
  h.simulate ⟨Channel.represents_new, fun _ => rfl⟩ fun _ _ _ _ hsim hs => follows_step hsim hs

/-! ## The lines consumed -/

/-- An open connection has room for more bytes; a connection that was closed by the server
has a full buffer without a newline. -/
def Healthy (c : Conn E) : Prop :=
  match c.op with
  | none => 511 ≤ c.chan.inbuf.len ∧ newline ∉ c.chan.inbuf.valid
  | some _ => c.chan.inbuf.len ≤ 510

/-- The invariant of the input side. -/
structure Input (c : Conn E) : Prop where
  absorbs : c.chan.Absorbs
  healthy : Healthy c

/-- **A successful completion keeps the invariant of the input side.** -/
lemma input_step {c c' : Conn E} {r : Result E} (h : Input c) (hs : Conn.Step sv c r c')
    (hr : r ≠ .failed) : Input c' := by
  have habs := h.absorbs
  have hheal := h.healthy
  cases Conn.move_of_step hs with
  | failed hop => exact absurd rfl hr
  | full hop hrecv hans hfull =>
    exact ⟨habs.receive_none hrecv hans, hfull, splitLine_eq_none.mp (Channel.answer_eq_none hans)⟩
  | noLine hop hrecv hans hroom => exact ⟨habs.receive_none hrecv hans, hroom⟩
  | line hop hrecv hans => exact ⟨habs.receive_some hrecv hans, Channel.len_answer hans⟩
  | sentPart hop hn =>
    rw [Healthy, hop] at hheal
    exact ⟨habs.accept _, hheal⟩
  | sentAll hop hn hout =>
    rw [Healthy, hop] at hheal
    exact ⟨(habs.accept _).clearOut, hheal⟩

/-- A line is consumed only when nothing is left of the reply before. -/
lemma unsent_of_call {c c' : Conn E} {r : Result E} (h : Idle c) (hs : Conn.Step sv c r c')
    (hcall : c'.chan.log.calls ≠ c.chan.log.calls) : c.chan.unsent = [] := by
  cases Conn.move_of_step hs with
  | failed => exact absurd rfl hcall
  | full hop => exact h hop
  | noLine hop => exact h hop
  | line hop => exact h hop
  | sentPart => exact absurd rfl hcall
  | sentAll => exact absurd rfl hcall

end TickPlant.Uring
