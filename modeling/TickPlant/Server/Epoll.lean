/-
# The epoll server

A connection of `EpollQueryServer::serve_loop`.  The handling of one event is a sequence of
system calls: while the connection is `READING`, `recv` is called until a line is complete
or the socket has no more bytes; while it is `WRITING`, `send` is called until the reply is
out or the socket takes no more.  A step is one event or one answer of the kernel to such a
call, and the phase says which call the loop is waiting for.

`simulates` shows that every run is a run of the specification `Dialogue`.
-/
import TickPlant.Server.Channel

namespace TickPlant.Epoll

open Lib

variable {E : Type} {sv : Service E}

/-- `Conn::State`. -/
inductive ConnState
  | reading
  | writing
deriving DecidableEq, Repr

/-- Where the event loop stands with this connection. -/
inductive Phase
  /-- In `epoll_wait`, or with other connections. -/
  | wait
  /-- Before a `recv`; the event also reported `EPOLLOUT`. -/
  | recv (writable : Bool)
  /-- Before a `send`. -/
  | send
  /-- The connection is closed and erased. -/
  | closed
deriving DecidableEq, Repr

/-- The answer to a `recv`. -/
inductive RecvResult
  | data (chunk : Bytes)
  | wouldBlock
  | eof
  | error

/-- The answer to a `send`. -/
inductive SendResult
  | accepted (n : ℕ)
  | wouldBlock
  | error

/-- What may happen next on a connection. -/
inductive Label (E : Type)
  /-- `epoll_wait` reports an event: a hang-up or error, `EPOLLIN`, `EPOLLOUT`. -/
  | event (hangup readable writable : Bool)
  /-- The answer to a `recv`; `e` is what a reply would depend on at this moment. -/
  | recv (r : RecvResult) (e : E)
  /-- The answer to a `send`. -/
  | send (w : SendResult)

/-- `struct Conn`, with the phase of the event loop. -/
structure Conn (E : Type) where
  phase : Phase
  state : ConnState
  chan : Channel E

namespace Conn

/-- An accepted connection. -/
def new : Conn E := ⟨.wait, .reading, .new⟩

/-- `close_conn`. -/
def closeConn (c : Conn E) : Conn E := { c with phase := .closed }

/-- The top of the `recv` loop: a full buffer closes the connection. -/
def enterRecv (c : Conn E) (writable : Bool) : Conn E :=
  if c.chan.inbuf.room ≤ 0 then c.closeConn else { c with phase := .recv writable }

/-- After the `send` loop: a reply that is out returns the connection to reading. -/
def endSend (c : Conn E) : Conn E :=
  if c.chan.outpos ≥ c.chan.outbuf.length then
    { phase := .wait, state := .reading, chan := c.chan.clearOut }
  else { c with phase := .wait }

/-- The top of the `send` loop. -/
def enterSend (c : Conn E) : Conn E :=
  if c.chan.outpos < c.chan.outbuf.length then { c with phase := .send } else c.endSend

/-- The second half of the handling of an event. -/
def enterWriting (c : Conn E) (writable : Bool) : Conn E :=
  if c.state = .writing ∧ writable = true then c.enterSend else { c with phase := .wait }

@[simp] lemma log_enterRecv (c : Conn E) (writable : Bool) :
    (c.enterRecv writable).chan.log = c.chan.log := by
  rw [enterRecv]
  split <;> rfl

@[simp] lemma log_endSend (c : Conn E) : c.endSend.chan.log = c.chan.log := by
  rw [endSend]
  split <;> rfl

@[simp] lemma log_enterSend (c : Conn E) : c.enterSend.chan.log = c.chan.log := by
  rw [enterSend]
  split
  · rfl
  · exact log_endSend c

@[simp] lemma log_enterWriting (c : Conn E) (writable : Bool) :
    (c.enterWriting writable).chan.log = c.chan.log := by
  rw [enterWriting]
  split
  · exact log_enterSend c
  · rfl

end Conn

/-- One step of a connection; `none` when the label does not apply. -/
def step (sv : Service E) (c : Conn E) : Label E → Option (Conn E)
  | .event hangup readable writable =>
    match c.phase with
    | .wait =>
      if hangup then some c.closeConn
      else if c.state = .reading ∧ readable = true then some (c.enterRecv writable)
      else some (c.enterWriting writable)
    | _ => none
  | .recv r e =>
    match c.phase with
    | .recv writable =>
      match r with
      | .data chunk =>
        match c.chan.receive chunk with
        | none => none
        | some chan =>
          match chan.answer sv e with
          | none => some ({ c with chan := chan }.enterRecv writable)
          | some chan =>
            some ({ c with chan := chan, state := .writing }.enterWriting writable)
      | .wouldBlock => some (c.enterWriting writable)
      | .eof | .error => some c.closeConn
    | _ => none
  | .send w =>
    match c.phase with
    | .send =>
      match w with
      | .accepted n =>
        if n ≤ c.chan.unsent.length then some ({ c with chan := c.chan.accept n }.enterSend)
        else none
      | .wouldBlock => some c.endSend
      | .error => some c.closeConn
    | _ => none

/-- `step` as a transition relation. -/
def Step (sv : Service E) (c : Conn E) (l : Label E) (c' : Conn E) : Prop := step sv c l = some c'

/-- What one step does. -/
inductive Move (sv : Service E) (c : Conn E) : Label E → Conn E → Prop
  | hangup (readable writable : Bool) (hpc : c.phase = .wait) :
      Move sv c (.event true readable writable) c.closeConn
  | readable (writable : Bool) (hpc : c.phase = .wait) (hstate : c.state = .reading) :
      Move sv c (.event false true writable) (c.enterRecv writable)
  | notReadable (readable writable : Bool) (hpc : c.phase = .wait)
      (hread : ¬ (c.state = .reading ∧ readable = true)) :
      Move sv c (.event false readable writable) (c.enterWriting writable)
  /-- Bytes without a line: the loop goes round again. -/
  | noLine {chunk : Bytes} {e : E} {writable : Bool} {chan : Channel E}
      (hpc : c.phase = .recv writable) (hrecv : c.chan.receive chunk = some chan)
      (hans : chan.answer sv e = none) :
      Move sv c (.recv (.data chunk) e) ({ c with chan := chan }.enterRecv writable)
  | line {chunk : Bytes} {e : E} {writable : Bool} {chan chan' : Channel E}
      (hpc : c.phase = .recv writable) (hrecv : c.chan.receive chunk = some chan)
      (hans : chan.answer sv e = some chan') :
      Move sv c (.recv (.data chunk) e)
        ({ c with chan := chan', state := .writing }.enterWriting writable)
  | recvBlocked {e : E} {writable : Bool} (hpc : c.phase = .recv writable) :
      Move sv c (.recv .wouldBlock e) (c.enterWriting writable)
  | recvEnded {r : RecvResult} {e : E} {writable : Bool} (hpc : c.phase = .recv writable)
      (hr : r = .eof ∨ r = .error) : Move sv c (.recv r e) c.closeConn
  | sent {n : ℕ} (hpc : c.phase = .send) (hn : n ≤ c.chan.unsent.length) :
      Move sv c (.send (.accepted n)) ({ c with chan := c.chan.accept n }.enterSend)
  | sendBlocked (hpc : c.phase = .send) : Move sv c (.send .wouldBlock) c.endSend
  | sendFailed (hpc : c.phase = .send) : Move sv c (.send .error) c.closeConn

/-- Every step is one of the moves. -/
lemma move_of_step {sv : Service E} {c c' : Conn E} {l : Label E} (hs : Step sv c l c') :
    Move sv c l c' := by
  cases l with
  | event hangup readable writable =>
    simp only [Step, step] at hs
    split at hs
    · rename_i hpc
      split at hs
      · rename_i hhangup
        obtain rfl := Option.some.inj hs
        rw [hhangup]
        exact .hangup readable writable hpc
      · rename_i hopen
        rw [Bool.not_eq_true] at hopen
        split at hs
        · rename_i hread
          obtain rfl := Option.some.inj hs
          rw [hopen, hread.2]
          exact .readable writable hpc hread.1
        · rename_i hread
          obtain rfl := Option.some.inj hs
          rw [hopen]
          exact .notReadable readable writable hpc hread
    · exact absurd hs (by simp)
  | recv r e =>
    simp only [Step, step] at hs
    split at hs
    · rename_i writable hpc
      cases r with
      | data chunk =>
        dsimp only at hs
        split at hs
        · exact absurd hs (by simp)
        · rename_i chan hrecv
          split at hs
          · rename_i hans
            obtain rfl := Option.some.inj hs
            exact .noLine hpc hrecv hans
          · rename_i chan' hans
            obtain rfl := Option.some.inj hs
            exact .line hpc hrecv hans
      | wouldBlock =>
        obtain rfl := Option.some.inj hs
        exact .recvBlocked hpc
      | eof =>
        obtain rfl := Option.some.inj hs
        exact .recvEnded hpc (Or.inl rfl)
      | error =>
        obtain rfl := Option.some.inj hs
        exact .recvEnded hpc (Or.inr rfl)
    · exact absurd hs (by simp)
  | send w =>
    simp only [Step, step] at hs
    split at hs
    · rename_i hpc
      cases w with
      | accepted n =>
        dsimp only at hs
        split at hs
        · rename_i hn
          obtain rfl := Option.some.inj hs
          exact .sent hpc hn
        · exact absurd hs (by simp)
      | wouldBlock =>
        obtain rfl := Option.some.inj hs
        exact .sendBlocked hpc
      | error =>
        obtain rfl := Option.some.inj hs
        exact .sendFailed hpc
    · exact absurd hs (by simp)

/-! ## Refinement -/

/-- Whether the connection is closed. -/
def Conn.isClosed (c : Conn E) : Bool :=
  match c.phase with
  | .closed => true
  | _ => false

/-- Nothing is left of the last reply while the connection is reading. -/
structure Idle (c : Conn E) : Prop where
  reading : c.state = .reading → c.chan.unsent = []
  recv : ∀ writable, c.phase = .recv writable → c.state = .reading

/-- The connection represents the state of a dialogue. -/
def Sim (c : Conn E) (d : Dialogue E) : Prop := c.chan.Represents c.isClosed d ∧ Idle c

/-- The dialogue can follow to the connection `c`. -/
def Follows (sv : Service E) (d : Dialogue E) (c : Conn E) : Prop :=
  ∃ as d', Run (Dialogue.Step sv) d as d' ∧ Sim c d'

lemma Follows.trans {d d' : Dialogue E} {a : Deed E} {c : Conn E}
    (hs : Dialogue.Step sv d a d') (h : Follows sv d' c) : Follows sv d c := by
  obtain ⟨as, d'', hrun, hsim⟩ := h
  exact ⟨a :: as, d'', .cons hs hrun, hsim⟩

lemma follows_closeConn {c : Conn E} {d : Dialogue E} (h : c.chan.Represents false d)
    (hidle : c.state = .reading → c.chan.unsent = []) : Follows sv d c.closeConn := by
  obtain ⟨d', hs, h'⟩ := h.close sv
  exact ⟨_, d', .single hs, h', hidle, fun _ hpc => absurd hpc (by simp [Conn.closeConn])⟩

/-- The loop waits for events. -/
lemma follows_wait {c : Conn E} {d : Dialogue E} (h : c.chan.Represents false d)
    (hidle : c.state = .reading → c.chan.unsent = []) :
    Follows sv d { c with phase := .wait } :=
  ⟨[], d, .nil d, h, hidle, fun _ hpc => absurd hpc (by simp)⟩

lemma follows_enterRecv {c : Conn E} {d : Dialogue E} {writable : Bool}
    (h : c.chan.Represents false d) (hstate : c.state = .reading) (hidle : c.chan.unsent = []) :
    Follows sv d (c.enterRecv writable) := by
  rw [Conn.enterRecv]
  split
  · exact follows_closeConn h fun _ => hidle
  · exact ⟨[], d, .nil d, h, fun _ => hidle, fun _ _ => hstate⟩

lemma follows_endSend {c : Conn E} {d : Dialogue E} (h : c.chan.Represents false d)
    (hidle : c.state = .reading → c.chan.unsent = []) : Follows sv d c.endSend := by
  rw [Conn.endSend]
  split
  · rename_i hdone
    have hout : c.chan.unsent = [] := List.drop_eq_nil_of_le hdone
    exact ⟨[], d, .nil d, h.clearOut hout, fun _ => rfl, fun _ hpc => absurd hpc (by simp)⟩
  · exact follows_wait h hidle

lemma follows_enterSend {c : Conn E} {d : Dialogue E} (h : c.chan.Represents false d)
    (hidle : c.state = .reading → c.chan.unsent = []) : Follows sv d c.enterSend := by
  rw [Conn.enterSend]
  split
  · exact ⟨[], d, .nil d, h, hidle, fun _ hpc => absurd hpc (by simp)⟩
  · exact follows_endSend h hidle

lemma follows_enterWriting {c : Conn E} {d : Dialogue E} {writable : Bool}
    (h : c.chan.Represents false d) (hidle : c.state = .reading → c.chan.unsent = []) :
    Follows sv d (c.enterWriting writable) := by
  rw [Conn.enterWriting]
  split
  · exact follows_enterSend h hidle
  · exact follows_wait h hidle

/-- **One step of the connection is followed by the dialogue.** -/
lemma follows_step {c c' : Conn E} {d : Dialogue E} {l : Label E} (h : Sim c d)
    (hs : Step sv c l c') : Follows sv d c' := by
  obtain ⟨hrep, hidle⟩ := h
  rw [Conn.isClosed] at hrep
  cases move_of_step hs with
  | hangup readable writable hpc =>
    rw [hpc] at hrep
    exact follows_closeConn hrep hidle.reading
  | readable writable hpc hstate =>
    rw [hpc] at hrep
    exact follows_enterRecv hrep hstate (hidle.reading hstate)
  | notReadable readable writable hpc hread =>
    rw [hpc] at hrep
    exact follows_enterWriting hrep hidle.reading
  | @noLine chunk e writable chan hpc hrecv hans =>
    rw [hpc] at hrep
    have hstate := hidle.recv writable hpc
    have hout := hidle.reading hstate
    obtain ⟨d₁, hs₁, hrep₁⟩ := hrep.receive sv hout hrecv
    exact .trans hs₁ (follows_enterRecv (c := { c with chan := chan }) hrep₁ hstate
      ((Channel.unsent_receive hrecv).trans hout))
  | @line chunk e writable chan chan' hpc hrecv hans =>
    -- received and answered in one turn: two deeds of the dialogue
    rw [hpc] at hrep
    have hout := hidle.reading (hidle.recv writable hpc)
    obtain ⟨d₁, hs₁, hrep₁⟩ := hrep.receive sv hout hrecv
    obtain ⟨d₂, hs₂, hrep₂⟩ := hrep₁.answer ((Channel.unsent_receive hrecv).trans hout) hans
    exact .trans hs₁ (.trans hs₂ (follows_enterWriting
      (c := { c with chan := chan', state := .writing }) hrep₂ fun hr => absurd hr (by simp)))
  | recvBlocked hpc =>
    rw [hpc] at hrep
    exact follows_enterWriting hrep hidle.reading
  | recvEnded hpc hr =>
    rw [hpc] at hrep
    exact follows_closeConn hrep hidle.reading
  | @sent n hpc hn =>
    rw [hpc] at hrep
    obtain ⟨d₁, hs₁, hrep₁⟩ := hrep.accept sv hn
    refine .trans hs₁ (follows_enterSend (c := { c with chan := c.chan.accept n }) hrep₁ ?_)
    intro hr
    rw [Channel.unsent_accept, hidle.reading hr, List.drop_nil]
  | sendBlocked hpc =>
    rw [hpc] at hrep
    exact follows_endSend hrep hidle.reading
  | sendFailed hpc =>
    rw [hpc] at hrep
    exact follows_closeConn hrep hidle.reading

/-- **The epoll server refines the specification**: every run of a connection is a run of the
dialogue. -/
lemma simulates {ls : List (Label E)} {c : Conn E} (h : Run (Step sv) Conn.new ls c) :
    ∃ as d, Run (Dialogue.Step sv) Dialogue.init as d ∧ Sim c d :=
  h.simulate ⟨Channel.represents_new, fun _ => rfl, fun _ hpc => absurd hpc (by simp [Conn.new])⟩
    fun _ _ _ _ hsim hs => follows_step hsim hs

/-! ## The lines consumed -/

/-- The label reports neither a hang-up nor an error nor the end of the stream. -/
def Label.Benign : Label E → Prop
  | .event hangup _ _ => hangup = false
  | .recv r _ => r ≠ .eof ∧ r ≠ .error
  | .send w => w ≠ .error

/-- An open connection has room for more bytes; a connection that was closed by the server
has a full buffer without a newline. -/
def Healthy (c : Conn E) : Prop :=
  match c.phase with
  | .closed => 511 ≤ c.chan.inbuf.len ∧ newline ∉ c.chan.inbuf.valid
  | _ => c.chan.inbuf.len ≤ 510

/-- The invariant of the input side. -/
structure Input (c : Conn E) : Prop where
  absorbs : c.chan.Absorbs
  healthy : Healthy c

/-- The connection stays open, with the same input. -/
lemma Input.sameInput {c c' : Conn E} (h : Input c) (hopen : c.phase ≠ .closed)
    (hopen' : c'.phase ≠ .closed) (hbuf : c'.chan.inbuf = c.chan.inbuf)
    (hcalls : c'.chan.log.calls = c.chan.log.calls)
    (hchunks : c'.chan.log.chunks = c.chan.log.chunks) : Input c' := by
  have habs := h.absorbs
  have hheal := h.healthy
  refine ⟨?_, ?_⟩
  · rw [Channel.Absorbs, hbuf, hcalls, hchunks]
    exact habs
  · rw [Healthy] at hheal ⊢
    cases hp : c.phase <;> cases hp' : c'.phase <;> simp_all

lemma input_endSend {c : Conn E} (h : Input c) (hopen : c.phase ≠ .closed) :
    Input c.endSend := by
  rw [Conn.endSend]
  split
  · exact h.sameInput hopen (by simp) rfl rfl rfl
  · exact h.sameInput hopen (by simp) rfl rfl rfl

lemma input_enterSend {c : Conn E} (h : Input c) (hopen : c.phase ≠ .closed) :
    Input c.enterSend := by
  rw [Conn.enterSend]
  split
  · exact h.sameInput hopen (by simp) rfl rfl rfl
  · exact input_endSend h hopen

lemma input_enterWriting {c : Conn E} {writable : Bool} (h : Input c)
    (hopen : c.phase ≠ .closed) : Input (c.enterWriting writable) := by
  rw [Conn.enterWriting]
  split
  · exact input_enterSend h hopen
  · exact h.sameInput hopen (by simp) rfl rfl rfl

/-- The top of the `recv` loop closes the connection only when the buffer is full. -/
lemma input_enterRecv {c : Conn E} {writable : Bool} (habs : c.chan.Absorbs)
    (hfull : 511 ≤ c.chan.inbuf.len → newline ∉ c.chan.inbuf.valid) :
    Input (c.enterRecv writable) := by
  rw [Conn.enterRecv]
  split
  · rename_i hroom
    have hlen : 511 ≤ c.chan.inbuf.len := by rw [LineBuffer.room] at hroom; omega
    exact ⟨habs, hlen, hfull hlen⟩
  · rename_i hroom
    refine ⟨habs, ?_⟩
    show c.chan.inbuf.len ≤ 510
    rw [LineBuffer.room] at hroom
    omega

/-- **A step with a benign label keeps the invariant of the input side.** -/
lemma input_step {c c' : Conn E} {l : Label E} (h : Input c) (hs : Step sv c l c')
    (hl : l.Benign) : Input c' := by
  have habs := h.absorbs
  cases move_of_step hs with
  | hangup readable writable hpc => exact absurd hl (by simp [Label.Benign])
  | readable writable hpc hstate =>
    -- a connection that waits has room
    have hheal := h.healthy
    rw [Healthy, hpc] at hheal
    exact input_enterRecv habs fun hfull => absurd hfull (by omega)
  | notReadable readable writable hpc hread => exact input_enterWriting h (by simp [hpc])
  | @noLine chunk e writable chan hpc hrecv hans =>
    -- the loop goes round again; with no line in it the buffer may be full by now
    exact input_enterRecv (c := { c with chan := chan }) (habs.receive_none hrecv hans)
      fun _ => splitLine_eq_none.mp (Channel.answer_eq_none hans)
  | @line chunk e writable chan chan' hpc hrecv hans =>
    have hin : Input { c with chan := chan', state := .writing } := by
      refine ⟨habs.receive_some hrecv hans, ?_⟩
      rw [Healthy, hpc]
      exact Channel.len_answer hans
    exact input_enterWriting hin (by simp [hpc])
  | recvBlocked hpc => exact input_enterWriting h (by simp [hpc])
  | recvEnded hpc hr =>
    rcases hr with rfl | rfl
    · exact absurd rfl hl.1
    · exact absurd rfl hl.2
  | @sent n hpc hn =>
    have hopen : c.phase ≠ .closed := by simp [hpc]
    exact input_enterSend (c := { c with chan := c.chan.accept n })
      (h.sameInput hopen hopen rfl rfl rfl) hopen
  | sendBlocked hpc => exact input_endSend h (by simp [hpc])
  | sendFailed hpc => exact absurd rfl hl

/-- A line is consumed only when nothing is left of the reply before. -/
lemma unsent_of_call {c c' : Conn E} {l : Label E} (h : Idle c) (hs : Step sv c l c')
    (hcall : c'.chan.log.calls ≠ c.chan.log.calls) : c.chan.unsent = [] := by
  cases move_of_step hs with
  | noLine hpc => exact h.reading (h.recv _ hpc)
  | line hpc => exact h.reading (h.recv _ hpc)
  | hangup | recvEnded | sendFailed => exact absurd rfl hcall
  | readable => exact absurd (by rw [Conn.log_enterRecv]) hcall
  | notReadable | recvBlocked => exact absurd (by rw [Conn.log_enterWriting]) hcall
  | sent => exact absurd (by rw [Conn.log_enterSend]; rfl) hcall
  | sendBlocked => exact absurd (by rw [Conn.log_endSend]) hcall

end TickPlant.Epoll
