/-
# The tick logger

`TickLogger` streams one line of text for each tick to a database.  `log_bbo` formats a line
and appends it to `pending_` under a lock; the writer thread swaps `pending_` for its empty
batch, makes sure that it has a connection and sends the whole batch, possibly in several
pieces.  When the connection cannot be made the batch is dropped, and when a send fails the
connection is closed and the rest of the batch is dropped.

The model is the interleaving of the calls of `log_bbo`, the steps of the writer thread and
those of the destructor.  What happens under the lock is one step: the lock keeps `pending_`
as it is, and `running_` is read at most once in each such section.  The answers of the
socket (did `connect` succeed, how much did `send` accept) and of the clock (did the wait
time out) are part of the step's label.
-/
import TickPlant.Engine.Store
import TickPlant.Lib.Run

namespace TickPlant.TickLogger

open Lib

/-! ## Lines -/

/-- The text that `log_bbo` formats; `fmtG` is the conversion `%g`, and `%.*s` stops at a
zero byte. -/
def ilpText (fmtG : ℚ → Bytes) (t : BboTick) : Bytes :=
  bytes "order_book,exchange=" ++ cString t.exchange ++ bytes ",symbol=" ++ cString t.symbol ++
    bytes " bid=" ++ fmtG t.bidPx ++ bytes ",ask=" ++ fmtG t.askPx ++
    bytes ",mid=" ++ fmtG t.midPx ++ bytes ",spread_bps=" ++ fmtG t.spreadBps ++
    bytes " " ++ toText t.timestampNs ++ bytes "\n"

/-- The line that `log_bbo` enqueues, if the text fits in its buffer of 256 bytes. -/
def ilpLine (fmtG : ℚ → Bytes) (t : BboTick) : Option Bytes :=
  let n := (ilpText fmtG t).length
  if n = 0 ∨ n ≥ 256 then none else some (ilpText fmtG t)

/-! ## The state -/

/-- A connection: the lines of the batches whose sending began on it, and the bytes that the
socket accepted. -/
structure Conn where
  lines : List Bytes
  bytes : Bytes
deriving DecidableEq

/-- The lines of a text of `n` bytes that are there as a whole. -/
def wholeLines : List Bytes → ℕ → List Bytes
  | [], _ => []
  | l :: ls, n => if l.length ≤ n then l :: wholeLines ls (n - l.length) else []

/-- The lines sent completely on a connection. -/
def Conn.complete (c : Conn) : List Bytes := wholeLines c.lines c.bytes.length

/-- Where the writer thread stands in `writer_loop`. -/
inductive WriterPc
  /-- Before the test `while (running_)`. -/
  | test
  /-- Inside the loop, before it takes the lock for `wait_for`. -/
  | lock
  /-- Blocked in `wait_for`. -/
  | waiting
  /-- The batch is swapped out, before `ensure_connected`. -/
  | connect (batch : List Bytes)
  /-- In `flush_batch`, before a `send` of what remains after `sent` bytes. -/
  | send (batch : List Bytes) (sent : ℕ)
  /-- `writer_loop` has returned. -/
  | done
deriving DecidableEq

/-- Where the destructor stands. -/
inductive DtorPc
  /-- Not called yet. -/
  | idle
  /-- Before `running_ = false`. -/
  | begun
  /-- Before `pending_cv_.notify_all()`. -/
  | notify
  /-- Before `writer_thread_.join()`. -/
  | join
  /-- Before the socket is closed. -/
  | close
  /-- The destructor has returned. -/
  | returned
deriving DecidableEq

/-- The logger, its writer thread, its destructor and their history. -/
structure State where
  running : Bool
  pending : List Bytes
  /-- The connection of `fd_`, if there is one. -/
  live : Option Conn
  writer : WriterPc
  dtor : DtorPc
  /-- The lines that `log_bbo` enqueued, in order. -/
  accepted : List Bytes
  /-- Those of them that were enqueued before the destructor began. -/
  acceptedBefore : List Bytes
  /-- The connections that were closed, in order. -/
  closed : List Conn
deriving DecidableEq

/-- The logger as constructed, with its writer thread started. -/
def State.init : State where
  running := true
  pending := []
  live := none
  writer := .test
  dtor := .idle
  accepted := []
  acceptedBefore := []
  closed := []

/-- All the connections, in the order they were made. -/
def State.conns (s : State) : List Conn := s.closed ++ s.live.toList

/-- The lines sent completely over all connections, in order. -/
def State.written (s : State) : List Bytes := s.conns.flatMap Conn.complete

/-! ## The steps -/

/-- What may happen next. -/
inductive Action
  /-- A thread calls `log_bbo`. -/
  | logBbo (t : BboTick)
  /-- The writer tests `running_`. -/
  | test
  /-- The writer takes the lock and evaluates the predicate of its wait. -/
  | lock
  /-- The writer wakes up, by a notification, by itself or because its time is over. -/
  | wake (timedOut : Bool)
  /-- The writer makes sure that it is connected; `ok` is the outcome if it has to connect. -/
  | connect (ok : Bool)
  /-- The writer calls `send`, which accepts some bytes or fails. -/
  | send (n : Option ℕ)
  /-- The destructor is called. -/
  | beginDtor
  /-- `running_ = false`. -/
  | clearRunning
  /-- `pending_cv_.notify_all()`; a wait may end at any time, so nothing depends on it. -/
  | notifyAll
  /-- `join` returns. -/
  | join
  /-- The destructor closes the socket and returns. -/
  | closeFd
deriving DecidableEq

/-- What the writer does when it holds the lock and the predicate of the wait has been
evaluated: take the batch, leave the loop body, or wait. -/
def afterPredicate (timedOut : Bool) (s : State) : State :=
  if s.pending ≠ [] then { s with writer := .connect s.pending, pending := [] }
  else if s.running = false ∨ timedOut = true then { s with writer := .test }
  else { s with writer := .waiting }

/-- `flush_batch` begins on a connection. -/
def startFlush (s : State) (batch : List Bytes) (c : Conn) : State :=
  let live := some { c with lines := c.lines ++ batch }
  if 0 < batch.flatten.length then { s with live := live, writer := .send batch 0 }
  else { s with live := live, writer := .test }

/-- `ensure_connected`, and what follows it. -/
def ensureConnected (ok : Bool) (s : State) (batch : List Bytes) : State :=
  match s.live with
  | some c => startFlush s batch c
  | none =>
    if ok then startFlush s batch ⟨[], []⟩
    -- the batch is dropped
    else { s with writer := .test }

/-- The bytes of a batch that one `send` hands over. -/
def chunk (batch : List Bytes) (sent n : ℕ) : Bytes := (batch.flatten.drop sent).take n

/-- `send` accepts `n` bytes. -/
def afterSend (s : State) (batch : List Bytes) (sent n : ℕ) (c : Conn) : State :=
  let live := some { c with bytes := c.bytes ++ chunk batch sent n }
  if sent + n < batch.flatten.length then { s with live := live, writer := .send batch (sent + n) }
  else { s with live := live, writer := .test }

/-- `send` fails: the socket is closed and the batch dropped. -/
def dropConnection (s : State) (c : Conn) : State :=
  { s with live := none, closed := s.closed ++ [c], writer := .test }

/-- One step of the system; `none` when the action is not possible. -/
def step (fmtG : ℚ → Bytes) (s : State) : Action → Option State
  | .logBbo t =>
    match ilpLine fmtG t with
    | none => some s
    | some line =>
      some { s with pending := s.pending ++ [line], accepted := s.accepted ++ [line] }
  | .test =>
    match s.writer with
    | .test => some { s with writer := if s.running then .lock else .done }
    | _ => none
  | .lock =>
    match s.writer with
    | .lock => some (afterPredicate false s)
    | _ => none
  | .wake timedOut =>
    match s.writer with
    | .waiting => some (afterPredicate timedOut s)
    | _ => none
  | .connect ok =>
    match s.writer with
    | .connect batch => some (ensureConnected ok s batch)
    | _ => none
  | .send n =>
    match s.writer, s.live, n with
    | .send _ _, some c, none => some (dropConnection s c)
    | .send batch sent, some c, some n =>
      if 0 < n ∧ sent + n ≤ batch.flatten.length then some (afterSend s batch sent n c) else none
    | _, _, _ => none
  | .beginDtor =>
    match s.dtor with
    | .idle => some { s with dtor := .begun, acceptedBefore := s.accepted }
    | _ => none
  | .clearRunning =>
    match s.dtor with
    | .begun => some { s with dtor := .notify, running := false }
    | _ => none
  | .notifyAll =>
    match s.dtor with
    | .notify => some { s with dtor := .join }
    | _ => none
  | .join =>
    match s.dtor, s.writer with
    | .join, .done => some { s with dtor := .close }
    | _, _ => none
  | .closeFd =>
    match s.dtor with
    | .close => some { s with dtor := .returned, live := none, closed := s.conns }
    | _ => none

/-- `step` as a transition relation. -/
def Step (fmtG : ℚ → Bytes) (s : State) (a : Action) (t : State) : Prop := step fmtG s a = some t

/-- The line that an action enqueues. -/
def Action.line (fmtG : ℚ → Bytes) : Action → Option Bytes
  | .logBbo t => ilpLine fmtG t
  | _ => none

/-- The writer stands between its test of `running_` and the swap. -/
def WriterPc.InWait : WriterPc → Prop
  | .lock | .waiting => True
  | _ => False

/-- The writer evaluates the predicate of its wait. -/
def Action.Waits : Action → Prop
  | .lock | .wake _ => True
  | _ => False

/-- What a step can do. -/
inductive Move (fmtG : ℚ → Bytes) (s : State) : Action → State → Prop
  | skip {t : BboTick} (hline : ilpLine fmtG t = none) : Move fmtG s (.logBbo t) s
  | enqueue {t : BboTick} {line : Bytes} (hline : ilpLine fmtG t = some line) :
      Move fmtG s (.logBbo t)
        { s with pending := s.pending ++ [line], accepted := s.accepted ++ [line] }
  | enter (hpc : s.writer = .test) (hrun : s.running = true) :
      Move fmtG s .test { s with writer := .lock }
  | leave (hpc : s.writer = .test) (hrun : s.running = false) :
      Move fmtG s .test { s with writer := .done }
  | swap {a : Action} (ha : a.Waits) (hpc : s.writer.InWait) (hp : s.pending ≠ []) :
      Move fmtG s a { s with writer := .connect s.pending, pending := [] }
  | again {a : Action} (ha : a.Waits) (hpc : s.writer.InWait) (hp : s.pending = []) :
      Move fmtG s a { s with writer := .test }
  | block {a : Action} (ha : a.Waits) (hpc : s.writer.InWait) (hp : s.pending = []) :
      Move fmtG s a { s with writer := .waiting }
  | dropBatch {batch : List Bytes} (hpc : s.writer = .connect batch) (hlive : s.live = none) :
      Move fmtG s (.connect false) { s with writer := .test }
  | flush {ok : Bool} {batch : List Bytes} {c : Conn} (hpc : s.writer = .connect batch)
      (hlive : s.live = some c ∨ s.live = none ∧ c = ⟨[], []⟩) :
      Move fmtG s (.connect ok) (startFlush s batch c)
  | sendFailed {batch : List Bytes} {sent : ℕ} {c : Conn} (hpc : s.writer = .send batch sent)
      (hlive : s.live = some c) : Move fmtG s (.send none) (dropConnection s c)
  | sent {batch : List Bytes} {sent n : ℕ} {c : Conn} (hpc : s.writer = .send batch sent)
      (hlive : s.live = some c) (hn : sent + n ≤ batch.flatten.length) :
      Move fmtG s (.send (some n)) (afterSend s batch sent n c)
  | beginDtor (hd : s.dtor = .idle) :
      Move fmtG s .beginDtor { s with dtor := .begun, acceptedBefore := s.accepted }
  | clearRunning (hd : s.dtor = .begun) :
      Move fmtG s .clearRunning { s with dtor := .notify, running := false }
  | notifyAll (hd : s.dtor = .notify) : Move fmtG s .notifyAll { s with dtor := .join }
  | join (hd : s.dtor = .join) (hpc : s.writer = .done) :
      Move fmtG s .join { s with dtor := .close }
  | closeFd (hd : s.dtor = .close) :
      Move fmtG s .closeFd { s with dtor := .returned, live := none, closed := s.conns }

lemma move_afterPredicate {fmtG : ℚ → Bytes} {s : State} {a : Action} (timedOut : Bool)
    (ha : a.Waits) (hpc : s.writer.InWait) :
    Move fmtG s a (afterPredicate timedOut s) := by
  rw [afterPredicate]
  split
  · rename_i hp
    exact .swap ha hpc hp
  · rename_i hp
    split
    · exact .again ha hpc (not_not.mp hp)
    · exact .block ha hpc (not_not.mp hp)

/-- Every step is one of the moves. -/
lemma move_of_step {fmtG : ℚ → Bytes} {s t : State} {a : Action} (hs : Step fmtG s a t) :
    Move fmtG s a t := by
  rw [Step, step.eq_def] at hs
  split at hs
  · split at hs
    · rename_i hline; rw [← Option.some.inj hs]; exact .skip hline
    · rename_i hline; rw [← Option.some.inj hs]; exact .enqueue hline
  · split at hs
    · rename_i hpc
      rw [← Option.some.inj hs]
      split
      · rename_i hrun; exact .enter hpc hrun
      · rename_i hrun; exact .leave hpc (Bool.eq_false_iff.mpr hrun)
    · exact absurd hs (by simp)
  · split at hs
    · rename_i hpc
      rw [← Option.some.inj hs]
      exact move_afterPredicate false trivial (by rw [hpc]; trivial)
    · exact absurd hs (by simp)
  · split at hs
    · rename_i hpc
      rw [← Option.some.inj hs]
      exact move_afterPredicate _ trivial (by rw [hpc]; trivial)
    · exact absurd hs (by simp)
  · rename_i ok
    split at hs
    · rename_i batch hpc
      rw [← Option.some.inj hs, ensureConnected]
      split
      · rename_i c hlive; exact .flush hpc (Or.inl hlive)
      · rename_i hlive
        split
        · exact .flush hpc (Or.inr ⟨hlive, rfl⟩)
        · rename_i hok
          rw [Bool.eq_false_iff.mpr hok]
          exact .dropBatch hpc hlive
    · exact absurd hs (by simp)
  · split at hs
    · rename_i hpc hlive; rw [← Option.some.inj hs]; exact .sendFailed hpc hlive
    · rename_i hpc hlive
      split at hs
      · rename_i hn; rw [← Option.some.inj hs]; exact .sent hpc hlive hn.2
      · exact absurd hs (by simp)
    · exact absurd hs (by simp)
  · split at hs
    · rename_i hd; rw [← Option.some.inj hs]; exact .beginDtor hd
    · exact absurd hs (by simp)
  · split at hs
    · rename_i hd; rw [← Option.some.inj hs]; exact .clearRunning hd
    · exact absurd hs (by simp)
  · split at hs
    · rename_i hd; rw [← Option.some.inj hs]; exact .notifyAll hd
    · exact absurd hs (by simp)
  · split at hs
    · rename_i hd hpc; rw [← Option.some.inj hs]; exact .join hd hpc
    · exact absurd hs (by simp)
  · split at hs
    · rename_i hd; rw [← Option.some.inj hs]; exact .closeFd hd
    · exact absurd hs (by simp)

end TickPlant.TickLogger
