/-
# The latency monitor

`LatencyMonitor` gives every message an id, collects timestamps under the id in a map, and
submits the finished measurement to a ring buffer from which the monitoring thread pops.
The map is only touched under a mutex, so an access to it is one step; the push into the
ring comes after the lock has been released, and each of its atomic operations is a step
(those of `BlockingSPSCRingBuffer::push`).  Any number of threads may call the monitor.

Beside the state of the code the model keeps the history of the calls, from which `pending`
says which measurements are under way and what has been recorded for them.  With a single
caller, `complete_submits_iff` says for which ids a completed measurement is submitted: all
but `0`, which `start_measurement` hands out first and the two other functions take for "no
measurement".
-/
import TickPlant.Queue.SpscFifo
import TickPlant.Text

namespace TickPlant.Latency

open Lib Mpsc

/-! ## Measurements -/

/-- `MeasurementPoint`, without the count `MAX_POINTS`. -/
inductive MeasurementPoint
  | websocketRecv
  | jsonParsed
  | queueEnqueued
  | queueDequeued
  | engineReceived
  | arbitrageCalculated
  | dashboardUpdated
deriving DecidableEq, Repr

/-- `LatencyMeasurement`: the timestamps of one message on its way. -/
structure LatencyMeasurement where
  messageId : ℕ
  timestamps : MeasurementPoint → ℕ
  symbol : Bytes
  exchange : Bytes

namespace LatencyMeasurement

/-- The default constructor. -/
def blank : LatencyMeasurement := ⟨0, fun _ => 0, [], []⟩

/-- `record(point, timestamp_cycles)`. -/
def record (m : LatencyMeasurement) (point : MeasurementPoint) (timestampCycles : ℕ) :
    LatencyMeasurement :=
  { m with timestamps := Function.update m.timestamps point timestampCycles }

@[simp] lemma messageId_record (m : LatencyMeasurement) (point : MeasurementPoint) (t : ℕ) :
    (m.record point t).messageId = m.messageId := rfl

end LatencyMeasurement

/-! ## The calls that have been made -/

/-- A call that changes what is being measured. -/
inductive Call
  /-- `start_measurement` has stored this measurement. -/
  | started (m : LatencyMeasurement)
  /-- `record_timestamp`. -/
  | recorded (id : ℕ) (point : MeasurementPoint) (t : ℕ)
  /-- `complete_measurement`. -/
  | completed (id : ℕ)

/-- What a call does to the measurement with the id `id`. -/
def track (id : ℕ) (o : Option LatencyMeasurement) : Call → Option LatencyMeasurement
  | .started m => if m.messageId = id then some m else o
  | .recorded id' point t => if id' = id then o.map fun m => m.record point t else o
  | .completed id' => if id' = id then none else o

/-- The measurement with the id `id` that has been started and not been completed since,
with all timestamps recorded for it. -/
def pending (calls : List Call) (id : ℕ) : Option LatencyMeasurement :=
  calls.foldl (track id) none

@[simp] lemma pending_concat (calls : List Call) (c : Call) (id : ℕ) :
    pending (calls ++ [c]) id = track id (pending calls id) c := by
  rw [pending, List.foldl_concat]
  rfl

/-- A pending measurement carries its id. -/
lemma messageId_of_pending {calls : List Call} {id : ℕ} {m : LatencyMeasurement}
    (h : pending calls id = some m) : m.messageId = id := by
  induction calls using List.reverseRecOn generalizing m with
  | nil => exact absurd h (by simp [pending])
  | append_singleton calls c ih =>
    rw [pending_concat] at h
    cases c with
    | started m' =>
      simp only [track] at h
      split at h
      · rename_i hid
        rw [← Option.some.inj h]
        exact hid
      · exact ih h
    | recorded id' point t =>
      simp only [track] at h
      split at h
      · obtain ⟨m', hm', rfl⟩ := Option.map_eq_some_iff.mp h
        have hid := ih hm'
        exact hid
      · exact ih h
    | completed id' =>
      simp only [track] at h
      split at h
      · exact absurd h (by simp)
      · exact ih h

/-- Nothing is pending before the first start. -/
lemma pending_of_not_started {calls : List Call} (h : ∀ m, Call.started m ∉ calls) (id : ℕ) :
    pending calls id = none := by
  induction calls using List.reverseRecOn with
  | nil => rfl
  | append_singleton calls c ih =>
    have hbefore := ih fun m hm => h m (List.mem_append_left _ hm)
    rw [pending_concat, hbefore]
    cases c with
    | started m => exact absurd (by simp) (h m)
    | recorded id' point t => simp [track]
    | completed id' => simp [track]

/-! ## The state -/

/-- `sample_buffer_` has 1048576 slots. -/
def bufferSize : RingSize := ⟨20, by norm_num, by norm_num⟩

/-- Where a calling thread stands. -/
inductive Caller
  /-- Outside any call. -/
  | idle
  /-- In `start_measurement`, before the store into the map. -/
  | insert (m : LatencyMeasurement)
  /-- In `complete_measurement`, inside `sample_buffer_->push`. -/
  | push (pc : Spsc.PushPc LatencyMeasurement)

/-- Where a thread stands after an operation of `push`. -/
def Caller.after : Spsc.PushPc LatencyMeasurement → Caller
  | .returned _ => .idle
  | pc => .push pc

/-- An enabled monitor with its callers `P` and the monitoring thread. -/
structure State (P : Type) where
  /-- `next_message_id_`. -/
  nextMessageId : ℕ
  /-- `active_measurements_`. -/
  active : ℕ → Option LatencyMeasurement
  /-- `sample_buffer_` and the monitoring thread that pops from it. -/
  buffer : Spsc.State LatencyMeasurement
  callers : P → Caller
  calls : List Call
  /-- The measurements that `complete_measurement` was called for. -/
  completed : List LatencyMeasurement

/-- What may happen next. -/
inductive Action (P : Type)
  /-- `start_measurement(symbol, exchange)`, up to its `fetch_add`. -/
  | start (p : P) (symbol exchange : Bytes)
  /-- `start_measurement` stores the measurement and returns. -/
  | insert (p : P)
  /-- `record_timestamp(id, point)` at the time `t`. -/
  | record (p : P) (id : ℕ) (point : MeasurementPoint) (t : ℕ)
  /-- `complete_measurement(id)`, up to the release of the lock. -/
  | complete (p : P) (id : ℕ)
  /-- The next operation of `push` in `complete_measurement`, which returns after it. -/
  | push (p : P)
  /-- The monitoring thread calls `try_pop`. -/
  | callPop
  /-- The next operation of `try_pop`. -/
  | pop

variable {P : Type} [DecidableEq P]

/-- The monitor as constructed. -/
def State.init : State P where
  nextMessageId := 0
  active := fun _ => none
  buffer := .init fun _ => .blank
  callers := fun _ => .idle
  calls := []
  completed := []

namespace State

/-- `next_message_id_.fetch_add(1)`, and the new measurement. -/
def fetchId (s : State P) (p : P) (symbol exchange : Bytes) : State P :=
  { s with
    nextMessageId := wrap (s.nextMessageId + 1)
    callers := Function.update s.callers p
      (.insert
        { LatencyMeasurement.blank with
          messageId := s.nextMessageId, symbol := symbol, exchange := exchange }) }

/-- `active_measurements_[msg_id] = measurement`. -/
def insert (s : State P) (p : P) (m : LatencyMeasurement) : State P :=
  { s with
    active := Function.update s.active m.messageId (some m)
    callers := Function.update s.callers p .idle
    calls := s.calls ++ [.started m] }

/-- `record_timestamp`. -/
def recordTimestamp (s : State P) (id : ℕ) (point : MeasurementPoint) (t : ℕ) : State P :=
  { s with
    active :=
      if id = 0 then s.active
      else Function.update s.active id ((s.active id).map fun m => m.record point t)
    calls := s.calls ++ [.recorded id point t] }

/-- `complete_measurement`, up to the release of the lock. -/
def completeMeasurement (s : State P) (p : P) (id : ℕ) : State P :=
  let s' : State P :=
    { s with
      calls := s.calls ++ [.completed id]
      completed := s.completed ++ (s.active id).toList }
  if id = 0 then s'
  else
    match s.active id with
    | none => s'
    | some m =>
      { s' with
        active := Function.update s.active id none
        callers := Function.update s.callers p (.push (.loadTail m)) }

/-- The buffer as the thread that stands at `pc` in `push` sees it. -/
def view (s : State P) (pc : Spsc.PushPc LatencyMeasurement) : Spsc.State LatencyMeasurement :=
  s.buffer.setProducer pc

/-- The thread `p` has executed an operation of `push`; `b` is the buffer it leaves. -/
def afterPush (s : State P) (p : P) (b : Spsc.State LatencyMeasurement) : State P :=
  { s with
    buffer := b.setProducer .idle
    callers := Function.update s.callers p (.after b.producer) }

/-- The monitoring thread has executed an operation. -/
def afterPop (s : State P) (b : Spsc.State LatencyMeasurement) : State P := { s with buffer := b }

end State

/-- One step of the system; `none` when the action is not possible. -/
def step (s : State P) : Action P → Option (State P)
  | .start p symbol exchange =>
    match s.callers p with
    | .idle => some (s.fetchId p symbol exchange)
    | _ => none
  | .insert p =>
    match s.callers p with
    | .insert m => some (s.insert p m)
    | _ => none
  | .record p id point t =>
    match s.callers p with
    | .idle => some (s.recordTimestamp id point t)
    | _ => none
  | .complete p id =>
    match s.callers p with
    | .idle => some (s.completeMeasurement p id)
    | _ => none
  | .push p =>
    match s.callers p with
    | .push pc => (Spsc.stepPush .blocking bufferSize (s.view pc)).map (s.afterPush p)
    | _ => none
  | .callPop => (Spsc.step .blocking bufferSize s.buffer .callPop).map s.afterPop
  | .pop => (Spsc.step .blocking bufferSize s.buffer .pop).map s.afterPop

/-- `step` as a transition relation. -/
def Step (s : State P) (a : Action P) (t : State P) : Prop := step s a = some t

/-- What a step can do, one constructor for each action. -/
inductive Move (s : State P) : Action P → State P → Prop
  | start {p : P} (symbol exchange : Bytes) (h : s.callers p = .idle) :
      Move s (.start p symbol exchange) (s.fetchId p symbol exchange)
  | insert {p : P} {m : LatencyMeasurement} (h : s.callers p = .insert m) :
      Move s (.insert p) (s.insert p m)
  | record {p : P} (id : ℕ) (point : MeasurementPoint) (t : ℕ) (h : s.callers p = .idle) :
      Move s (.record p id point t) (s.recordTimestamp id point t)
  | complete {p : P} (id : ℕ) (h : s.callers p = .idle) :
      Move s (.complete p id) (s.completeMeasurement p id)
  | push {p : P} {pc : Spsc.PushPc LatencyMeasurement} {b : Spsc.State LatencyMeasurement}
      (h : s.callers p = .push pc) (hb : Spsc.stepPush .blocking bufferSize (s.view pc) = some b) :
      Move s (.push p) (s.afterPush p b)
  | callPop {b : Spsc.State LatencyMeasurement}
      (hb : Spsc.step .blocking bufferSize s.buffer .callPop = some b) :
      Move s .callPop (s.afterPop b)
  | pop {b : Spsc.State LatencyMeasurement}
      (hb : Spsc.step .blocking bufferSize s.buffer .pop = some b) : Move s .pop (s.afterPop b)

lemma move_of_step {s t : State P} {a : Action P} (hs : Step s a t) : Move s a t := by
  cases a with
  | start p symbol exchange =>
    simp only [Step, step] at hs
    split at hs
    · rename_i h; rw [← Option.some.inj hs]; exact .start symbol exchange h
    · exact absurd hs (by simp)
  | insert p =>
    simp only [Step, step] at hs
    split at hs
    · rename_i h; rw [← Option.some.inj hs]; exact .insert h
    · exact absurd hs (by simp)
  | record p id point t =>
    simp only [Step, step] at hs
    split at hs
    · rename_i h; rw [← Option.some.inj hs]; exact .record id point t h
    · exact absurd hs (by simp)
  | complete p id =>
    simp only [Step, step] at hs
    split at hs
    · rename_i h; rw [← Option.some.inj hs]; exact .complete id h
    · exact absurd hs (by simp)
  | push p =>
    simp only [Step, step] at hs
    split at hs
    · rename_i h
      obtain ⟨b, hb, rfl⟩ := Option.map_eq_some_iff.mp hs
      exact .push h hb
    · exact absurd hs (by simp)
  | callPop =>
    obtain ⟨b, hb, rfl⟩ := Option.map_eq_some_iff.mp hs
    exact .callPop hb
  | pop =>
    obtain ⟨b, hb, rfl⟩ := Option.map_eq_some_iff.mp hs
    exact .pop hb

/-- What an operation of `push` can do, by where the thread stands. -/
inductive PushMove (b : Spsc.State LatencyMeasurement) :
    Spsc.PushPc LatencyMeasurement → Spsc.State LatencyMeasurement → Prop
  | loadTail (x : LatencyMeasurement) :
      PushMove b (.loadTail x) (b.setProducer (.loadHead x b.ring.tail))
  | full {x : LatencyMeasurement} {tl : ℕ} (h : Spsc.nextIndex bufferSize tl = b.ring.head) :
      PushMove b (.loadHead x tl) (b.setProducer .countDrop)
  | room {x : LatencyMeasurement} {tl : ℕ} (h : Spsc.nextIndex bufferSize tl ≠ b.ring.head) :
      PushMove b (.loadHead x tl) (b.setProducer (.write x tl))
  | countDrop : PushMove b .countDrop b.countDrop
  | write (x : LatencyMeasurement) (tl : ℕ) : PushMove b (.write x tl) (b.write x tl)
  | accept (x : LatencyMeasurement) (tl : ℕ) :
      PushMove b (.storeTail x tl) (b.accept bufferSize x tl)

lemma pushMove_of_stepPush {b b' : Spsc.State LatencyMeasurement}
    {pc : Spsc.PushPc LatencyMeasurement}
    (hb : Spsc.stepPush .blocking bufferSize (b.setProducer pc) = some b') :
    PushMove b pc b' := by
  cases pc with
  | idle => exact absurd hb (by simp [Spsc.stepPush, Spsc.State.setProducer])
  | returned ok => exact absurd hb (by simp [Spsc.stepPush, Spsc.State.setProducer])
  | loadTail x => rw [← Option.some.inj hb]; exact .loadTail x
  | loadHead x tl =>
    by_cases hfull : Spsc.nextIndex bufferSize tl = b.ring.head
    · have hstep : Spsc.stepPush .blocking bufferSize (b.setProducer (.loadHead x tl)) =
          some (b.setProducer .countDrop) := if_pos hfull
      rw [← Option.some.inj (hstep.symm.trans hb)]
      exact .full hfull
    · have hstep : Spsc.stepPush .blocking bufferSize (b.setProducer (.loadHead x tl)) =
          some (b.setProducer (.write x tl)) := if_neg hfull
      rw [← Option.some.inj (hstep.symm.trans hb)]
      exact .room hfull
  | countDrop => rw [← Option.some.inj hb]; exact .countDrop
  | write x tl => rw [← Option.some.inj hb]; exact .write x tl
  | storeTail x tl => rw [← Option.some.inj hb]; exact .accept x tl

/-- What an operation of the monitoring thread leaves alone in the buffer. -/
structure PopKeeps (b b' : Spsc.State LatencyMeasurement) : Prop where
  tail_eq : b'.ring.tail = b.ring.tail
  buffer_eq : b'.ring.buffer = b.ring.buffer
  dropped_eq : b'.ring.dropped = b.ring.dropped
  pushed_eq : b'.pushed = b.pushed
  results_eq : b'.results = b.results
  popped_le : b.popped.length ≤ b'.popped.length

lemma popKeeps_of_step {b b' : Spsc.State LatencyMeasurement}
    {a : Spsc.Action LatencyMeasurement} (ha : a = .callPop ∨ a = .pop)
    (hb : Spsc.step .blocking bufferSize b a = some b') : PopKeeps b b' := by
  have hself : ∀ pc, PopKeeps b (b.setConsumer pc) := fun _ => ⟨rfl, rfl, rfl, rfl, rfl, le_rfl⟩
  rcases ha with rfl | rfl
  · simp only [Spsc.step] at hb
    split at hb
    · rw [← Option.some.inj hb]; exact hself _
    · rw [← Option.some.inj hb]; exact hself _
    · exact absurd hb (by simp)
  · simp only [Spsc.step, Spsc.stepPop] at hb
    split at hb
    · exact absurd hb (by simp)
    · exact absurd hb (by simp)
    · rw [← Option.some.inj hb]; exact hself _
    · split at hb <;> (rw [← Option.some.inj hb]; exact hself _)
    · rw [← Option.some.inj hb]; exact hself _
    · rw [← Option.some.inj hb]
      exact ⟨rfl, rfl, rfl, rfl, rfl, by simp [Spsc.State.advance]⟩

namespace State

variable (s : State P)

@[simp] lemma calls_completeMeasurement (p : P) (id : ℕ) :
    (s.completeMeasurement p id).calls = s.calls ++ [.completed id] := by
  rw [completeMeasurement]
  split_ifs
  · rfl
  · cases s.active id <;> rfl

@[simp] lemma completed_completeMeasurement (p : P) (id : ℕ) :
    (s.completeMeasurement p id).completed = s.completed ++ (s.active id).toList := by
  rw [completeMeasurement]
  split_ifs
  · rfl
  · cases s.active id <;> rfl

@[simp] lemma buffer_completeMeasurement (p : P) (id : ℕ) :
    (s.completeMeasurement p id).buffer = s.buffer := by
  rw [completeMeasurement]
  split_ifs
  · rfl
  · cases s.active id <;> rfl

/-- The call takes the measurement out of the map, unless its id is `0`. -/
lemma active_completeMeasurement (p : P) (id : ℕ) :
    (s.completeMeasurement p id).active =
      if id = 0 then s.active else Function.update s.active id none := by
  rw [completeMeasurement]
  split_ifs
  · rfl
  · cases h : s.active id with
    | none => exact (Function.update_eq_self_iff.mpr h.symm).symm
    | some m => rfl

/-- The call goes on to submit the measurement, unless its id is `0`. -/
lemma callers_completeMeasurement (p : P) (id : ℕ) :
    (s.completeMeasurement p id).callers =
      if id = 0 then s.callers
      else ((s.active id).elim s.callers fun m =>
        Function.update s.callers p (.push (.loadTail m))) := by
  rw [completeMeasurement]
  split_ifs
  · rfl
  · cases s.active id <;> rfl

@[simp] lemma callers_afterPush (p : P) (b : Spsc.State LatencyMeasurement) :
    (s.afterPush p b).callers p = .after b.producer := Function.update_self _ _ _

end State

/-! ## The map and the pending measurements -/

/-- The map holds the pending measurements, as far as their ids are not `0`. -/
structure MapOk (s : State P) : Prop where
  agree : ∀ id, id ≠ 0 → s.active id = pending s.calls id
  unstarted : (∀ m, Call.started m ∉ s.calls) → s.active 0 = none

omit [DecidableEq P] in
lemma mapOk_init : MapOk (State.init : State P) := ⟨fun _ _ => rfl, fun _ => rfl⟩

lemma mapOk_step {s t : State P} {a : Action P} (h : MapOk s) (hs : Step s a t) : MapOk t := by
  cases move_of_step hs with
  | start symbol exchange hpc => exact ⟨h.agree, h.unstarted⟩
  | insert hpc =>
    rename_i p m
    refine ⟨?_, fun hno => absurd (by simp [State.insert]) (hno m)⟩
    intro id hid
    show Function.update s.active m.messageId (some m) id = pending (s.calls ++ [.started m]) id
    rw [pending_concat, track, Function.update_apply, h.agree id hid]
    simp only [eq_comm]
  | record id point t hpc =>
    refine ⟨?_, ?_⟩
    · intro id' hid'
      -- `record_timestamp` does nothing for id 0, which a disabled monitor returns
      show (if id = 0 then s.active else _) id' = pending (s.calls ++ [.recorded id point t]) id'
      rw [pending_concat, track, ← h.agree id' hid']
      by_cases hzero : id = 0
      · rw [if_pos hzero, if_neg (by omega)]
      · rw [if_neg hzero, Function.update_apply]
        by_cases hid : id' = id
        · rw [if_pos hid, if_pos hid.symm, hid]
        · rw [if_neg hid, if_neg (Ne.symm hid)]
    · intro hno
      have hzero := h.unstarted fun m hm => hno m (List.mem_append_left _ hm)
      show (if id = 0 then s.active else _) 0 = none
      by_cases hid : id = 0
      · rw [if_pos hid]; exact hzero
      · rw [if_neg hid, Function.update_of_ne (Ne.symm hid)]; exact hzero
  | complete id hpc =>
    rename_i p
    refine ⟨?_, ?_⟩
    · intro id' hid'
      rw [State.active_completeMeasurement, State.calls_completeMeasurement, pending_concat, track,
        ← h.agree id' hid']
      by_cases hzero : id = 0
      · rw [if_pos hzero, if_neg (by omega)]
      · rw [if_neg hzero, Function.update_apply]
        simp only [eq_comm]
    · intro hno
      rw [State.calls_completeMeasurement] at hno
      have hzero := h.unstarted fun m hm => hno m (List.mem_append_left _ hm)
      rw [State.active_completeMeasurement]
      by_cases hid : id = 0
      · rw [if_pos hid]; exact hzero
      · rw [if_neg hid, Function.update_of_ne (Ne.symm hid)]; exact hzero
  | push hpc hb => exact ⟨h.agree, h.unstarted⟩
  | callPop hb => exact ⟨h.agree, h.unstarted⟩
  | pop hb => exact ⟨h.agree, h.unstarted⟩

lemma mapOk_run {as : List (Action P)} {s : State P} (hrun : Run Step State.init as s) :
    MapOk s :=
  hrun.invariant mapOk_init fun _ _ _ h hs => mapOk_step h hs

/-! ## One caller -/

/-- The id of the next measurement that a single caller stores. -/
def State.upcoming (s : State Unit) : ℕ :=
  match s.callers () with
  | .insert m => m.messageId
  | _ => s.nextMessageId

lemma upcoming_eq {s : State Unit} (h : ∀ m, s.callers () ≠ .insert m) :
    s.upcoming = s.nextMessageId := by
  rw [State.upcoming]
  split
  · rename_i m hpc
    exact absurd hpc (h m)
  · rfl

/-- The first measurement gets the id `0`, and nothing takes that id out of the map. -/
structure ZeroOk (s : State Unit) : Prop where
  held : (∃ m, Call.started m ∈ s.calls) → s.active 0 ≠ none
  first : (∀ m, Call.started m ∉ s.calls) → s.upcoming = 0

lemma zeroOk_init : ZeroOk State.init where
  held := fun ⟨_, hm⟩ => absurd hm List.not_mem_nil
  first := fun _ => rfl

/-- A call that starts nothing. -/
lemma ZeroOk.call {s t : State Unit} (h : ZeroOk s) {c : Call} (hc : ∀ m, Call.started m ≠ c)
    (hcalls : t.calls = s.calls ++ [c]) (hactive : t.active 0 = s.active 0)
    (hupcoming : t.upcoming = s.upcoming) : ZeroOk t := by
  have hstarted : ∀ m, Call.started m ∈ t.calls ↔ Call.started m ∈ s.calls := by
    intro m
    rw [hcalls, List.mem_append, List.mem_singleton]
    exact or_iff_left (hc m)
  refine ⟨?_, ?_⟩
  · rintro ⟨m, hm⟩
    rw [hactive]
    exact h.held ⟨m, (hstarted m).mp hm⟩
  · intro hno
    rw [hupcoming]
    exact h.first fun m hm => hno m ((hstarted m).mpr hm)

lemma not_insert_of_idle {s : State Unit} (h : s.callers () = .idle) (m : LatencyMeasurement) :
    s.callers () ≠ .insert m := by
  rw [h]
  simp

lemma after_ne_insert (pc : Spsc.PushPc LatencyMeasurement) (m : LatencyMeasurement) :
    Caller.after pc ≠ .insert m := by
  cases pc <;> simp [Caller.after]

lemma zeroOk_step {s t : State Unit} {a : Action Unit} (h : ZeroOk s) (hs : Step s a t) :
    ZeroOk t := by
  cases move_of_step hs with
  | start symbol exchange hpc =>
    refine ⟨h.held, fun hno => ?_⟩
    have hfirst := h.first hno
    rw [upcoming_eq (not_insert_of_idle hpc)] at hfirst
    simpa [State.upcoming, State.fetchId] using hfirst
  | insert hpc =>
    rename_i m
    refine ⟨fun _ => ?_, fun hno => absurd (by simp [State.insert]) (hno m)⟩
    show Function.update s.active m.messageId (some m) 0 ≠ none
    by_cases hid : (0 : ℕ) = m.messageId
    · rw [hid, Function.update_self]
      simp
    · -- the id is not the first one, so something was started before
      rw [Function.update_of_ne hid]
      refine h.held ?_
      by_contra hno
      have hfirst := h.first fun m' hm' => hno ⟨m', hm'⟩
      rw [State.upcoming, hpc] at hfirst
      exact hid hfirst.symm
  | record id point t hpc =>
    refine h.call (c := .recorded id point t) (by simp) rfl ?_ rfl
    show (if id = 0 then s.active else _) 0 = s.active 0
    split_ifs with hid
    · rfl
    · exact Function.update_of_ne (Ne.symm hid) _ _
  | complete id hpc =>
    refine h.call (c := .completed id) (by simp) (s.calls_completeMeasurement () id) ?_ ?_
    · rw [State.active_completeMeasurement]
      split_ifs with hid
      · rfl
      · exact Function.update_of_ne (Ne.symm hid) _ _
    · have hnext : (s.completeMeasurement () id).nextMessageId = s.nextMessageId := by
        rw [State.completeMeasurement]
        split_ifs
        · rfl
        · cases s.active id <;> rfl
      rw [upcoming_eq (not_insert_of_idle hpc), upcoming_eq, hnext]
      intro m
      rw [State.callers_completeMeasurement]
      split_ifs
      · exact not_insert_of_idle hpc m
      · cases s.active id with
        | none => exact not_insert_of_idle hpc m
        | some m' => simp
  | push hpc hb =>
    refine ⟨h.held, fun hno => ?_⟩
    have hfirst := h.first hno
    rw [upcoming_eq (by rw [hpc]; simp)] at hfirst
    rw [upcoming_eq fun m => by rw [State.callers_afterPush]; exact after_ne_insert _ m]
    exact hfirst
  | callPop hb => exact ⟨h.held, h.first⟩
  | pop hb => exact ⟨h.held, h.first⟩

lemma zeroOk_run {as : List (Action Unit)} {s : State Unit} (hrun : Run Step State.init as s) :
    ZeroOk s :=
  hrun.invariant zeroOk_init fun _ _ _ h hs => zeroOk_step h hs

/-! ## The submission -/

/-- The rest of a call of `complete_measurement`, while the monitoring thread may go on. -/
def Action.OfPush : Action Unit → Prop
  | .push _ | .callPop | .pop => True
  | _ => False

/-- Between `s` and `u` the buffer has taken in the one sample `m`, or counted it as
dropped. -/
def Submitted (s u : State Unit) (m : LatencyMeasurement) : Prop :=
  (u.buffer.pushed = s.buffer.pushed ++ [m] ∧ u.buffer.ring.dropped = s.buffer.ring.dropped) ∨
    (u.buffer.pushed = s.buffer.pushed ∧
      u.buffer.ring.dropped = wrap (s.buffer.ring.dropped + 1))

/-- Nothing has been submitted since `s`. -/
def Unchanged (s u : State Unit) : Prop :=
  u.buffer.pushed = s.buffer.pushed ∧ u.buffer.ring.dropped = s.buffer.ring.dropped

/-- How far the submission of `m` has got since `s`. -/
def Submitting (s u : State Unit) (m : LatencyMeasurement) : Prop :=
  match u.callers () with
  | .idle => Submitted s u m
  | .push (.loadTail x) | .push (.loadHead x _) | .push (.write x _) | .push (.storeTail x _) =>
    x = m ∧ Unchanged s u
  | .push .countDrop => Unchanged s u
  | _ => False

lemma Submitting.of_buffer {s u u' : State Unit} {m : LatencyMeasurement} (h : Submitting s u m)
    (hpc : u'.callers () = u.callers ()) (hpushed : u'.buffer.pushed = u.buffer.pushed)
    (hdropped : u'.buffer.ring.dropped = u.buffer.ring.dropped) : Submitting s u' m := by
  simp only [Submitting, Submitted, Unchanged] at h ⊢
  rw [hpc, hpushed, hdropped]
  exact h

/-- An operation of `push` brings the submission on. -/
lemma Submitting.push {s u : State Unit} {m : LatencyMeasurement} (h : Submitting s u m)
    {pc : Spsc.PushPc LatencyMeasurement} {b : Spsc.State LatencyMeasurement}
    (hpc : u.callers () = .push pc)
    (hb : Spsc.stepPush .blocking bufferSize (u.view pc) = some b) :
    Submitting s (u.afterPush () b) m := by
  rw [Submitting, hpc] at h
  rw [Submitting, State.callers_afterPush]
  cases pushMove_of_stepPush hb with
  | loadTail x => exact h
  | full hfull => exact h.2
  | room hroom => exact h
  | countDrop =>
    obtain ⟨hpushed, hdropped⟩ := h
    refine Or.inr ⟨hpushed, ?_⟩
    show wrap (u.buffer.ring.dropped + 1) = _
    rw [hdropped]
  | write x tl => exact h
  | accept x tl =>
    obtain ⟨rfl, hpushed, hdropped⟩ := h
    refine Or.inl ⟨?_, hdropped⟩
    show u.buffer.pushed ++ [x] = _
    rw [hpushed]

/-- Nothing else happens to the map meanwhile. -/
lemma submitting_step {s u u' : State Unit} {m : LatencyMeasurement} {a : Action Unit}
    (h : Submitting s u m) (hs : Step u a u') (ha : a.OfPush) :
    Submitting s u' m ∧ u'.active = u.active := by
  cases move_of_step hs with
  | push hpc hb => exact ⟨h.push hpc hb, rfl⟩
  | callPop hb =>
    have hkeeps := popKeeps_of_step (Or.inl rfl) hb
    exact ⟨h.of_buffer rfl hkeeps.pushed_eq hkeeps.dropped_eq, rfl⟩
  | pop hb =>
    have hkeeps := popKeeps_of_step (Or.inr rfl) hb
    exact ⟨h.of_buffer rfl hkeeps.pushed_eq hkeeps.dropped_eq, rfl⟩
  | start symbol exchange hpc => exact ha.elim
  | insert hpc => exact ha.elim
  | record id point t hpc => exact ha.elim
  | complete id hpc => exact ha.elim

/-- A call that has nothing to submit is over. -/
lemma active_of_run {u u' : State Unit} {as : List (Action Unit)} (hrun : Run Step u as u')
    (has : ∀ a ∈ as, a.OfPush) : u'.active = u.active := by
  refine hrun.invariant_of_labels (I := fun v => v.active = u.active) has rfl ?_
  intro v a v' hv hs ha
  rw [← hv]
  cases move_of_step hs with
  | push hpc hb => rfl
  | callPop hb => rfl
  | pop hb => rfl
  | start symbol exchange hpc => exact ha.elim
  | insert hpc => exact ha.elim
  | record id point t hpc => exact ha.elim
  | complete id hpc => exact ha.elim

/-- **Which completed measurements are submitted.**  Let a single caller complete a pending
measurement `m` of the id `id`, and let `u` be a state in which the call has returned, with
the monitoring thread at work at any time.  The id has left the map, and one sample, `m`
with all the timestamps recorded for it, has been submitted or counted as dropped, exactly
if the id is not `0`.  And when nothing is pending the map is empty exactly if nothing was
ever started. -/
theorem complete_submits_iff (as : List (Action Unit)) (s : State Unit)
    (hrun : Run Step State.init as s) :
    (∀ id m t bs u, pending s.calls id = some m → Step s (.complete () id) t →
      (∀ b ∈ bs, b.OfPush) → Run Step t bs u → u.callers () = .idle →
        (m.messageId = id ∧ u.active id = none ∧ Submitted s u m ↔ id ≠ 0)) ∧
      ((∀ id, pending s.calls id = none) →
        ((∀ id, s.active id = none) ↔ ∀ m, Call.started m ∉ s.calls)) := by
  have hmap := mapOk_run hrun
  have hzero := zeroOk_run hrun
  refine ⟨?_, ?_⟩
  · intro id m t bs u hpending hcomplete hbs hrest hidle
    have hstart : s.callers () = .idle := by
      cases move_of_step hcomplete with
      | complete id hpc => exact hpc
    have ht : t = s.completeMeasurement () id := by
      simp only [Step, step, hstart] at hcomplete
      exact (Option.some.inj hcomplete).symm
    constructor
    · rintro ⟨-, hgone, -⟩ rfl
      -- the measurement with the id `0` stays in the map
      rw [active_of_run hrest hbs, ht, State.active_completeMeasurement, if_pos rfl] at hgone
      refine hzero.held ?_ hgone
      by_contra hno
      rw [pending_of_not_started fun m' hm' => hno ⟨m', hm'⟩] at hpending
      exact absurd hpending (by simp)
    · intro hid
      have hactive : s.active id = some m := (hmap.agree id hid).trans hpending
      have hsub : Submitting s t m := by
        rw [Submitting, ht, State.callers_completeMeasurement, if_neg hid, hactive]
        simp only [Option.elim_some, Function.update_self, Unchanged,
          State.buffer_completeMeasurement, and_self]
      have hdone := hrest.invariant_of_labels (I := fun v => Submitting s v m) hbs hsub
        fun _ _ _ hv hs hb => (submitting_step hv hs hb).1
      rw [Submitting, hidle] at hdone
      refine ⟨messageId_of_pending hpending, ?_, hdone⟩
      rw [active_of_run hrest hbs, ht, State.active_completeMeasurement, if_neg hid,
        Function.update_self]
  · intro hnone
    constructor
    · intro hempty m hm
      exact hzero.held ⟨m, hm⟩ (hempty 0)
    · intro hno id
      by_cases hid : id = 0
      · rw [hid]
        exact hmap.unstarted hno
      · rw [hmap.agree id hid, hnone]

/-- Two messages are started, and the second is stamped. -/
def startTwo : List (Action Unit) :=
  [.start () [] [], .insert (), .start () [] [], .insert (), .record () 1 .jsonParsed 77]

/-- The state after `startTwo`. -/
def afterStartTwo : State Unit := (startTwo.foldlM step State.init).get (by decide)

/-- `complete_measurement(1)` has released the lock. -/
def taken : State Unit := (step afterStartTwo (.complete () 1)).get (by decide)

/-- The push of `complete_measurement(1)` has returned. -/
def submitted : State Unit :=
  ((List.replicate 4 (Action.push ())).foldlM step taken).get (by decide)

/-- The measurement of the second message. -/
def second : LatencyMeasurement :=
  { LatencyMeasurement.blank with messageId := 1 }.record .jsonParsed 77

/-- The second message is submitted with its timestamp. -/
theorem complete_submits_second :
    submitted.active 1 = none ∧ Submitted afterStartTwo submitted second := by
  have hpush : ∀ b ∈ List.replicate 4 (Action.push ()), b.OfPush := by
    intro b hb
    rw [List.eq_of_mem_replicate hb]
    trivial
  exact (((complete_submits_iff startTwo afterStartTwo
    (Run.of_foldlM (Option.some_get _).symm)).1 1 second taken _ submitted rfl
    (Option.some_get _).symm hpush (Run.of_foldlM (Option.some_get _).symm) rfl).mpr
    (by decide)).2

/-- The first message of a monitor gets the id `0`: `complete_measurement(0)` does nothing,
so its measurement stays in the map and no sample is submitted. -/
theorem first_measurement_kept :
    ¬ ∀ (as : List (Action Unit)) (s : State Unit), Run Step State.init as s →
      ∀ id m t bs u, pending s.calls id = some m → Step s (.complete () id) t →
        (∀ b ∈ bs, b.OfPush) → Run Step t bs u → u.callers () = .idle →
          m.messageId = id ∧ u.active id = none ∧ Submitted s u m := by
  intro hclaim
  have hstarted : Run Step State.init [.start () [] [], .insert ()]
      ((State.init.fetchId () [] []).insert () .blank) := .of_foldlM rfl
  have hgone := (hclaim _ _ hstarted 0 .blank _ [] _ rfl rfl (by simp) (.nil _) rfl).2.1
  exact absurd hgone (by simp [State.completeMeasurement, State.insert, LatencyMeasurement.blank])

end TickPlant.Latency
