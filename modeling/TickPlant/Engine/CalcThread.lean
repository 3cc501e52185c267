/-
# The calculation thread and its producers

The threads around the arbitrage engine: any number of producers that update a book, set
`books_dirty_` and notify; the calculation thread of `calculation_loop`; and one call of
`stop`.  A step is one atomic operation of one thread.  A book update and the copying of
all books of one map are single steps, since each runs under the lock of its map;
`cv_mutex_` is taken by the calculation thread only and never makes it wait.

`cv_.wait(lk, pred)` is the loop `while (!pred()) cv_.wait(lk)`: the two loads of the
predicate, the release of the mutex together with the block, and the return to the
predicate after a notification or spuriously.  `notify_one` wakes the calculation thread if
it is blocked at that moment and has no effect otherwise.

Beside the memory and the program counters, the state carries the history that the
properties speak of: the updates applied to each map, the updates whose flag store has been
executed, how many updates each map had received when the last completed calculation copied
it, and the clock and the orders of iteration of that calculation.
-/
import TickPlant.Engine.Arbitrage
import TickPlant.Lib.Run

namespace TickPlant.CalcThread

/-- An update, named by its place in the history of its map. -/
inductive Update
  | ws (i : ℕ)
  | fix (i : ℕ)
deriving DecidableEq, Repr

/-- The copy of a map made by a calculation, with the number of updates it contains. -/
structure Copy where
  books : BookMap
  updates : ℕ

/-- Where the calculation thread stands. -/
inductive CalcPc
  /-- Before `start()`. -/
  | unstarted
  /-- Before the test of `while (running_)`. -/
  | loopTest
  /-- In the predicate, before `books_dirty_.load()`. -/
  | testDirty
  /-- In the predicate, before `running_.load()`. -/
  | testRunning
  /-- The predicate was false; before the mutex is released and the thread blocks. -/
  | block
  /-- Blocked in `cv_.wait`. -/
  | blocked
  /-- The predicate was true; before `books_dirty_ = false`. -/
  | resetDirty
  /-- Before `if (!running_) break`. -/
  | testStop
  /-- In `calculate_arbitrage`, before the WebSocket books are copied. -/
  | readWs
  /-- Before the FIX books are copied. -/
  | readFix (ws : Copy)
  /-- Before `opportunities_` is assigned. -/
  | publish (ws fix : Copy)
  /-- Before the report at the end of the loop body. -/
  | report
  /-- The thread has ended. -/
  | done

/-- Where a producer stands. -/
inductive ProducerPc
  /-- Outside any call. -/
  | idle
  /-- The book is updated; before `books_dirty_ = true`. -/
  | storeDirty (u : Update)
  /-- Before `cv_.notify_one()`. -/
  | notify
deriving DecidableEq

/-- Where the call of `stop` stands. -/
inductive StopPc
  /-- Not called; before `running_ = false`. -/
  | idle
  /-- Before `books_dirty_ = true`. -/
  | storeDirty
  /-- Before `cv_.notify_one()`. -/
  | notify
  /-- Before `calculation_thread_.join()`. -/
  | join
  /-- The call has returned. -/
  | returned
deriving DecidableEq

/-- The engine, its threads and their history. -/
structure State (P : Type) where
  running : Bool
  booksDirty : Bool
  engine : ArbitrageEngine
  maxReports : ℤ
  reportCount : ℤ
  thread : CalcPc
  producers : P → ProducerPc
  stop : StopPc
  /-- The calls applied to the WebSocket books, with their clock readings. -/
  wsLog : List (ℕ × OrderBookSnapshot)
  /-- The calls applied to the FIX books, with their clock readings. -/
  fixLog : List (ℕ × FIXMessage)
  /-- The updates whose store of `books_dirty_` has been executed. -/
  flagged : List Update
  /-- How many updates the WebSocket books had received when the last completed
  calculation copied them. -/
  wsRead : ℕ
  /-- The same for the FIX books. -/
  fixRead : ℕ
  /-- The orders of iteration and the reading of the clock of that calculation. -/
  calculated : Option (ArbitrageEngine.MapOrders × ℕ)

/-- What may happen next. -/
inductive Action (P : Type)
  /-- `start()`. -/
  | start
  /-- Producer `p` calls `update_order_book`, which updates the book. -/
  | updateOrderBook (p : P) (nowNs : ℕ) (snap : OrderBookSnapshot)
  /-- Producer `p` calls `update_fix_data`, which updates the book. -/
  | updateFixData (p : P) (nowNs : ℕ) (msg : FIXMessage)
  /-- Producer `p` executes the next operation of its call. -/
  | producer (p : P)
  /-- The calculation thread executes its next operation.  A calculation depends on the
  clock and the orders of iteration, the end of the loop body on whether a report is due. -/
  | thread (orders : ArbitrageEngine.MapOrders) (nowMs : ℕ) (reportDue : Bool)
  /-- The wait ends without a notification. -/
  | spuriousWake
  /-- The call of `stop` executes its next operation. -/
  | stop

variable {P : Type} [DecidableEq P]

namespace State

/-- The engine as configured before `start()`. -/
def init (tickLogger : Bool) (minProfitBps : ℚ) (maxReports : ℤ) : State P where
  running := false
  booksDirty := false
  engine := { ArbitrageEngine.new tickLogger with minProfitBps := minProfitBps }
  maxReports := maxReports
  reportCount := 0
  thread := .unstarted
  producers := fun _ => .idle
  stop := .idle
  wsLog := []
  fixLog := []
  flagged := []
  wsRead := 0
  fixRead := 0
  calculated := none

/-- `cv_.notify_one()`: the calculation thread re-evaluates its predicate if it is blocked. -/
def notifyOne (s : State P) : State P :=
  match s.thread with
  | .blocked => { s with thread := .testDirty }
  | _ => s

/-- The program counter of one producer. -/
def setProducer (s : State P) (p : P) (pc : ProducerPc) : State P :=
  { s with producers := Function.update s.producers p pc }

/-- The update of a WebSocket book. -/
def applyWs (s : State P) (p : P) (nowNs : ℕ) (snap : OrderBookSnapshot) : State P :=
  { s with
    engine := (s.engine.updateOrderBook nowNs snap).1
    producers := Function.update s.producers p (.storeDirty (.ws s.wsLog.length))
    wsLog := s.wsLog ++ [(nowNs, snap)] }

/-- The update of a FIX book. -/
def applyFix (s : State P) (p : P) (nowNs : ℕ) (msg : FIXMessage) : State P :=
  { s with
    engine := s.engine.updateFixData nowNs msg
    producers := Function.update s.producers p (.storeDirty (.fix s.fixLog.length))
    fixLog := s.fixLog ++ [(nowNs, msg)] }

/-- `books_dirty_ = true` by a producer. -/
def flag (s : State P) (p : P) (u : Update) : State P :=
  { s with
    booksDirty := true
    producers := Function.update s.producers p .notify
    flagged := u :: s.flagged }

/-- The assignment of `opportunities_` at the end of a calculation. -/
def publish (s : State P) (orders : ArbitrageEngine.MapOrders) (nowMs : ℕ) (ws fix : Copy) :
    State P :=
  let result := { s.engine with wsBooks := ws.books, fixBooks := fix.books }.calculateArbitrage
    orders nowMs
  { s with
    engine := { s.engine with
      opportunities := result.opportunities
      calculationCount := result.calculationCount
      opportunityCount := result.opportunityCount }
    thread := .report
    wsRead := ws.updates
    fixRead := fix.updates
    calculated := some (orders, nowMs) }

/-- The report at the end of the loop body: when the last one is due, the thread ends. -/
def endOfBody (s : State P) (reportDue : Bool) : State P :=
  if reportDue then
    let s := { s with reportCount := s.reportCount + 1 }
    if s.maxReports > 0 ∧ s.reportCount ≥ s.maxReports then
      { s with running := false, thread := .done }
    else { s with thread := .loopTest }
  else { s with thread := .loopTest }

end State

/-! ## The steps -/

/-- One operation of `calculation_loop`. -/
def stepCalc (orders : ArbitrageEngine.MapOrders) (nowMs : ℕ) (reportDue : Bool) (s : State P) :
    Option (State P) :=
  match s.thread with
  | .unstarted | .blocked | .done => none
  | .loopTest => some { s with thread := if s.running then .testDirty else .done }
  | .testDirty => some { s with thread := if s.booksDirty then .resetDirty else .testRunning }
  | .testRunning => some { s with thread := if s.running then .block else .resetDirty }
  | .block => some { s with thread := .blocked }
  | .resetDirty => some { s with booksDirty := false, thread := .testStop }
  | .testStop => some { s with thread := if s.running then .readWs else .done }
  | .readWs => some { s with thread := .readFix ⟨s.engine.wsBooks, s.wsLog.length⟩ }
  | .readFix ws => some { s with thread := .publish ws ⟨s.engine.fixBooks, s.fixLog.length⟩ }
  | .publish ws fix => some (s.publish orders nowMs ws fix)
  | .report => some (s.endOfBody reportDue)

/-- One operation of a producer, after its book has been updated. -/
def stepProducer (p : P) (s : State P) : Option (State P) :=
  match s.producers p with
  | .idle => none
  | .storeDirty u => some (s.flag p u)
  | .notify => some (s.notifyOne.setProducer p .idle)

/-- One operation of `ArbitrageEngine::stop`. -/
def stepStop (s : State P) : Option (State P) :=
  match s.stop with
  | .idle => some { s with running := false, stop := .storeDirty }
  | .storeDirty => some { s with booksDirty := true, stop := .notify }
  | .notify => some { s.notifyOne with stop := .join }
  | .join =>
    match s.thread with
    | .unstarted | .done => some { s with stop := .returned }
    | _ => none
  | .returned => none

/-- One step of the system; `none` when the action is not possible. -/
def step (s : State P) : Action P → Option (State P)
  | .start =>
    match s.thread with
    | .unstarted => if s.running then none else some { s with running := true, thread := .loopTest }
    | _ => none
  | .updateOrderBook p nowNs snap =>
    match s.producers p with
    | .idle => some (s.applyWs p nowNs snap)
    | _ => none
  | .updateFixData p nowNs msg =>
    match s.producers p with
    -- other messages are dropped before any book is touched
    | .idle => some (if msg.isMarketData then s.applyFix p nowNs msg else s)
    | _ => none
  | .producer p => stepProducer p s
  | .thread orders nowMs reportDue => stepCalc orders nowMs reportDue s
  | .spuriousWake =>
    match s.thread with
    | .blocked => some { s with thread := .testDirty }
    | _ => none
  | .stop => stepStop s

/-- `step` as a transition relation. -/
def Step (s : State P) (a : Action P) (t : State P) : Prop := step s a = some t

/-- What one step does; a step of the calculation thread is left to `stepCalc`. -/
inductive Move (s : State P) : Action P → State P → Prop
  | start (hpc : s.thread = .unstarted) (hrun : s.running = false) :
      Move s .start { s with running := true, thread := .loopTest }
  | applyWs {p : P} {nowNs : ℕ} {snap : OrderBookSnapshot} (hidle : s.producers p = .idle) :
      Move s (.updateOrderBook p nowNs snap) (s.applyWs p nowNs snap)
  | applyFix {p : P} {nowNs : ℕ} {msg : FIXMessage} (hidle : s.producers p = .idle)
      (hmd : msg.isMarketData = true) : Move s (.updateFixData p nowNs msg) (s.applyFix p nowNs msg)
  | dropFix {p : P} {nowNs : ℕ} {msg : FIXMessage} (hidle : s.producers p = .idle)
      (hmd : msg.isMarketData = false) : Move s (.updateFixData p nowNs msg) s
  | flag {p : P} {u : Update} (hpc : s.producers p = .storeDirty u) :
      Move s (.producer p) (s.flag p u)
  | notify {p : P} (hpc : s.producers p = .notify) :
      Move s (.producer p) (s.notifyOne.setProducer p .idle)
  | thread {orders : ArbitrageEngine.MapOrders} {nowMs : ℕ} {reportDue : Bool} {t : State P}
      (hs : stepCalc orders nowMs reportDue s = some t) : Move s (.thread orders nowMs reportDue) t
  | spuriousWake (hpc : s.thread = .blocked) :
      Move s .spuriousWake { s with thread := .testDirty }
  | stopRunning (hpc : s.stop = .idle) :
      Move s .stop { s with running := false, stop := .storeDirty }
  | stopDirty (hpc : s.stop = .storeDirty) :
      Move s .stop { s with booksDirty := true, stop := .notify }
  | stopNotify (hpc : s.stop = .notify) : Move s .stop { s.notifyOne with stop := .join }
  | stopJoin (hpc : s.stop = .join) (hend : s.thread = .unstarted ∨ s.thread = .done) :
      Move s .stop { s with stop := .returned }

/-- Every step is one of the moves. -/
lemma move_of_step {s t : State P} {a : Action P} (hs : Step s a t) : Move s a t := by
  cases a with
  | start =>
    simp only [Step, step] at hs
    split at hs
    · rename_i hpc
      split at hs
      · exact absurd hs (by simp)
      · rename_i hrun
        obtain rfl := Option.some.inj hs
        exact .start hpc (Bool.eq_false_iff.mpr hrun)
    · exact absurd hs (by simp)
  | updateOrderBook p nowNs snap =>
    simp only [Step, step] at hs
    split at hs
    · rename_i hidle
      obtain rfl := Option.some.inj hs
      exact .applyWs hidle
    · exact absurd hs (by simp)
  | updateFixData p nowNs msg =>
    simp only [Step, step] at hs
    split at hs
    · rename_i hidle
      obtain rfl := Option.some.inj hs
      split
      · rename_i hmd
        exact .applyFix hidle hmd
      · rename_i hmd
        exact .dropFix hidle (Bool.eq_false_iff.mpr hmd)
    · exact absurd hs (by simp)
  | producer p =>
    simp only [Step, step, stepProducer] at hs
    split at hs
    · exact absurd hs (by simp)
    · rename_i u hpc
      obtain rfl := Option.some.inj hs
      exact .flag hpc
    · rename_i hpc
      obtain rfl := Option.some.inj hs
      exact .notify hpc
  | thread orders nowMs reportDue => exact .thread hs
  | spuriousWake =>
    simp only [Step, step] at hs
    split at hs
    · rename_i hpc
      obtain rfl := Option.some.inj hs
      exact .spuriousWake hpc
    · exact absurd hs (by simp)
  | stop =>
    simp only [Step, step, stepStop] at hs
    split at hs
    · rename_i hpc
      obtain rfl := Option.some.inj hs
      exact .stopRunning hpc
    · rename_i hpc
      obtain rfl := Option.some.inj hs
      exact .stopDirty hpc
    · rename_i hpc
      obtain rfl := Option.some.inj hs
      exact .stopNotify hpc
    · rename_i hpc
      split at hs
      · rename_i hend
        obtain rfl := Option.some.inj hs
        exact .stopJoin hpc (Or.inl hend)
      · rename_i hend
        obtain rfl := Option.some.inj hs
        exact .stopJoin hpc (Or.inr hend)
      · exact absurd hs (by simp)
    · exact absurd hs (by simp)

end TickPlant.CalcThread
