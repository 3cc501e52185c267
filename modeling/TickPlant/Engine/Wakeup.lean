/-
# Flags, notifications and the calculation

Two questions about the hand-over between the producers and the calculation thread.

*Is every update seen?*  Yes: when the thread is back at its wait with `books_dirty_` clear,
every update that has set the flag had been applied when the last calculation copied its
map.  The flag is cleared before the maps are copied, so an update flagged too late to be
copied leaves the flag set.

*Is every wake-up delivered?*  No: the flag is stored and the condition variable notified
without `cv_mutex_`, so both can fall between the evaluation of the predicate and the block.
The notification is then lost and the thread sleeps on a set flag; when it was the one of
`stop`, the join never returns.  This is the only way: without a notification in that window
the thread never sleeps on a set flag unless a notification is still to come.
-/
import TickPlant.Engine.CalcThread

namespace TickPlant.CalcThread

open Lib

variable {P : Type}

/-! ## Lost notifications -/

/-- Some thread has set a flag and not yet executed its `notify_one`. -/
def Pending (s : State P) : Prop :=
  (∃ p, s.producers p = .notify) ∨ s.stop = .storeDirty ∨ s.stop = .notify

/-- The calculation thread sleeps, or is about to, although a flag is set. -/
def Oversleeps (s : State P) : Prop :=
  (s.thread = .testRunning ∧ s.booksDirty = true ∧ s.running = true) ∨
    ((s.thread = .block ∨ s.thread = .blocked) ∧ (s.booksDirty = true ∨ s.running = false))

/-- The calculation thread is blocked although a flag is set, and every thread that has set
a flag has executed its `notify_one`. -/
def Stuck (s : State P) : Prop :=
  s.thread = .blocked ∧ (s.booksDirty = true ∨ s.running = false) ∧ ¬ Pending s

/-- The action executes `notify_one`. -/
def Notifies (s : State P) : Action P → Prop
  | .producer p => s.producers p = .notify
  | .stop => s.stop = .notify
  | _ => False

/-- The action executes `notify_one` while a flag is set and the calculation thread stands
between the load of `books_dirty_` in its predicate and its block. -/
def LosesWakeup (s : State P) (a : Action P) : Prop :=
  Notifies s a ∧ Oversleeps s ∧ s.thread ≠ .blocked

section Delivery

variable [DecidableEq P]

/-- A step that loses no notification. -/
def DeliveringStep (s : State P) (a : Action P) (t : State P) : Prop :=
  Step s a t ∧ ¬ LosesWakeup s a

omit [DecidableEq P] in
lemma not_oversleeps {s : State P} (h1 : s.thread ≠ .testRunning) (h2 : s.thread ≠ .block)
    (h3 : s.thread ≠ .blocked) : ¬ Oversleeps s := by
  rintro (⟨h, -⟩ | ⟨h | h, -⟩)
  · exact h1 h
  · exact h2 h
  · exact h3 h

omit [DecidableEq P] in
/-- A notification either wakes the thread or finds it awake. -/
lemma oversleeps_notifyOne {s : State P} (h : Oversleeps s.notifyOne) :
    Oversleeps s ∧ s.thread ≠ .blocked := by
  by_cases hb : s.thread = .blocked
  · rw [State.notifyOne, hb] at h
    exact absurd h (not_oversleeps (by simp) (by simp) (by simp))
  · have : s.notifyOne = s := by
      rw [State.notifyOne]
      split
      · rename_i hb'; exact absurd hb' hb
      · rfl
    rw [this] at h
    exact ⟨h, hb⟩

/-- Starting a call does not take a pending notification away. -/
lemma pending_update {s t : State P} {p : P} {pc : ProducerPc} (hidle : s.producers p = .idle)
    (hprod : t.producers = Function.update s.producers p pc) (hstop : t.stop = s.stop)
    (h : Pending s) : Pending t := by
  rcases h with ⟨q, hq⟩ | h | h
  · have hne : q ≠ p := by
      rintro rfl
      rw [hidle] at hq
      exact absurd hq (by simp)
    exact Or.inl ⟨q, by rw [hprod, Function.update_of_ne hne]; exact hq⟩
  · exact Or.inr (Or.inl (hstop.trans h))
  · exact Or.inr (Or.inr (hstop.trans h))

omit [DecidableEq P] in
/-- The calculation thread goes to sleep on a clear flag only. -/
lemma oversleeps_stepCalc {s t : State P} {orders : ArbitrageEngine.MapOrders} {nowMs : ℕ}
    {reportDue : Bool} (hs : stepCalc orders nowMs reportDue s = some t) (h : Oversleeps t) :
    Oversleeps s ∧ t.producers = s.producers ∧ t.stop = s.stop := by
  rw [stepCalc] at hs
  cases hpc : s.thread with
  | testDirty =>
    rw [hpc] at hs
    obtain rfl := Option.some.inj hs
    cases hd : s.booksDirty <;> simp [Oversleeps, hd] at h
  | testRunning =>
    rw [hpc] at hs
    obtain rfl := Option.some.inj hs
    cases hr : s.running
    · simp [Oversleeps, hr] at h
    · -- `books_dirty_` has been set since it was loaded
      simp [Oversleeps, hr] at h
      exact ⟨Or.inl ⟨hpc, h, hr⟩, rfl, rfl⟩
  | block =>
    rw [hpc] at hs
    obtain rfl := Option.some.inj hs
    simp only [Oversleeps, reduceCtorEq, false_and, false_or, or_true, true_and] at h
    exact ⟨Or.inr ⟨Or.inl hpc, h⟩, rfl, rfl⟩
  | loopTest =>
    rw [hpc] at hs
    obtain rfl := Option.some.inj hs
    cases hr : s.running <;> simp [Oversleeps, hr] at h
  | testStop =>
    rw [hpc] at hs
    obtain rfl := Option.some.inj hs
    cases hr : s.running <;> simp [Oversleeps, hr] at h
  | report =>
    rw [hpc] at hs
    obtain rfl := Option.some.inj hs
    rw [State.endOfBody] at h
    split at h
    · dsimp only at h
      split at h <;> simp [Oversleeps] at h
    · simp [Oversleeps] at h
  | unstarted => rw [hpc] at hs; exact absurd hs (by simp)
  | blocked => rw [hpc] at hs; exact absurd hs (by simp)
  | done => rw [hpc] at hs; exact absurd hs (by simp)
  | _ =>
    rw [hpc] at hs
    obtain rfl := Option.some.inj hs
    simp [Oversleeps, State.publish] at h

/-- **A step that loses no notification keeps one pending** whenever the calculation thread
sleeps on a set flag. -/
lemma pending_step {s t : State P} {a : Action P} (h : Oversleeps s → Pending s)
    (hs : DeliveringStep s a t) : Oversleeps t → Pending t := by
  obtain ⟨hs, hdel⟩ := hs
  intro ht
  cases move_of_step hs with
  | start => exact absurd ht (not_oversleeps (by simp) (by simp) (by simp))
  | applyWs hidle => exact pending_update hidle rfl rfl (h ht)
  | applyFix hidle => exact pending_update hidle rfl rfl (h ht)
  | dropFix => exact h ht
  | @flag p => exact Or.inl ⟨p, Function.update_self ..⟩
  -- a notification that leaves the thread oversleeping has fallen into the window
  | notify hpc => exact absurd ⟨hpc, oversleeps_notifyOne (s := s) ht⟩ hdel
  | thread hs =>
    obtain ⟨hs', hprod, hstop⟩ := oversleeps_stepCalc hs ht
    rw [Pending, hprod, hstop]
    exact h hs'
  | spuriousWake => exact absurd ht (not_oversleeps (by simp) (by simp) (by simp))
  | stopRunning => exact Or.inr (Or.inl rfl)
  | stopDirty => exact Or.inr (Or.inr rfl)
  | stopNotify hpc => exact absurd ⟨hpc, oversleeps_notifyOne (s := s) ht⟩ hdel
  | stopJoin hpc hend =>
    -- the join returns only from a thread that was never started or has ended
    rcases hend with hend | hend
    · exact absurd ht (not_oversleeps (by simp [hend]) (by simp [hend]) (by simp [hend]))
    · exact absurd ht (not_oversleeps (by simp [hend]) (by simp [hend]) (by simp [hend]))

/-- **No wake-up is lost outside the window.**  In every run in which no `notify_one` falls,
with a flag set, between the evaluation of the predicate and the block, the calculation
thread is never left blocked on a set flag with all notifications spent. -/
theorem no_wakeup_lost (tickLogger : Bool) (minProfitBps : ℚ) (maxReports : ℤ)
    (as : List (Action P)) (s : State P)
    (hrun : Run DeliveringStep (State.init tickLogger minProfitBps maxReports) as s) :
    ¬ Stuck s := by
  have hinv : Oversleeps s → Pending s := by
    refine hrun.invariant (I := fun s => Oversleeps s → Pending s) ?_ ?_
    · exact fun h => absurd h (not_oversleeps (by simp [State.init]) (by simp [State.init])
        (by simp [State.init]))
    · intro a l b h hs
      exact pending_step h hs
  rintro ⟨hblocked, hflag, hpending⟩
  exact hpending (hinv (Or.inr ⟨Or.inr hblocked, hflag⟩))

/-- Some order of iteration: the one of the entries. -/
def entryOrders : ArbitrageEngine.MapOrders :=
  ⟨.entries, .entries, .entries⟩

/-- One operation of the calculation thread, with no report due. -/
def tick : Action Unit := .thread entryOrders 0 false

/-- The batch without any level. -/
def emptyBatch : OrderBookSnapshot := ⟨bytes "BTCUSDT", bytes "Binance", 0, false, [], []⟩

/-- A producer updates a book, sets the flag and notifies while the thread is blocked. -/
theorem no_wakeup_lost_of_blocked : ∃ s : State Unit,
    Run DeliveringStep (State.init false 5 0)
      [.start, tick, tick, tick, tick, .updateOrderBook () 0 emptyBatch, .producer (),
        .producer ()] s ∧ s.booksDirty = true ∧ ¬ Stuck s := by
  have hrun : ∃ s : State Unit, Run DeliveringStep (State.init false 5 0)
      [.start, tick, tick, tick, tick, .updateOrderBook () 0 emptyBatch, .producer (),
        .producer ()] s ∧ s.booksDirty = true := by
    refine ⟨_, .cons ⟨rfl, ?_⟩ (.cons ⟨rfl, ?_⟩ (.cons ⟨rfl, ?_⟩ (.cons ⟨rfl, ?_⟩
      (.cons ⟨rfl, ?_⟩ (.cons ⟨rfl, ?_⟩ (.cons ⟨rfl, ?_⟩ (.single ⟨rfl, ?_⟩))))))), rfl⟩
    all_goals rintro ⟨hnotifies, -, hawake⟩
    all_goals first | exact hnotifies.elim | exact hawake rfl
  obtain ⟨s, hs, hd⟩ := hrun
  exact ⟨s, hs, hd, no_wakeup_lost false 5 0 _ s hs⟩

/-- The thread sleeps after all three operations of `stop` fell between the evaluation of
the predicate and the block. -/
def sleeping : State Unit :=
  { State.init false 5 0 with
    running := false
    booksDirty := true
    thread := .blocked
    stop := .join }

/-- The engine is started and stopped at once; the thread is blocked for ever, and `stop`
waits for it to end. -/
theorem stop_joins_sleeping_thread : ∃ (as : List (Action Unit)) (s : State Unit),
    Run Step (State.init false 5 0) as s ∧ Stuck s ∧ s.stop = .join := by
  refine ⟨[.start, tick, tick, tick, .stop, .stop, .stop, tick], sleeping, .of_foldlM rfl,
    ⟨rfl, Or.inl rfl, ?_⟩, rfl⟩
  rintro (⟨p, hp⟩ | h | h)
  · exact absurd hp (by simp [sleeping, State.init])
  · exact absurd h (by simp [sleeping])
  · exact absurd h (by simp [sleeping])

end Delivery

/-! ## No update is skipped -/

/-- The update is among the first `ws` or the first `fix` of its map. -/
def Update.Within (ws fix : ℕ) : Update → Prop
  | .ws i => i < ws
  | .fix i => i < fix

/-- What the flag says about an update once it is clear: the update is in the copies of the
last calculation, or the running calculation has it or will have it. -/
def Accounted (s : State P) (u : Update) : Prop :=
  match s.thread with
  | .testStop | .readWs | .done => True
  | .readFix ws => u.Within ws.updates s.fixLog.length
  | .publish ws fix => u.Within ws.updates fix.updates
  | _ => u.Within s.wsRead s.fixRead

/-- The WebSocket books after a sequence of calls. -/
def wsAfter (calls : List (ℕ × OrderBookSnapshot)) : BookMap :=
  (ArbitrageEngine.runUpdates calls (.new false)).wsBooks

/-- The FIX books after a sequence of calls. -/
def fixAfter (calls : List (ℕ × FIXMessage)) : BookMap :=
  (calls.foldl (fun e c => e.updateFixData c.1 c.2) (ArbitrageEngine.new false)).fixBooks

/-- The opportunities between the books of two maps. -/
def opportunitiesOf (minProfitBps : ℚ) (orders : ArbitrageEngine.MapOrders) (nowMs : ℕ)
    (ws fix : BookMap) : List ArbitrageOpportunity :=
  ({ ArbitrageEngine.new false with
    wsBooks := ws, fixBooks := fix, minProfitBps := minProfitBps }.calculateArbitrage
      orders nowMs).opportunities

/-- The published opportunities are those of the books after the first `wsRead` and `fixRead`
updates, at the clock reading and in the orders of iteration of the step that published them;
before the first calculation there are none. -/
def PublishedFrom (s : State P) : Prop :=
  match s.calculated with
  | none => s.engine.opportunities = [] ∧ s.wsRead = 0 ∧ s.fixRead = 0
  | some (orders, nowMs) => s.engine.opportunities =
      opportunitiesOf s.engine.minProfitBps orders nowMs (wsAfter (s.wsLog.take s.wsRead))
        (fixAfter (s.fixLog.take s.fixRead))

/-- The copy has the WebSocket books as they were after its updates. -/
def WsCopy (s : State P) (c : Copy) : Prop :=
  c.updates ≤ s.wsLog.length ∧ c.books = wsAfter (s.wsLog.take c.updates)

/-- The copy has the FIX books as they were after its updates. -/
def FixCopy (s : State P) (c : Copy) : Prop :=
  c.updates ≤ s.fixLog.length ∧ c.books = fixAfter (s.fixLog.take c.updates)

/-- The copies that the running calculation holds are copies of the books. -/
def Copies (s : State P) : Prop :=
  match s.thread with
  | .readFix ws => WsCopy s ws
  | .publish ws fix => WsCopy s ws ∧ FixCopy s fix
  | _ => True

/-- The invariant of the hand-over. -/
structure Inv (s : State P) : Prop where
  /-- An update is applied before its flag is stored. -/
  storing : ∀ p u, s.producers p = .storeDirty u → u.Within s.wsLog.length s.fixLog.length
  applied : ∀ u ∈ s.flagged, u.Within s.wsLog.length s.fixLog.length
  accounted : s.booksDirty = false → ∀ u ∈ s.flagged, Accounted s u
  ws_books : s.engine.wsBooks = wsAfter s.wsLog
  fix_books : s.engine.fixBooks = fixAfter s.fixLog
  ws_read : s.wsRead ≤ s.wsLog.length
  fix_read : s.fixRead ≤ s.fixLog.length
  copies : Copies s
  published : PublishedFrom s

lemma inv_init (tickLogger : Bool) (minProfitBps : ℚ) (maxReports : ℤ) :
    Inv (State.init tickLogger minProfitBps maxReports : State P) where
  storing := fun _ _ h => absurd h (by simp [State.init])
  applied := fun _ h => absurd h (by simp [State.init])
  accounted := fun _ _ h => absurd h (by simp [State.init])
  ws_books := rfl
  fix_books := rfl
  ws_read := le_rfl
  fix_read := le_rfl
  copies := trivial
  published := ⟨rfl, rfl, rfl⟩

lemma Update.Within.mono {u : Update} {m n m' n' : ℕ} (h : u.Within m n) (hm : m ≤ m')
    (hn : n ≤ n') : u.Within m' n' := by
  cases u with
  | ws i => exact lt_of_lt_of_le h hm
  | fix i => exact lt_of_lt_of_le h hn

/-- The calculation thread stands outside a calculation and has not ended. -/
def Resting : CalcPc → Prop
  | .testStop | .readWs | .readFix _ | .publish _ _ | .done => False
  | _ => True

lemma accounted_of_resting {s : State P} (h : Resting s.thread) (u : Update) :
    Accounted s u ↔ u.Within s.wsRead s.fixRead := by
  cases hpc : s.thread <;> simp_all [Accounted, Resting]

lemma copies_of_resting {s : State P} (h : Resting s.thread) : Copies s := by
  cases hpc : s.thread <;> simp_all [Copies, Resting]

/-- A step that touches neither books, history nor opportunities, sets no flag back, and
leaves the calculation thread where it is, ends it or moves it outside a calculation. -/
lemma Inv.quiet {s t : State P} (h : Inv s) (hengine : t.engine = s.engine)
    (hws : t.wsLog = s.wsLog) (hfix : t.fixLog = s.fixLog) (hflagged : t.flagged = s.flagged)
    (hwsRead : t.wsRead = s.wsRead) (hfixRead : t.fixRead = s.fixRead)
    (hcalculated : t.calculated = s.calculated)
    (hprod : ∀ p u, t.producers p = .storeDirty u → s.producers p = .storeDirty u)
    (hdirty : t.booksDirty = false → s.booksDirty = false)
    (hthread : t.thread = s.thread ∨ t.thread = .done ∨ (Resting s.thread ∧ Resting t.thread)) :
    Inv t := by
  refine ⟨?_, ?_, ?_, ?_, ?_, ?_, ?_, ?_, ?_⟩
  · intro p u hu
    rw [hws, hfix]
    exact h.storing p u (hprod p u hu)
  · intro u hu
    rw [hws, hfix]
    exact h.applied u (hflagged ▸ hu)
  · intro hd u hu
    have hacc := h.accounted (hdirty hd) u (hflagged ▸ hu)
    rcases hthread with hsame | hdone | ⟨hs, ht⟩
    · rw [Accounted, hsame, hwsRead, hfixRead, hfix]
      exact hacc
    · rw [Accounted, hdone]
      trivial
    · rw [accounted_of_resting ht, hwsRead, hfixRead]
      exact (accounted_of_resting hs u).mp hacc
  · rw [hengine, hws]; exact h.ws_books
  · rw [hengine, hfix]; exact h.fix_books
  · rw [hwsRead, hws]; exact h.ws_read
  · rw [hfixRead, hfix]; exact h.fix_read
  · rcases hthread with hsame | hdone | ⟨-, ht⟩
    · have := h.copies
      simp only [Copies, WsCopy, FixCopy, hsame, hws, hfix] at this ⊢
      exact this
    · rw [Copies, hdone]
      trivial
    · exact copies_of_resting ht
  · rw [PublishedFrom, hcalculated, hengine, hws, hfix, hwsRead, hfixRead]
    exact h.published

/-- Updates applied later do not change what was copied. -/
lemma copies_append {s t : State P} {ws : List (ℕ × OrderBookSnapshot)}
    {fix : List (ℕ × FIXMessage)} (hws : t.wsLog = s.wsLog ++ ws)
    (hfix : t.fixLog = s.fixLog ++ fix) (hthread : t.thread = s.thread) (h : Copies s) :
    Copies t := by
  have hwsCopy : ∀ c, WsCopy s c → WsCopy t c := by
    rintro c ⟨hle, hbooks⟩
    refine ⟨by rw [hws, List.length_append]; omega, ?_⟩
    rw [hws, List.take_append_of_le_length hle]
    exact hbooks
  have hfixCopy : ∀ c, FixCopy s c → FixCopy t c := by
    rintro c ⟨hle, hbooks⟩
    refine ⟨by rw [hfix, List.length_append]; omega, ?_⟩
    rw [hfix, List.take_append_of_le_length hle]
    exact hbooks
  rw [Copies] at h ⊢
  rw [hthread]
  cases hpc : s.thread with
  | readFix ws => rw [hpc] at h; exact hwsCopy ws h
  | publish ws fix => rw [hpc] at h; exact ⟨hwsCopy ws h.1, hfixCopy fix h.2⟩
  | _ => trivial

/-- A call that has updated its book, and not yet set the flag, keeps the invariant. -/
lemma Inv.apply {s t : State P} [DecidableEq P] {p : P} {u : Update} (h : Inv s)
    (ws : List (ℕ × OrderBookSnapshot)) (fix : List (ℕ × FIXMessage))
    (hws : t.wsLog = s.wsLog ++ ws) (hfix : t.fixLog = s.fixLog ++ fix)
    (hprod : t.producers = Function.update s.producers p (.storeDirty u))
    (hu : u.Within t.wsLog.length t.fixLog.length)
    (hdirty : t.booksDirty = s.booksDirty) (hthread : t.thread = s.thread)
    (hflagged : t.flagged = s.flagged) (hwsRead : t.wsRead = s.wsRead)
    (hfixRead : t.fixRead = s.fixRead) (hcalculated : t.calculated = s.calculated)
    (hwsBooks : t.engine.wsBooks = wsAfter t.wsLog)
    (hfixBooks : t.engine.fixBooks = fixAfter t.fixLog)
    (hopp : t.engine.opportunities = s.engine.opportunities)
    (hmin : t.engine.minProfitBps = s.engine.minProfitBps) : Inv t := by
  have hwsLen : s.wsLog.length ≤ t.wsLog.length := by rw [hws, List.length_append]; omega
  have hfixLen : s.fixLog.length ≤ t.fixLog.length := by rw [hfix, List.length_append]; omega
  refine ⟨?_, ?_, ?_, hwsBooks, hfixBooks, ?_, ?_, copies_append hws hfix hthread h.copies, ?_⟩
  · intro q v hv
    by_cases hq : q = p
    · rw [hprod, hq, Function.update_self, ProducerPc.storeDirty.injEq] at hv
      rw [← hv]
      exact hu
    · rw [hprod, Function.update_of_ne hq] at hv
      exact (h.storing q v hv).mono hwsLen hfixLen
  · intro v hv
    exact (h.applied v (hflagged ▸ hv)).mono hwsLen hfixLen
  · intro hd v hv
    have hacc := h.accounted (hdirty ▸ hd) v (hflagged ▸ hv)
    rw [Accounted] at hacc ⊢
    rw [hthread, hwsRead, hfixRead]
    cases hpc : s.thread with
    -- only the bound for the FIX books, which are still to be copied, has grown
    | readFix c => rw [hpc] at hacc; exact Update.Within.mono hacc le_rfl hfixLen
    | _ => rw [hpc] at hacc; exact hacc
  · rw [hwsRead]; exact h.ws_read.trans hwsLen
  · rw [hfixRead]; exact h.fix_read.trans hfixLen
  · rw [PublishedFrom, hcalculated, hopp, hmin, hwsRead, hfixRead, hws, hfix,
      List.take_append_of_le_length h.ws_read, List.take_append_of_le_length h.fix_read]
    exact h.published

lemma wsAfter_concat (e : ArbitrageEngine) (calls : List (ℕ × OrderBookSnapshot)) (nowNs : ℕ)
    (snap : OrderBookSnapshot) (h : e.wsBooks = wsAfter calls) :
    (e.updateOrderBook nowNs snap).1.wsBooks = wsAfter (calls ++ [(nowNs, snap)]) := by
  rw [wsAfter, ArbitrageEngine.runUpdates, List.foldl_append]
  simp only [List.foldl_cons, List.foldl_nil, ArbitrageEngine.updateOrderBook]
  rw [h]
  rfl

lemma fixAfter_concat (e : ArbitrageEngine) (calls : List (ℕ × FIXMessage)) (nowNs : ℕ)
    (msg : FIXMessage) (h : e.fixBooks = fixAfter calls) :
    (e.updateFixData nowNs msg).fixBooks = fixAfter (calls ++ [(nowNs, msg)]) := by
  rw [fixAfter, List.foldl_append]
  simp only [List.foldl_cons, List.foldl_nil, ArbitrageEngine.updateFixData]
  rw [h]
  split
  · rfl
  · exact h

/-- `update_fix_data` touches only the FIX books. -/
lemma updateFixData_other (e : ArbitrageEngine) (nowNs : ℕ) (msg : FIXMessage) :
    (e.updateFixData nowNs msg).wsBooks = e.wsBooks ∧
      (e.updateFixData nowNs msg).opportunities = e.opportunities ∧
      (e.updateFixData nowNs msg).minProfitBps = e.minProfitBps := by
  rw [ArbitrageEngine.updateFixData]
  split
  · exact ⟨rfl, rfl, rfl⟩
  · exact ⟨rfl, rfl, rfl⟩

/-- A step of the calculation thread keeps the invariant. -/
lemma inv_stepCalc {s t : State P} {orders : ArbitrageEngine.MapOrders} {nowMs : ℕ}
    {reportDue : Bool} (h : Inv s) (hs : stepCalc orders nowMs reportDue s = some t) : Inv t := by
  have hcopies := h.copies
  have hacc := h.accounted
  rw [stepCalc] at hs
  cases hpc : s.thread with
  | unstarted => rw [hpc] at hs; exact absurd hs (by simp)
  | blocked => rw [hpc] at hs; exact absurd hs (by simp)
  | done => rw [hpc] at hs; exact absurd hs (by simp)
  | loopTest =>
    rw [hpc] at hs
    obtain rfl := Option.some.inj hs
    refine h.quiet rfl rfl rfl rfl rfl rfl rfl (fun _ _ hu => hu) id (Or.inr ?_)
    cases s.running
    · exact Or.inl rfl
    · exact Or.inr ⟨by rw [hpc]; trivial, trivial⟩
  | testDirty =>
    rw [hpc] at hs
    obtain rfl := Option.some.inj hs
    refine h.quiet rfl rfl rfl rfl rfl rfl rfl (fun _ _ hu => hu) id
      (Or.inr (Or.inr ⟨by rw [hpc]; trivial, ?_⟩))
    cases hd : s.booksDirty <;> simp [Resting]
  | testRunning =>
    rw [hpc] at hs
    obtain rfl := Option.some.inj hs
    refine h.quiet rfl rfl rfl rfl rfl rfl rfl (fun _ _ hu => hu) id
      (Or.inr (Or.inr ⟨by rw [hpc]; trivial, ?_⟩))
    cases hr : s.running <;> simp [Resting]
  | block =>
    rw [hpc] at hs
    obtain rfl := Option.some.inj hs
    exact h.quiet rfl rfl rfl rfl rfl rfl rfl (fun _ _ hu => hu) id
      (Or.inr (Or.inr ⟨by rw [hpc]; trivial, trivial⟩))
  | resetDirty =>
    -- the maps are copied after this store, with everything flagged before it
    rw [hpc] at hs
    obtain rfl := Option.some.inj hs
    exact ⟨h.storing, h.applied, fun _ _ _ => trivial, h.ws_books, h.fix_books, h.ws_read,
      h.fix_read, trivial, h.published⟩
  | testStop =>
    rw [hpc] at hs
    obtain rfl := Option.some.inj hs
    refine ⟨h.storing, h.applied, fun _ _ _ => ?_, h.ws_books, h.fix_books, h.ws_read,
      h.fix_read, ?_, h.published⟩
    · cases hr : s.running <;> simp [Accounted]
    · cases hr : s.running <;> simp [Copies]
  | readWs =>
    -- every flagged update has been applied, so the copy has it
    rw [hpc] at hs
    obtain rfl := Option.some.inj hs
    refine ⟨h.storing, h.applied, fun _ u hu => h.applied u hu, h.ws_books, h.fix_books, h.ws_read,
      h.fix_read, ⟨le_rfl, ?_⟩, h.published⟩
    show s.engine.wsBooks = wsAfter (s.wsLog.take s.wsLog.length)
    rw [List.take_length]
    exact h.ws_books
  | readFix ws =>
    rw [Copies, hpc] at hcopies
    simp only [Accounted, hpc] at hacc
    rw [hpc] at hs
    obtain rfl := Option.some.inj hs
    refine ⟨h.storing, h.applied, hacc, h.ws_books, h.fix_books, h.ws_read,
      h.fix_read, ⟨hcopies, le_rfl, ?_⟩, h.published⟩
    show s.engine.fixBooks = fixAfter (s.fixLog.take s.fixLog.length)
    rw [List.take_length]
    exact h.fix_books
  | publish ws fix =>
    rw [Copies, hpc] at hcopies
    simp only [Accounted, hpc] at hacc
    rw [hpc] at hs
    obtain rfl := Option.some.inj hs
    obtain ⟨⟨hwsLe, hws⟩, hfixLe, hfix⟩ := hcopies
    refine ⟨h.storing, h.applied, hacc, h.ws_books, h.fix_books, hwsLe, hfixLe, trivial,
      ?_⟩
    show _ = opportunitiesOf s.engine.minProfitBps orders nowMs
        (wsAfter (s.wsLog.take ws.updates)) (fixAfter (s.fixLog.take fix.updates))
    rw [← hws, ← hfix]
    rfl
  | report =>
    rw [hpc] at hs
    obtain rfl := Option.some.inj hs
    have hrest : Resting s.thread := by rw [hpc]; trivial
    rw [State.endOfBody]
    split
    · dsimp only
      split
      · exact h.quiet rfl rfl rfl rfl rfl rfl rfl (fun _ _ hu => hu) id (Or.inr (Or.inl rfl))
      · exact h.quiet rfl rfl rfl rfl rfl rfl rfl (fun _ _ hu => hu) id
          (Or.inr (Or.inr ⟨hrest, trivial⟩))
    · exact h.quiet rfl rfl rfl rfl rfl rfl rfl (fun _ _ hu => hu) id
        (Or.inr (Or.inr ⟨hrest, trivial⟩))

/-- A notification keeps the invariant. -/
lemma Inv.notifyOne {s : State P} (h : Inv s) : Inv s.notifyOne := by
  rw [State.notifyOne]
  split
  · rename_i hpc
    exact h.quiet rfl rfl rfl rfl rfl rfl rfl (fun _ _ hu => hu) id
      (Or.inr (Or.inr ⟨by rw [hpc]; trivial, trivial⟩))
  · exact h

variable [DecidableEq P]

/-- A producer that is about to set the flag was so before another one moved. -/
lemma storing_of_update {f : P → ProducerPc} {p q : P} {pc : ProducerPc} {u : Update}
    (hpc : pc ≠ .storeDirty u) (h : Function.update f p pc q = .storeDirty u) :
    f q = .storeDirty u := by
  by_cases hq : q = p
  · rw [hq, Function.update_self] at h
    exact absurd h hpc
  · rwa [Function.update_of_ne hq] at h

/-- **Every step keeps the invariant of the hand-over.** -/
lemma inv_step {s t : State P} {a : Action P} (h : Inv s) (hs : Step s a t) : Inv t := by
  cases move_of_step hs with
  | start hpc =>
    exact h.quiet rfl rfl rfl rfl rfl rfl rfl (fun _ _ hu => hu) id
      (Or.inr (Or.inr ⟨by rw [hpc]; trivial, trivial⟩))
  | @applyWs p nowNs snap hidle =>
    refine h.apply [(nowNs, snap)] [] rfl (List.append_nil _).symm rfl ?_ rfl
      rfl rfl rfl rfl rfl (wsAfter_concat s.engine s.wsLog nowNs snap h.ws_books) h.fix_books rfl rfl
    show s.wsLog.length < (s.wsLog ++ [(nowNs, snap)]).length
    simp
  | @applyFix p nowNs msg hidle hmd =>
    obtain ⟨hws, hopp, hmin⟩ := updateFixData_other s.engine nowNs msg
    refine h.apply [] [(nowNs, msg)] (List.append_nil _).symm rfl rfl ?_ rfl
      rfl rfl rfl rfl rfl (hws.trans h.ws_books)
      (fixAfter_concat s.engine s.fixLog nowNs msg h.fix_books) hopp hmin
    show s.fixLog.length < (s.fixLog ++ [(nowNs, msg)]).length
    simp
  | dropFix => exact h
  | @flag p u hpc =>
    -- the flag is set now, so nothing is asked of the copies
    refine ⟨?_, ?_, fun hd => absurd hd (by simp [State.flag]), h.ws_books, h.fix_books,
      h.ws_read, h.fix_read, h.copies, h.published⟩
    · exact fun q v hv => h.storing q v (storing_of_update (by simp) hv)
    · intro v hv
      rcases List.mem_cons.mp hv with rfl | hv
      · exact h.storing p v hpc
      · exact h.applied v hv
  | notify =>
    exact h.notifyOne.quiet rfl rfl rfl rfl rfl rfl rfl
      (fun _ _ hv => storing_of_update (by simp) hv) id (Or.inl rfl)
  | thread hs => exact inv_stepCalc h hs
  | spuriousWake hpc =>
    exact h.quiet rfl rfl rfl rfl rfl rfl rfl (fun _ _ hu => hu) id
      (Or.inr (Or.inr ⟨by rw [hpc]; trivial, trivial⟩))
  | stopRunning =>
    exact h.quiet rfl rfl rfl rfl rfl rfl rfl (fun _ _ hu => hu) id (Or.inl rfl)
  | stopDirty =>
    exact h.quiet rfl rfl rfl rfl rfl rfl rfl (fun _ _ hu => hu) (fun hd => absurd hd (by simp))
      (Or.inl rfl)
  | stopNotify =>
    exact h.notifyOne.quiet rfl rfl rfl rfl rfl rfl rfl (fun _ _ hu => hu) id (Or.inl rfl)
  | stopJoin =>
    exact h.quiet rfl rfl rfl rfl rfl rfl rfl (fun _ _ hu => hu) id (Or.inl rfl)

/-- The calculation thread is at the wait: in its predicate, about to block, or blocked. -/
def AtWait (s : State P) : Prop :=
  s.thread = .testDirty ∨ s.thread = .testRunning ∨ s.thread = .block ∨ s.thread = .blocked

/-- **No update is skipped.**  In every reachable state in which the calculation thread is at
its wait with `books_dirty_` clear, the published opportunities are those that the last
calculation found in the books after the first `wsRead` and the first `fixRead` updates, and
every update whose store of the flag has been executed is among these. -/
theorem no_update_skipped (tickLogger : Bool) (minProfitBps : ℚ) (maxReports : ℤ)
    (as : List (Action P)) (s : State P)
    (hrun : Run Step (State.init tickLogger minProfitBps maxReports) as s) (hwait : AtWait s)
    (hclean : s.booksDirty = false) :
    PublishedFrom s ∧ ∀ u ∈ s.flagged, u.Within s.wsRead s.fixRead := by
  have hinv : Inv s := hrun.invariant (inv_init tickLogger minProfitBps maxReports)
    fun _ _ _ h hs => inv_step h hs
  have hrest : Resting s.thread := by
    rcases hwait with h | h | h | h <;> rw [h] <;> trivial
  exact ⟨hinv.published, fun u hu => (accounted_of_resting hrest u).mp (hinv.accounted hclean u hu)⟩

/-- One update and the calculation it causes. -/
def oneUpdate : List (Action Unit) :=
  [.start, .updateOrderBook () 0 emptyBatch, .producer (), tick, tick, tick, tick, tick, tick, tick,
    tick, tick, tick]

/-- The state at the next wait. -/
def afterOneUpdate : State Unit :=
  (oneUpdate.foldlM step (State.init false 5 0)).get (by decide)

/-- The update is in the last calculation. -/
theorem no_update_skipped_oneUpdate : afterOneUpdate.flagged = [.ws 0] ∧
    ∀ u ∈ afterOneUpdate.flagged, u.Within afterOneUpdate.wsRead afterOneUpdate.fixRead :=
  ⟨by decide, (no_update_skipped false 5 0 oneUpdate afterOneUpdate
    (.of_foldlM (Option.some_get _).symm) (Or.inr (Or.inl rfl)) (by decide)).2⟩

end TickPlant.CalcThread
