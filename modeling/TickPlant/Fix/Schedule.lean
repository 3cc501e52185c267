/-
# The loop of the FIX feed simulator

The thread of `FIXFeedSimulator` sends, at every tick, one message for each of its symbols: a
snapshot if the last one is `snapshot_interval_ms` old, and an incremental message else.  In
continuous mode it ticks until it is stopped, but for pauses; in burst mode it ticks for a while,
and then is silent for `burst_interval_ms`.  Its callback hands every message to the engine, into
which the exchange clients write at the same time.

A step is one load of a flag, one reading of the steady clock or the turn of one symbol in a
tick.  `running_` and `paused_` are set from outside at any point.  The runs are those of the
thread of the first `start()`: the counters of the symbols survive a `stop()`, and a thread that
is started again goes on with them.
-/
import TickPlant.Fix.Simulator
import TickPlant.Fix.Ticker
import TickPlant.Lib.Run

namespace TickPlant.FIXFeedSimulator

open Lib

/-! ## The code -/

/-- The draws of a symbol's turn, and the reading of the wall clock by the engine.  A level is
drawn in every turn, so a symbol of no levels takes none; `emit_incremental` would draw one from
an empty range. -/
structure TurnDraw (config : SimulatedSymbol) where
  oracle : Option ℚ
  drift : ℚ
  drift_le : |drift| ≤ 5 / 100000
  draw : Draw config
  wallNs : ℕ

/-- A message as it is sent. -/
structure Sent (config : SimulatedSymbol) where
  seqNum : ℤ
  /-- The reading of the steady clock at the tick. -/
  clock : ℕ
  wallNs : ℕ
  /-- The number of bursts that have ended before. -/
  burst : ℕ
  emission : Emission config

/-- `SymbolState`, and the messages of the symbol. -/
structure SymbolState (config : SimulatedSymbol) where
  currentMid : Mid
  seqNum : ℤ
  lastSnapshot : ℕ
  sent : List (Sent config)

/-- The message is a full snapshot. -/
def Emission.isSnapshot {config : SimulatedSymbol} : Emission config → Bool
  | snapshot _ => true
  | incremental _ _ => false

/-- The levels that the message states for a side, in the order of its entries. -/
def Emission.levels {config : SimulatedSymbol} (side : Side) (em : Emission config) :
    List PriceLevel :=
  entryLevels side em.message.entries

/-- The message sets the level: it is the last one that the message states at its price. -/
def Emission.Sets {config : SimulatedSymbol} (side : Side) (l : PriceLevel) (em : Emission config) :
    Prop :=
  lastNaming PriceLevel.price l.price (em.levels side) = some l

instance {config : SimulatedSymbol} (side : Side) (l : PriceLevel) (em : Emission config) :
    Decidable (em.Sets side l) := inferInstanceAs (Decidable (_ = _))

/-- The mid price that a call leaves. -/
def Emission.newMid {config : SimulatedSymbol} : Emission config → Mid
  | snapshot currentMid => currentMid
  | incremental currentMid _ => currentMid

/-- The turn of a symbol in `tick_all`. -/
def SymbolState.turn {config : SimulatedSymbol} (snapInterval : ℤ) (now burst : ℕ)
    (d : TurnDraw config) (st : SymbolState config) : Emission config × SymbolState config :=
  let due : Bool := (now : ℤ) - st.lastSnapshot ≥ snapInterval
  let em := tick d.oracle d.drift d.drift_le due d.draw st.currentMid
  (em,
    { currentMid := em.newMid
      -- the increment past the last `int`, undefined in the language, wraps around
      seqNum := toInt32 (st.seqNum + 1)
      lastSnapshot := if due then now else st.lastSnapshot
      sent := st.sent ++ [⟨st.seqNum, now, d.wallNs, burst, em⟩] })

/-- The configuration of a simulator; the symbols are numbered by `ι`. -/
structure Setup (ι : Type) where
  symbols : List ι
  config : ι → SimulatedSymbol
  snapshotIntervalMs : ℤ
  /-- `0` disables burst mode. -/
  burstIntervalMs : ℤ
  burstDurationMs : ℤ

namespace Loop

/-- Where `simulation_loop` stands. -/
inductive Stage (ι : Type)
  /-- Continuous mode, before `while (running_)`. -/
  | head
  /-- Before `paused_.load()`. -/
  | pausable
  /-- Before the clock is read for a tick. -/
  | due
  /-- In `tick_all`, before the turns of these symbols; in a burst, with its end. -/
  | ticking (now : ℕ) (rest : List ι) (burstEnd : Option ℤ)
  /-- Burst mode, between bursts, before `while (running_)`. -/
  | idle (lastBurstEnd : ℕ)
  /-- Before the clock is read for the time elapsed. -/
  | waiting (lastBurstEnd : ℕ)
  /-- Before `if (!running_) break`. -/
  | entering
  /-- Before the clock is read for the end of the burst. -/
  | opening
  /-- In a burst, before `running_` is loaded. -/
  | burst (burstEnd : ℤ)
  /-- Before the clock is compared with the end of the burst. -/
  | bursting (burstEnd : ℤ)
  /-- Before the clock is read for a tick of the burst. -/
  | burstDue (burstEnd : ℤ)
  /-- Before the clock is read for `last_burst_end`. -/
  | closing
  /-- Before the outer `while (running_)`. -/
  | outer (lastBurstEnd : ℕ)
  | done

/-- The thread, its simulator and the engine. -/
structure State {ι : Type} (u : Setup ι) where
  running : Bool
  paused : Bool
  /-- The last reading of the steady clock. -/
  clock : ℕ
  stage : Stage ι
  /-- The number of bursts that have ended. -/
  bursts : ℕ
  symbols : (i : ι) → SymbolState (u.config i)
  engine : ArbitrageEngine

/-- What may happen next. -/
inductive Label {ι : Type} (u : Setup ι)
  /-- `stop()` clears `running_`. -/
  | stop
  /-- `set_paused`. -/
  | setPaused (paused : Bool)
  /-- An exchange client writes into the engine. -/
  | feed (nowNs : ℕ) (snap : OrderBookSnapshot)
  /-- The thread loads a flag. -/
  | load
  /-- The thread reads the steady clock. -/
  | clock (now : ℕ)
  /-- The turn of the next symbol. -/
  | turn (d : (i : ι) → TurnDraw (u.config i))

variable {ι : Type} [DecidableEq ι] {u : Setup ι}

/-- The thread after the first `start()`, with the engine that the callback hands the messages
to. -/
def State.init (u : Setup ι) (mid : ι → Mid) (engine : ArbitrageEngine) (clock : ℕ) : State u where
  running := true
  paused := false
  clock := clock
  stage := if u.burstIntervalMs > 0 then .outer clock else .head
  bursts := 0
  symbols := fun i => ⟨mid i, 1, 0, []⟩
  engine := engine

/-- `std::chrono::milliseconds` in nanoseconds. -/
def msToNs (ms : ℤ) : ℤ := ms * 1000000

/-- The thread loads `running_` or `paused_`. -/
def stepLoad (s : State u) : Option (State u) :=
  match s.stage with
  | .head => some { s with stage := if s.running then .pausable else .done }
  | .pausable => some { s with stage := if s.paused then .head else .due }
  | .idle last => some { s with stage := if s.running then .waiting last else .entering }
  | .entering => some { s with stage := if s.running then .opening else .done }
  | .burst burstEnd => some { s with stage := if s.running then .bursting burstEnd else .closing }
  | .outer last => some { s with stage := if s.running then .idle last else .done }
  | _ => none

/-- The thread reads the clock. -/
def stepClock (now : ℕ) (s : State u) : Option (State u) :=
  match s.stage with
  | .due => some { s with clock := now, stage := .ticking now u.symbols none }
  | .waiting last =>
    let elapsed := ((now : ℤ) - last) / 1000000
    some { s with
      clock := now, stage := if elapsed ≥ u.burstIntervalMs then .entering else .idle last }
  | .opening => some { s with clock := now, stage := .burst (now + msToNs u.burstDurationMs) }
  | .bursting burstEnd =>
    some { s with clock := now, stage := if now < burstEnd then .burstDue burstEnd else .closing }
  | .burstDue burstEnd =>
    some { s with clock := now, stage := .ticking now u.symbols (some burstEnd) }
  | .closing => some { s with clock := now, stage := .outer now, bursts := s.bursts + 1 }
  | _ => none

/-- The next turn of a tick, or its end. -/
def stepTurn (d : (i : ι) → TurnDraw (u.config i)) (s : State u) : Option (State u) :=
  match s.stage with
  | .ticking _ [] none => some { s with stage := .head }
  | .ticking _ [] (some burstEnd) => some { s with stage := .burst burstEnd }
  | .ticking now (i :: rest) burstEnd =>
    let (em, st) := (s.symbols i).turn (msToNs u.snapshotIntervalMs) now s.bursts (d i)
    some { s with
      stage := .ticking now rest burstEnd
      symbols := Function.update s.symbols i st
      engine := s.engine.updateFixData (d i).wallNs em.message }
  | _ => none

/-- One step; `none` when it is not possible. -/
def step (s : State u) : Label u → Option (State u)
  | .stop => some { s with running := false }
  | .setPaused paused => some { s with paused := paused }
  | .feed nowNs snap => some { s with engine := (s.engine.updateOrderBook nowNs snap).1 }
  | .load => stepLoad s
  | .clock now => if s.clock ≤ now then stepClock now s else none
  | .turn d => stepTurn d s

/-- `step` as a transition relation. -/
def Step (s : State u) (l : Label u) (t : State u) : Prop := step s l = some t

/-! ## The messages of one symbol -/

/-- The messages with the readings of the wall clock, as the engine takes them. -/
def taken {config : SimulatedSymbol} (sent : List (Sent config)) : List (ℕ × Emission config) :=
  sent.map fun m => (m.wallNs, m.emission)

/-- What the messages of a symbol have to do with its last snapshot. -/
structure Kept {config : SimulatedSymbol} (snapInterval : ℤ) (st : SymbolState config) : Prop where
  seqNum : st.seqNum = toInt32 (st.sent.length + 1)
  numbered : ∀ (k : ℕ) (m : Sent config), st.sent[k]? = some m → m.seqNum = toInt32 (k + 1)
  /-- A message that no snapshot follows is not older than the last snapshot. -/
  since : ∀ before m after, st.sent = before ++ m :: after →
    (∀ m' ∈ after, m'.emission.isSnapshot = false) → st.lastSnapshot ≤ m.clock
  recent : ∀ m ∈ st.sent.getLast?,
    (m.clock : ℤ) < st.lastSnapshot + snapInterval ∨ m.clock = st.lastSnapshot

lemma kept_init {config : SimulatedSymbol} (snapInterval : ℤ) (mid : Mid) :
    Kept snapInterval (⟨mid, 1, 0, []⟩ : SymbolState config) where
  seqNum := (FIXParser.toInt32_of_lt (i := 1) (by norm_num) (by norm_num)).symm
  numbered := by simp
  since := by simp
  recent := by simp

lemma taken_concat {config : SimulatedSymbol} (sent : List (Sent config)) (m : Sent config) :
    taken (sent ++ [m]) = taken sent ++ [(m.wallNs, m.emission)] := by
  simp [taken]

/-- The turn of a symbol keeps this. -/
lemma Kept.turn {config : SimulatedSymbol} {snapInterval : ℤ} {st : SymbolState config}
    (h : Kept snapInterval st) {now : ℕ} (hle : st.lastSnapshot ≤ now) (burst : ℕ)
    (d : TurnDraw config) : Kept snapInterval (st.turn snapInterval now burst d).2 := by
  refine ⟨?_, fun k m hm => ?_, fun before m after hsplit hafter => ?_, ?_⟩
  · simp only [SymbolState.turn, h.seqNum, toInt32, Int.bmod_add_bmod, List.length_append,
      List.length_singleton, Nat.cast_add, Nat.cast_one]
  · simp only [SymbolState.turn, List.getElem?_append] at hm
    split at hm
    · exact h.numbered k m hm
    · obtain ⟨hk, rfl⟩ := List.getElem?_eq_some_iff.mp hm
      have hseq := h.seqNum
      simp only [List.length_singleton] at hk
      obtain rfl : k = st.sent.length := by omega
      simpa only [Nat.sub_self, List.getElem_cons_zero] using hseq
  · simp only [SymbolState.turn] at hsplit ⊢
    rcases List.eq_nil_or_concat after with rfl | ⟨after', m', rfl⟩
    · obtain ⟨-, hm⟩ := List.append_inj' hsplit rfl
      obtain rfl := (List.cons.inj hm).1
      split
      · exact le_rfl
      · exact hle
    · rw [List.concat_eq_append, ← List.cons_append, ← List.append_assoc] at hsplit
      obtain ⟨hold, hm⟩ := List.append_inj' hsplit rfl
      obtain rfl := (List.cons.inj hm).1
      have hnot := hafter _ (by
        rw [List.concat_eq_append]
        exact List.mem_append_right _ (List.mem_singleton_self _))
      split
      · -- a snapshot would follow
        rename_i hdue
        rw [tick, if_pos hdue] at hnot
        exact absurd hnot (by simp [Emission.isSnapshot])
      · exact h.since before m after' hold fun m' hm' =>
          hafter m' (by
            rw [List.concat_eq_append]
            exact List.mem_append_left _ hm')
  · simp only [SymbolState.turn, List.getLast?_concat, Option.mem_some_iff, forall_eq']
    split
    · exact Or.inr rfl
    · rename_i hdue
      simp only [ge_iff_le, decide_eq_true_eq, not_le] at hdue
      left
      omega

/-! ## The levels of a book -/

section

variable {config : SimulatedSymbol}

/-- The symbol's book after one message more: it holds the last level that the message states at
a price, and an incremental message leaves the others. -/
lemma level_updateFixData (e : ArbitrageEngine) (now : ℕ) (em : Emission config) (side : Side)
    (p : ℚ) : (fixBook config (e.updateFixData now em.message)).level side p =
      (lastNaming PriceLevel.price p (em.levels side)).or
        (if em.isSnapshot then none else (fixBook config e).level side p) := by
  rw [fixBook_updateFixData]
  cases em with
  | snapshot mid =>
    have hmessage : (Emission.snapshot mid : Emission config).message.msgType =
        .marketDataSnapshot := rfl
    obtain ⟨hbids, hasks⟩ :=
      OrderBook.applySnapshot_sides (now / 1000000) hmessage (fixBook config e)
    rw [Emission.levels, Emission.isSnapshot, if_pos rfl, Option.or_none]
    cases side with
    | bid => rw [OrderBook.level, hbids, Levels.find_inserts_empty]
    | ask => rw [OrderBook.level, hasks, Levels.find_inserts_empty]
  | incremental mid draw =>
    obtain ⟨hbids, hasks⟩ := OrderBook.foldl_applySnapshotEntry
      (Emission.incremental mid draw).message.entries (fixBook config e)
    have hentry := applyMdEntry_incrementalEntry (fixBook config e) mid draw
    have hbook : ∀ side, ((fixBook config e).applyUpdate (now / 1000000)
        (Emission.incremental mid draw).message).level side p =
          ((Emission.incremental mid draw).message.entries.foldl OrderBook.applySnapshotEntry
            (fixBook config e)).level side p := by
      intro side
      show OrderBook.level (OrderBook.applyMdEntry _ _) side p = OrderBook.level _ side p
      rw [hentry]
      rfl
    rw [hbook, Emission.levels, Emission.isSnapshot, if_neg Bool.false_ne_true]
    cases side with
    | bid => rw [OrderBook.level, hbids, Levels.find_inserts]; rfl
    | ask => rw [OrderBook.level, hasks, Levels.find_inserts]; rfl

lemma fixBook_run_concat (e : ArbitrageEngine) (sent : List (Sent config))
    (m : Sent config) : fixBook config (run e (taken (sent ++ [m]))) =
      fixBook config ((run e (taken sent)).updateFixData m.wallNs m.emission.message) := by
  rw [taken_concat, run, List.foldl_append]
  rfl

/-- **A level of the book was set by a message**, and neither a snapshot nor a message that names
its price came later. -/
lemma exists_setting {engine : ArbitrageEngine} (hnew : engine.fixBooks.lookup config.symbol = none)
    (sent : List (Sent config)) {side : Side} {p : ℚ} {l : PriceLevel}
    (h : (fixBook config (run engine (taken sent))).level side p = some l) :
    ∃ before m after, sent = before ++ m :: after ∧ m.emission.Sets side l ∧
      ∀ m' ∈ after, m'.emission.isSnapshot = false ∧
        ∀ l' ∈ m'.emission.levels side, l'.price ≠ p := by
  induction sent using List.reverseRecOn with
  | nil =>
    rw [taken, List.map_nil, run, List.foldl_nil, fixBook, hnew] at h
    cases side <;> simp [OrderBook.level, OrderBook.new] at h
  | append_singleton sent m ih =>
    rw [fixBook_run_concat, level_updateFixData] at h
    cases hlast : lastNaming PriceLevel.price p (m.emission.levels side) with
    | some l' =>
      rw [hlast] at h
      obtain rfl := Option.some.inj h
      refine ⟨sent, m, [], rfl, ?_, by simp⟩
      rw [Emission.Sets, (lastNaming_eq_some hlast).2]
      exact hlast
    | none =>
      rw [hlast, Option.none_or] at h
      split at h
      · exact absurd h (by simp)
      · rename_i hincremental
        obtain ⟨before, m', after, rfl, hsets, hafter⟩ := ih h
        refine ⟨before, m', after ++ [m], by simp, hsets, fun m'' hm'' => ?_⟩
        rcases List.mem_append.mp hm'' with hold | hm''
        · exact hafter m'' hold
        · rw [List.mem_singleton.mp hm'']
          exact ⟨Bool.not_eq_true _ ▸ hincremental, lastNaming_eq_none.mp hlast⟩

end

/-! ## The book of every symbol -/

/-- What holds of the symbols and of the engine, whose FIX books `engine` had at the start. -/
structure Inv (engine : ArbitrageEngine) (s : State u) : Prop where
  ticking : ∀ now rest burstEnd, s.stage = .ticking now rest burstEnd → now = s.clock
  last_le : ∀ i, (s.symbols i).lastSnapshot ≤ s.clock
  kept : ∀ i, Kept (msToNs u.snapshotIntervalMs) (s.symbols i)
  book : ∀ i, fixBook (u.config i) s.engine =
    fixBook (u.config i) (run engine (taken (s.symbols i).sent))

omit [DecidableEq ι] in
lemma inv_init (mid : ι → Mid) (engine : ArbitrageEngine) (clock : ℕ) :
    Inv engine (State.init u mid engine clock) where
  ticking now rest burstEnd h := by
    simp only [State.init] at h
    split at h <;> exact absurd h (by simp)
  last_le _ := Nat.zero_le _
  kept i := kept_init _ _
  book _ := rfl

omit [DecidableEq ι] in
/-- A step that sends nothing. -/
lemma Inv.quiet {engine : ArbitrageEngine} {s t : State u} (h : Inv engine s)
    (hsymbols : t.symbols = s.symbols) (hbooks : t.engine.fixBooks = s.engine.fixBooks)
    (hclock : s.clock ≤ t.clock)
    (hstage : ∀ now rest burstEnd, t.stage = .ticking now rest burstEnd → now = t.clock) :
    Inv engine t where
  ticking := hstage
  last_le i := by
    rw [hsymbols]
    exact (h.last_le i).trans hclock
  kept i := by
    rw [hsymbols]
    exact h.kept i
  book i := by
    rw [hsymbols, fixBook, hbooks]
    exact h.book i

/-- A message goes to the book of its own symbol. -/
lemma fixBook_other {config config' : SimulatedSymbol} (hne : config.symbol ≠ config'.symbol)
    (e : ArbitrageEngine) (now : ℕ) (em : Emission config) :
    fixBook config' (e.updateFixData now em.message) = fixBook config' e := by
  cases em <;>
    simp [fixBook, ArbitrageEngine.updateFixData, Emission.message, dispatch,
      FIXMessage.isMarketData, AList.lookup_insert_ne hne.symm]

lemma Inv.turn {engine : ArbitrageEngine} {s t : State u} (h : Inv engine s)
    (hinj : Function.Injective fun i => (u.config i).symbol)
    {d : (i : ι) → TurnDraw (u.config i)} (hs : stepTurn d s = some t) : Inv engine t := by
  rw [stepTurn] at hs
  split at hs
  · obtain rfl := Option.some.inj hs
    exact h.quiet rfl rfl le_rfl (by simp)
  · obtain rfl := Option.some.inj hs
    exact h.quiet rfl rfl le_rfl (by simp)
  · rename_i now i rest burstEnd hstage
    -- the symbol's own turn, and what it leaves of the other symbols
    obtain rfl := h.ticking _ _ _ hstage
    obtain rfl := Option.some.inj hs
    refine ⟨fun now' rest' burstEnd' heq => ?_, fun j => ?_, fun j => ?_, fun j => ?_⟩
    · simp only [Stage.ticking.injEq] at heq
      exact heq.1.symm
    · by_cases hj : j = i
      · subst hj
        simp only [Function.update_self]
        show (if _ then s.clock else _) ≤ s.clock
        split
        · exact le_rfl
        · exact h.last_le j
      · simp only [Function.update_of_ne hj]
        exact h.last_le j
    · by_cases hj : j = i
      · subst hj
        simp only [Function.update_self]
        exact (h.kept j).turn (h.last_le j) _ _
      · simp only [Function.update_of_ne hj]
        exact h.kept j
    · by_cases hj : j = i
      · subst hj
        simp only [Function.update_self, fixBook_run_concat, fixBook_updateFixData, h.book j]
      · have hne : (u.config i).symbol ≠ (u.config j).symbol := fun heq => hj (hinj heq).symm
        simp only [Function.update_of_ne hj, fixBook_other hne]
        exact h.book j
  · exact absurd hs (by simp)

lemma inv_step {engine : ArbitrageEngine} (hinj : Function.Injective fun i => (u.config i).symbol)
    {s t : State u} {l : Label u} (h : Inv engine s) (hs : Step s l t) : Inv engine t := by
  cases l with
  | stop =>
    obtain rfl := Option.some.inj hs
    exact h.quiet rfl rfl le_rfl h.ticking
  | setPaused paused =>
    obtain rfl := Option.some.inj hs
    exact h.quiet rfl rfl le_rfl h.ticking
  | feed nowNs snap =>
    obtain rfl := Option.some.inj hs
    exact h.quiet rfl rfl le_rfl h.ticking
  | load =>
    rw [Step, step, stepLoad] at hs
    split at hs
    all_goals first
      | contradiction
      | obtain rfl := Option.some.inj hs
        refine h.quiet rfl rfl le_rfl fun now rest burstEnd heq => ?_
        dsimp only at heq
        split at heq <;> contradiction
  | clock now =>
    rw [Step, step] at hs
    split at hs
    · rename_i hle
      rw [stepClock] at hs
      split at hs
      all_goals first
        | contradiction
        | obtain rfl := Option.some.inj hs
          refine h.quiet rfl rfl hle fun now' rest' burstEnd' heq => ?_
          dsimp only at heq
          first
            | contradiction
            | (cases heq; rfl)
            | (split at heq <;> contradiction)
    · exact absurd hs (by simp)
  | turn d => exact h.turn hinj hs

lemma inv_run {mid : ι → Mid} {engine : ArbitrageEngine} {clock : ℕ}
    (hinj : Function.Injective fun i => (u.config i).symbol) {ls : List (Label u)} {s : State u}
    (hrun : Run Step (State.init u mid engine clock) ls s) : Inv engine s :=
  hrun.invariant (I := Inv engine) (inv_init mid engine clock) fun _ _ _ h hs => inv_step hinj h hs

/-- **No level outlives the snapshot interval.**  In every run of the simulator, continuous or in
bursts, with pauses, and with the exchange clients writing into the same engine: the messages of
a symbol are numbered from one on, as long as an `int` can count them, and every level in its FIX
book, with its quantity, was set by a message that at the time of the last one was less than
`snapshot_interval_ms` old; no later message names its price.  With an interval of zero or less
it is a message of the last tick. -/
theorem fix_levels_fresh (u : Setup ι) (hinj : Function.Injective fun i => (u.config i).symbol)
    (mid : ι → Mid) (engine : ArbitrageEngine) (clock : ℕ) (ls : List (Label u)) (s : State u)
    (hrun : Run Step (State.init u mid engine clock) ls s) (i : ι)
    (hnew : engine.fixBooks.lookup (u.config i).symbol = none) :
    (∀ (k : ℕ) (m : Sent (u.config i)), (s.symbols i).sent[k]? = some m → k + 1 < 2 ^ 31 →
        m.seqNum = k + 1) ∧
      ∀ last ∈ (s.symbols i).sent.getLast?, ∀ side p l,
        (fixBook (u.config i) s.engine).level side p = some l →
          ∃ before m after, (s.symbols i).sent = before ++ m :: after ∧
            m.emission.Sets side l ∧ (∀ m' ∈ after, ∀ l' ∈ m'.emission.levels side, l'.price ≠ p) ∧
            ((last.clock : ℤ) - m.clock < msToNs u.snapshotIntervalMs ∨
              u.snapshotIntervalMs ≤ 0 ∧ last.clock ≤ m.clock) := by
  have h := inv_run hinj hrun
  have hkept := h.kept i
  refine ⟨fun k m hm hk => (hkept.numbered k m hm).trans ?_, ?_⟩
  · exact FIXParser.toInt32_of_lt (by omega) (by omega)
  intro last hlast side p l hl
  rw [h.book i] at hl
  obtain ⟨before, m, after, hsent, hsets, hafter⟩ := exists_setting hnew _ hl
  have hsince := hkept.since before m after hsent fun m' hm' => (hafter m' hm').1
  refine ⟨before, m, after, hsent, hsets, fun m' hm' => (hafter m' hm').2, ?_⟩
  have hrecent := hkept.recent last hlast
  simp only [msToNs] at hrecent ⊢
  omega

/-- One symbol, with a snapshot every five seconds. -/
def btcUsdOnly (burstIntervalMs : ℤ) : Setup Unit where
  symbols := [()]
  config _ := btcUsd
  snapshotIntervalMs := 5000
  burstIntervalMs := burstIntervalMs
  burstDurationMs := 2000

/-- The draws of a turn in which the mid price stays. -/
def stillDraw (burstIntervalMs : ℤ) (i : Unit) :
    TurnDraw ((btcUsdOnly burstIntervalMs).config i) where
  oracle := none
  drift := 0
  drift_le := by norm_num
  draw := ⟨.bid, ⟨1, show 1 < 5 by norm_num⟩, 0⟩
  wallNs := 0

/-- A snapshot, and an incremental message 50 ms later. -/
def twoTicks : List (Label (btcUsdOnly 0)) :=
  [.load, .load, .clock 6000000000, .turn (stillDraw 0), .turn (stillDraw 0),
    .load, .load, .clock 6050000000, .turn (stillDraw 0)]

/-- The state after these. -/
def afterTwoTicks : State (btcUsdOnly 0) :=
  (twoTicks.foldlM step (State.init (btcUsdOnly 0) (fun _ => startMid) (.new true) 0)).get
    (by decide +kernel)

/-- A level of the snapshot, one that the incremental message has set again, and the numbers. -/
theorem fix_levels_fresh_btcUsd :
    (afterTwoTicks.symbols ()).sent.map (fun m => (m.seqNum, m.clock)) =
        [(1, 6000000000), (2, 6050000000)] ∧
      ∃ last ∈ (afterTwoTicks.symbols ()).sent.getLast?, ∀ side p l,
        (fixBook btcUsd afterTwoTicks.engine).level side p = some l →
          ∃ before m after, (afterTwoTicks.symbols ()).sent = before ++ m :: after ∧
            m.emission.Sets side l ∧ (∀ m' ∈ after, ∀ l' ∈ m'.emission.levels side, l'.price ≠ p) ∧
            ((last.clock : ℤ) - m.clock < msToNs 5000 ∨ (5000 : ℤ) ≤ 0 ∧ last.clock ≤ m.clock) := by
  have hrun : Run Step (State.init (btcUsdOnly 0) (fun _ => startMid) (.new true) 0)
      twoTicks afterTwoTicks := .of_foldlM (Option.some_get _).symm
  obtain ⟨last, hlast⟩ : ∃ last, (afterTwoTicks.symbols ()).sent.getLast? = some last :=
    Option.isSome_iff_exists.mp (by decide +kernel)
  have hfresh := fix_levels_fresh (btcUsdOnly 0) (fun _ _ _ => rfl) _ (.new true) 0 twoTicks
    afterTwoTicks hrun () rfl
  exact ⟨by decide +kernel, last, hlast, hfresh.2 last hlast⟩

/-! ## Bursts -/

/-- The readings of the clock at the messages, with the bursts. -/
def State.Stamps (s : State u) (clock burst : ℕ) : Prop :=
  ∃ i, ∃ m ∈ (s.symbols i).sent, m.clock = clock ∧ m.burst = burst

/-- The loop has been silent since `last`, not before `start`. -/
structure State.SilentSince (s : State u) (start last : ℕ) : Prop where
  start_le : start ≤ last
  le_clock : last ≤ s.clock
  stamps : ∀ c b, s.Stamps c b → c ≤ last ∧ b < s.bursts

/-- The start and the bursts before are past for at least the interval between bursts. -/
structure State.Rested (s : State u) (start : ℕ) : Prop where
  start : (start : ℤ) + msToNs u.burstIntervalMs ≤ s.clock
  stamps : ∀ c b, s.Stamps c b → b < s.bursts → (c : ℤ) + msToNs u.burstIntervalMs ≤ s.clock

/-- Where the loop stands, in burst mode. -/
def State.InBurst (s : State u) (start : ℕ) : Prop :=
  match s.stage with
  | .outer last | .idle last | .waiting last => s.SilentSince start last
  | .entering => s.running = false ∨ s.Rested start
  | .opening | .burst _ | .bursting _ | .burstDue _ | .closing => s.Rested start
  | .ticking _ _ (some _) => s.Rested start
  | .done => True
  | _ => False

/-- What holds in burst mode. -/
structure Apart (start : ℕ) (s : State u) : Prop where
  start_le : start ≤ s.clock
  ticking : ∀ now rest burstEnd, s.stage = .ticking now rest burstEnd → now = s.clock
  stamps : ∀ c b, s.Stamps c b →
    c ≤ s.clock ∧ b ≤ s.bursts ∧ (start : ℤ) + msToNs u.burstIntervalMs ≤ c
  apart : ∀ c b c' b', s.Stamps c b → s.Stamps c' b' → b < b' →
    (c : ℤ) + msToNs u.burstIntervalMs ≤ c'
  stage : s.InBurst start

section

variable {start : ℕ} {s t : State u}

omit [DecidableEq ι]

lemma Stamps.of_symbols (hsymbols : t.symbols = s.symbols) {c b : ℕ} (h : t.Stamps c b) :
    s.Stamps c b := by
  rwa [State.Stamps, hsymbols] at h

/-- The clock goes on in silence. -/
lemma State.SilentSince.later {last : ℕ} (h : s.SilentSince start last)
    (hsymbols : t.symbols = s.symbols) (hclock : s.clock ≤ t.clock)
    (hbursts : t.bursts = s.bursts) :
    t.SilentSince start last where
  start_le := h.start_le
  le_clock := h.le_clock.trans hclock
  stamps c b hstamp := hbursts ▸ h.stamps c b (Stamps.of_symbols hsymbols hstamp)

lemma State.Rested.later (h : s.Rested start) (hsymbols : t.symbols = s.symbols)
    (hclock : s.clock ≤ t.clock) (hbursts : t.bursts = s.bursts) : t.Rested start where
  start := h.start.trans (by exact_mod_cast hclock)
  stamps c b hstamp hb := by
    have hold := h.stamps c b (Stamps.of_symbols hsymbols hstamp) (hbursts ▸ hb)
    omega

/-- What is done from outside. -/
lemma State.InBurst.outside (h : s.InBurst start) (hstage : t.stage = s.stage)
    (hsymbols : t.symbols = s.symbols) (hclock : t.clock = s.clock) (hbursts : t.bursts = s.bursts)
    (hrunning : s.running = false → t.running = false) : t.InBurst start := by
  have hrested : s.Rested start → t.Rested start := fun h => h.later hsymbols hclock.ge hbursts
  have hsilent : ∀ last, s.SilentSince start last → t.SilentSince start last :=
    fun _ h => h.later hsymbols hclock.ge hbursts
  rw [State.InBurst] at h ⊢
  rw [hstage]
  split at h
  · exact hsilent _ h
  · exact hsilent _ h
  · exact hsilent _ h
  · exact h.imp hrunning hrested
  · exact hrested h
  · exact hrested h
  · exact hrested h
  · exact hrested h
  · exact hrested h
  · exact hrested h
  · trivial
  · exact h.elim

/-- A step that sends nothing. -/
lemma Apart.quiet (h : Apart start s) (hsymbols : t.symbols = s.symbols)
    (hclock : s.clock ≤ t.clock) (hbursts : s.bursts ≤ t.bursts)
    (hticking : ∀ now rest burstEnd, t.stage = .ticking now rest burstEnd → now = t.clock)
    (hstage : t.InBurst start) : Apart start t where
  start_le := h.start_le.trans hclock
  ticking := hticking
  stamps c b hstamp := by
    obtain ⟨hc, hb, hstart⟩ := h.stamps c b (Stamps.of_symbols hsymbols hstamp)
    exact ⟨hc.trans hclock, hb.trans hbursts, hstart⟩
  apart c b c' b' hstamp hstamp' hlt :=
    h.apart c b c' b' (Stamps.of_symbols hsymbols hstamp) (Stamps.of_symbols hsymbols hstamp') hlt
  stage := hstage

lemma Apart.load (h : Apart start s) (hs : stepLoad s = some t) : Apart start t := by
  have hin := h.stage
  rw [State.InBurst] at hin
  rw [stepLoad] at hs
  split at hs
  · rename_i hstage
    rw [hstage] at hin
    exact hin.elim
  · rename_i hstage
    rw [hstage] at hin
    exact hin.elim
  · rename_i last hstage
    rw [hstage] at hin
    obtain rfl := Option.some.inj hs
    cases hrunning : s.running with
    | true => exact h.quiet rfl le_rfl le_rfl (by simp) (hin.later rfl le_rfl rfl)
    | false => exact h.quiet rfl le_rfl le_rfl (by simp) (Or.inl rfl)
  · rename_i hstage
    rw [hstage] at hin
    obtain rfl := Option.some.inj hs
    cases hrunning : s.running with
    | true =>
      have hrested := hin.resolve_left (by simp [hrunning])
      exact h.quiet rfl le_rfl le_rfl (by simp) (hrested.later rfl le_rfl rfl)
    | false => exact h.quiet rfl le_rfl le_rfl (by simp) trivial
  · rename_i burstEnd hstage
    rw [hstage] at hin
    obtain rfl := Option.some.inj hs
    cases hrunning : s.running with
    | true => exact h.quiet rfl le_rfl le_rfl (by simp) (hin.later rfl le_rfl rfl)
    | false => exact h.quiet rfl le_rfl le_rfl (by simp) (hin.later rfl le_rfl rfl)
  · rename_i last hstage
    rw [hstage] at hin
    obtain rfl := Option.some.inj hs
    cases hrunning : s.running with
    | true => exact h.quiet rfl le_rfl le_rfl (by simp) (hin.later rfl le_rfl rfl)
    | false => exact h.quiet rfl le_rfl le_rfl (by simp) trivial
  · contradiction

lemma Apart.clock (h : Apart start s) {now : ℕ} (hle : s.clock ≤ now)
    (hs : stepClock now s = some t) : Apart start t := by
  have hin := h.stage
  rw [State.InBurst] at hin
  rw [stepClock] at hs
  split at hs
  · rename_i hstage
    rw [hstage] at hin
    exact hin.elim
  · rename_i last hstage
    rw [hstage] at hin
    obtain rfl := Option.some.inj hs
    by_cases helapsed : ((now : ℤ) - last) / 1000000 ≥ u.burstIntervalMs
    · have hstart := hin.start_le
      -- the interval has passed since the last burst, and all messages are from before
      have hrested : State.Rested { s with clock := now, stage := Stage.entering } start := by
        refine ⟨?_, fun c b hstamp hb => ?_⟩
        · simp only [msToNs]
          omega
        · have hc := (hin.stamps c b hstamp).1
          simp only [msToNs]
          omega
      simp only [helapsed, if_true]
      exact h.quiet rfl hle le_rfl (by simp) (Or.inr hrested)
    · simp only [helapsed, if_false]
      exact h.quiet rfl hle le_rfl (by simp) (hin.later rfl hle rfl)
  · rename_i hstage
    rw [hstage] at hin
    obtain rfl := Option.some.inj hs
    exact h.quiet rfl hle le_rfl (by simp) (hin.later rfl hle rfl)
  · rename_i burstEnd hstage
    rw [hstage] at hin
    obtain rfl := Option.some.inj hs
    by_cases hend : (now : ℤ) < burstEnd
    · simp only [hend, if_true]
      exact h.quiet rfl hle le_rfl (by simp) (hin.later rfl hle rfl)
    · simp only [hend, if_false]
      exact h.quiet rfl hle le_rfl (by simp) (hin.later rfl hle rfl)
  · rename_i burstEnd hstage
    rw [hstage] at hin
    obtain rfl := Option.some.inj hs
    refine h.quiet rfl hle le_rfl (fun now' rest burstEnd' heq => ?_) (hin.later rfl hle rfl)
    simp only [Stage.ticking.injEq] at heq
    exact heq.1.symm
  · rename_i hstage
    rw [hstage] at hin
    obtain rfl := Option.some.inj hs
    refine h.quiet rfl hle (Nat.le_succ _) (by simp)
      ⟨h.start_le.trans hle, le_rfl, fun c b hstamp => ?_⟩
    obtain ⟨hc, hb, -⟩ := h.stamps c b hstamp
    exact ⟨hc.trans hle, Nat.lt_succ_of_le hb⟩
  · contradiction

end

/-- The stamps of a turn. -/
lemma stamps_turn {s : State u} {i : ι} {st : SymbolState (u.config i)} {em : Emission (u.config i)}
    {seqNum : ℤ} {now wallNs burst : ℕ}
    (hsent : st.sent = (s.symbols i).sent ++ [⟨seqNum, now, wallNs, burst, em⟩]) {t : State u}
    (hsymbols : t.symbols = Function.update s.symbols i st) {c b : ℕ} (h : t.Stamps c b) :
    s.Stamps c b ∨ c = now ∧ b = burst := by
  obtain ⟨j, m, hm, hc, hb⟩ := h
  rw [hsymbols] at hm
  by_cases hj : j = i
  · subst hj
    rw [Function.update_self, hsent] at hm
    rcases List.mem_append.mp hm with hold | hnew
    · exact Or.inl ⟨j, m, hold, hc, hb⟩
    · obtain rfl := List.mem_singleton.mp hnew
      exact Or.inr ⟨hc.symm, hb.symm⟩
  · rw [Function.update_of_ne hj] at hm
    exact Or.inl ⟨j, m, hm, hc, hb⟩

omit [DecidableEq ι] in
/-- A message is sent in a burst. -/
lemma Apart.send {start : ℕ} {s t : State u} (h : Apart start s) (hrested : s.Rested start)
    (hclock : t.clock = s.clock) (hbursts : t.bursts = s.bursts)
    (hstamps : ∀ c b, t.Stamps c b → s.Stamps c b ∨ c = s.clock ∧ b = s.bursts)
    (hticking : ∀ now rest burstEnd, t.stage = .ticking now rest burstEnd → now = t.clock)
    (hstage : t.Rested start → t.InBurst start) : Apart start t := by
  have hstart := hrested.start
  refine ⟨hclock ▸ h.start_le, hticking, fun c b hstamp => ?_, fun c b c' b' hstamp hstamp' hlt => ?_,
    hstage ⟨by rwa [hclock], fun c b hstamp hb => ?_⟩⟩
  · rcases hstamps c b hstamp with hold | ⟨rfl, rfl⟩
    · rw [hclock, hbursts]
      exact h.stamps c b hold
    · exact ⟨hclock.ge, hbursts.ge, hstart⟩
  · rcases hstamps c b hstamp with hold | ⟨rfl, rfl⟩
    · rcases hstamps c' b' hstamp' with hold' | ⟨rfl, rfl⟩
      · exact h.apart c b c' b' hold hold' hlt
      · exact hrested.stamps c b hold hlt
    · rcases hstamps c' b' hstamp' with hold' | ⟨rfl, rfl⟩
      · have hb := (h.stamps c' b' hold').2.1
        omega
      · omega
  · rw [hbursts] at hb
    rw [hclock]
    rcases hstamps c b hstamp with hold | ⟨rfl, rfl⟩
    · exact hrested.stamps c b hold hb
    · omega

lemma Apart.turn {start : ℕ} {s t : State u} (h : Apart start s)
    {d : (i : ι) → TurnDraw (u.config i)} (hs : stepTurn d s = some t) : Apart start t := by
  have hin := h.stage
  rw [State.InBurst] at hin
  rw [stepTurn] at hs
  split at hs
  · rename_i hstage
    rw [hstage] at hin
    exact hin.elim
  · rename_i hstage
    rw [hstage] at hin
    obtain rfl := Option.some.inj hs
    exact h.quiet rfl le_rfl le_rfl (by simp) (hin.later rfl le_rfl rfl)
  · rename_i now i rest burstEnd hstage
    obtain rfl := h.ticking _ _ _ hstage
    obtain rfl := Option.some.inj hs
    cases burstEnd with
    | none =>
      rw [hstage] at hin
      exact hin.elim
    | some burstEnd =>
      rw [hstage] at hin
      refine h.send hin rfl rfl (fun c b hstamp => stamps_turn rfl rfl hstamp)
        (fun now' rest' burstEnd' heq => ?_) fun hrested => hrested
      simp only [Stage.ticking.injEq] at heq
      exact heq.1.symm
  · contradiction

omit [DecidableEq ι] in
lemma apart_init (hburst : 0 < u.burstIntervalMs) (mid : ι → Mid) (engine : ArbitrageEngine)
    (clock : ℕ) : Apart clock (State.init u mid engine clock) := by
  have hnone : ∀ c b, ¬ (State.init u mid engine clock).Stamps c b := by
    rintro c b ⟨i, m, hm, -⟩
    exact absurd hm List.not_mem_nil
  have hstage : (State.init u mid engine clock).stage = .outer clock := if_pos hburst
  refine ⟨le_rfl, fun now rest burstEnd heq => ?_, fun c b h => (hnone c b h).elim,
    fun c b _ _ h => (hnone c b h).elim, ?_⟩
  · rw [hstage] at heq
    contradiction
  · rw [State.InBurst, hstage]
    exact ⟨le_rfl, le_rfl, fun c b h => (hnone c b h).elim⟩

lemma apart_step {start : ℕ} {s t : State u} {l : Label u} (h : Apart start s) (hs : Step s l t) :
    Apart start t := by
  cases l with
  | stop =>
    obtain rfl := Option.some.inj hs
    exact h.quiet rfl le_rfl le_rfl h.ticking (h.stage.outside rfl rfl rfl rfl fun _ => rfl)
  | setPaused paused =>
    obtain rfl := Option.some.inj hs
    exact h.quiet rfl le_rfl le_rfl h.ticking (h.stage.outside rfl rfl rfl rfl id)
  | feed nowNs snap =>
    obtain rfl := Option.some.inj hs
    exact h.quiet rfl le_rfl le_rfl h.ticking (h.stage.outside rfl rfl rfl rfl id)
  | load => exact h.load hs
  | clock now =>
    rw [Step, step] at hs
    split at hs
    · rename_i hle
      exact h.clock hle hs
    · contradiction
  | turn d => exact h.turn hs

/-- **Bursts are apart.**  In burst mode every message is sent at least `burst_interval_ms` after
the start, and messages of different bursts are at least as far from each other. -/
theorem bursts_apart (u : Setup ι) (hburst : 0 < u.burstIntervalMs) (mid : ι → Mid)
    (engine : ArbitrageEngine) (clock : ℕ) (ls : List (Label u)) (s : State u)
    (hrun : Run Step (State.init u mid engine clock) ls s) :
    ∀ i, ∀ m ∈ (s.symbols i).sent, (clock : ℤ) + msToNs u.burstIntervalMs ≤ m.clock ∧
      ∀ j, ∀ m' ∈ (s.symbols j).sent, m.burst < m'.burst →
        (m.clock : ℤ) + msToNs u.burstIntervalMs ≤ m'.clock := by
  have h : Apart clock s := hrun.invariant (I := Apart clock) (apart_init hburst mid engine clock)
    fun _ _ _ h hs => apart_step h hs
  intro i m hm
  refine ⟨(h.stamps m.clock m.burst ⟨i, m, hm, rfl, rfl⟩).2.2, fun j m' hm' hlt => ?_⟩
  exact h.apart _ _ _ _ ⟨i, m, hm, rfl, rfl⟩ ⟨j, m', hm', rfl, rfl⟩ hlt

/-- Two bursts of one message each. -/
def twoBursts : List (Label (btcUsdOnly 1000)) :=
  [.load, .load, .clock 1000000000, .load, .clock 1000000000, .load, .clock 1000000000,
    .clock 1000000000, .turn (stillDraw 1000), .turn (stillDraw 1000), .load, .clock 4000000000,
    .clock 4000000000, .load, .load, .clock 5000000000, .load, .clock 5000000000, .load,
    .clock 5000000000, .clock 5000000000, .turn (stillDraw 1000)]

/-- The state after these. -/
def afterTwoBursts : State (btcUsdOnly 1000) :=
  (twoBursts.foldlM step (State.init (btcUsdOnly 1000) (fun _ => startMid) (.new true) 0)).get
    (by decide +kernel)

theorem bursts_apart_btcUsd :
    (afterTwoBursts.symbols ()).sent.map (fun m => (m.clock, m.burst)) =
        [(1000000000, 0), (5000000000, 1)] ∧
      ∀ m ∈ (afterTwoBursts.symbols ()).sent, ((0 : ℕ) : ℤ) + msToNs 1000 ≤ m.clock :=
  ⟨by decide +kernel, fun m hm => (bursts_apart (btcUsdOnly 1000) (by decide) _ (.new true) 0
    twoBursts afterTwoBursts (.of_foldlM (Option.some_get _).symm) () m hm).1⟩

end Loop

end TickPlant.FIXFeedSimulator
