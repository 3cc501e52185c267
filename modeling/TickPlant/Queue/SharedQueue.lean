/-
# The shared ticker queues

The exchange clients hand their tickers to the main loop through one shared queue, which is
either `MutexSharedQueue`, an unbounded FIFO behind a lock, or `MPSCSharedQueue`, an MPSC
ring buffer of `4096` slots that counts the tickers it has to drop.  `drain_all` moves
everything that is queued into the market data map, under the key `exchange:symbol`.

The calls are executed one after the other.  A session of the MPSC queue carries, beside the
queue and the map, what the calls have returned and the history that the properties speak
of: the tickers accepted, the tickers drained and the number of tickers refused.
-/
import TickPlant.Queue.Sequential
import TickPlant.Text

namespace TickPlant

/-! ## Tickers and the market data map -/

/-- `TickerData`. -/
structure TickerData where
  symbol : Bytes
  exchange : Bytes
  bidPrice : ℚ
  askPrice : ℚ
  bidQuantity : ℚ
  askQuantity : ℚ
  timestampMs : ℕ
  enqueueTsc : ℕ
deriving DecidableEq

/-- `make_ticker_key`. -/
def makeTickerKey (exchange symbol : Bytes) : Bytes := exchange ++ bytes ":" ++ symbol

/-- The key under which a ticker is stored. -/
def TickerData.key (t : TickerData) : Bytes := makeTickerKey t.exchange t.symbol

/-- `std::unordered_map<std::string, TickerData>`. -/
abbrev MarketDataMap := AList fun _ : Bytes => TickerData

/-- `market_data[key] = std::move(ticker)`. -/
def MarketDataMap.store (m : MarketDataMap) (t : TickerData) : MarketDataMap :=
  AList.insert t.key t m

/-! ## The mutex queue -/

/-- `MutexSharedQueue`. -/
structure MutexSharedQueue where
  queue : List TickerData

namespace MutexSharedQueue

/-- `MutexSharedQueue::push`. -/
def push (t : TickerData) (q : MutexSharedQueue) : MutexSharedQueue := ⟨q.queue ++ [t]⟩

/-- The loop of `drain_all`: the map and the count after draining the queue. -/
def drainLoop : List TickerData → MarketDataMap → ℕ → MarketDataMap × ℕ
  | [], market, count => (market, count)
  | t :: rest, market, count => drainLoop rest (market.store t) (Mpsc.wrap (count + 1))

/-- `MutexSharedQueue::drain_all`. -/
def drainAll (q : MutexSharedQueue) (market : MarketDataMap) :
    MutexSharedQueue × MarketDataMap × ℕ := (⟨[]⟩, drainLoop q.queue market 0)

end MutexSharedQueue

/-! ## The MPSC queue -/

/-- `QUEUE_SIZE`, that is `4096`. -/
def queueSize : Mpsc.RingSize := ⟨12, by norm_num, by norm_num⟩

/-- `MPSCSharedQueue`; `dropped` is a `uint64_t`. -/
structure MPSCSharedQueue where
  ring : Mpsc.Ring TickerData
  dropped : ℕ

namespace MPSCSharedQueue

/-- `MPSCSharedQueue::push`, with the answer of `try_push`. -/
def push (spurious : ℕ) (t : TickerData) (q : MPSCSharedQueue) : Option (Bool × MPSCSharedQueue) :=
  match Mpsc.tryPush queueSize spurious t q.ring with
  | none => none
  | some (true, ring) => some (true, { q with ring := ring })
  | some (false, ring) => some (false, { ring := ring, dropped := Mpsc.wrap (q.dropped + 1) })

/-- The loop of `drain_all`, at most `fuel` more iterations; it also returns the tickers
popped, in order. -/
def drainLoop (moved : TickerData → TickerData) :
    ℕ → Mpsc.Ring TickerData → MarketDataMap → ℕ →
      Option (Mpsc.Ring TickerData × MarketDataMap × ℕ × List TickerData)
  | 0, _, _, _ => none
  | fuel + 1, ring, market, count =>
    match Mpsc.tryPop queueSize moved ring with
    | (none, ring) => some (ring, market, count, [])
    | (some t, ring) =>
      (drainLoop moved fuel ring (market.store t) (Mpsc.wrap (count + 1))).map
        fun (ring, market, count, popped) => (ring, market, count, t :: popped)

/-- `MPSCSharedQueue::drain_all`: a pop for each slot and one that fails.  The result is
`none` if the loop would still go on. -/
def drainAll (moved : TickerData → TickerData) (q : MPSCSharedQueue) (market : MarketDataMap) :
    Option (MPSCSharedQueue × MarketDataMap × ℕ × List TickerData) :=
  (drainLoop moved (queueSize.size + 1) q.ring market 0).map
    fun (ring, market, count, popped) => ({ q with ring := ring }, market, count, popped)

/-- The tickers in the queue, from the next one to drain on. -/
def items (q : MPSCSharedQueue) : List TickerData := q.ring.items queueSize

end MPSCSharedQueue

/-! ## Sessions -/

/-- One call on a shared queue; `spurious` is the number of spurious failures of
`compare_exchange_weak` during a push. -/
inductive QueueCall
  | push (t : TickerData) (spurious : ℕ)
  | drainAll
deriving DecidableEq

/-- The ticker that a call pushes. -/
def QueueCall.ticker : QueueCall → Option TickerData
  | .push t _ => some t
  | .drainAll => none

/-- The tickers pushed by a sequence of calls. -/
def tickers (calls : List QueueCall) : List TickerData := calls.filterMap QueueCall.ticker

/-- A mutex queue with the map it is drained into and the counts returned by `drain_all`. -/
structure MutexSession where
  queue : MutexSharedQueue
  market : MarketDataMap
  counts : List ℕ

namespace MutexSession

/-- One call. -/
def step (s : MutexSession) : QueueCall → MutexSession
  | .push t _ => { s with queue := s.queue.push t }
  | .drainAll =>
    let (queue, market, count) := s.queue.drainAll s.market
    ⟨queue, market, s.counts ++ [count]⟩

/-- A sequence of calls on a new queue. -/
def run (market : MarketDataMap) (calls : List QueueCall) : MutexSession :=
  calls.foldl step ⟨⟨[]⟩, market, []⟩

end MutexSession

/-- An MPSC queue with the map it is drained into, the counts returned by `drain_all`, and
its history. -/
structure MpscSession where
  queue : MPSCSharedQueue
  market : MarketDataMap
  counts : List ℕ
  /-- The tickers accepted, in push order. -/
  kept : List TickerData
  /-- The number of tickers refused. -/
  refused : ℕ
  /-- The tickers drained, in order. -/
  drained : List TickerData

namespace MpscSession

/-- One call. -/
def step (moved : TickerData → TickerData) (s : MpscSession) : QueueCall → Option MpscSession
  | .push t spurious =>
    match s.queue.push spurious t with
    | none => none
    | some (true, queue) => some { s with queue := queue, kept := s.kept ++ [t] }
    | some (false, queue) => some { s with queue := queue, refused := s.refused + 1 }
  | .drainAll =>
    match s.queue.drainAll moved s.market with
    | none => none
    | some (queue, market, count, popped) =>
      some { s with
        queue := queue
        market := market
        counts := s.counts ++ [count]
        drained := s.drained ++ popped }

/-- A new queue, with the slots' data as default construction gives them. -/
def init (d : ℕ → TickerData) (market : MarketDataMap) : MpscSession :=
  ⟨⟨.init d, 0⟩, market, [], [], 0, []⟩

/-- A sequence of calls on a new queue. -/
def run (moved : TickerData → TickerData) (d : ℕ → TickerData) (market : MarketDataMap)
    (calls : List QueueCall) : Option MpscSession := calls.foldlM (step moved) (init d market)

end MpscSession

/-! ## What the calls do -/

namespace MPSCSharedQueue

/-- A push on a queue that holds `items`. -/
lemma push_spec {q : MPSCSharedQueue} {items : List TickerData}
    (hr : Mpsc.Represents queueSize q.ring items) (spurious : ℕ) (t : TickerData) :
    ∃ ring, Mpsc.Represents queueSize ring
        (if items.length < queueSize.size then items ++ [t] else items) ∧
      q.push spurious t = some (if items.length < queueSize.size then
        (true, { q with ring := ring })
        else (false, { ring := ring, dropped := Mpsc.wrap (q.dropped + 1) })) := by
  obtain ⟨ring, hpush, hring⟩ := hr.tryPush spurious t
  refine ⟨ring, hring, ?_⟩
  by_cases hroom : items.length < queueSize.size
  · rw [decide_eq_true hroom] at hpush
    simp only [push, hpush, if_pos hroom]
  · rw [decide_eq_false hroom] at hpush
    simp only [push, hpush, if_neg hroom]

/-- The loop of `drain_all` does to the map and the count what the mutex queue's loop does
with the same tickers. -/
lemma drainLoop_spec (moved : TickerData → TickerData) {items : List TickerData} {fuel : ℕ}
    {ring : Mpsc.Ring TickerData} (hr : Mpsc.Represents queueSize ring items)
    (hfuel : items.length < fuel) (market : MarketDataMap) (count : ℕ) :
    ∃ ring', Mpsc.Represents queueSize ring' [] ∧
      drainLoop moved fuel ring market count =
        some (ring', (MutexSharedQueue.drainLoop items market count).1,
          (MutexSharedQueue.drainLoop items market count).2, items) := by
  obtain ⟨h, hr⟩ := hr
  induction items generalizing fuel ring market count h with
  | nil =>
    obtain ⟨fuel, rfl⟩ := Nat.exists_eq_succ_of_ne_zero (Nat.ne_of_gt hfuel)
    exact ⟨ring, ⟨h, hr⟩, by simp [drainLoop, hr.tryPop_nil, MutexSharedQueue.drainLoop]⟩
  | cons t items ih =>
    obtain ⟨fuel, rfl⟩ := Nat.exists_eq_succ_of_ne_zero (Nat.ne_of_gt (Nat.zero_lt_of_lt hfuel))
    obtain ⟨ring₁, hpop, hr₁⟩ := hr.tryPop_cons moved
    have hless : items.length < fuel := by simpa using hfuel
    obtain ⟨ring', hempty, hloop⟩ :=
      ih hless (market.store t) (Mpsc.wrap (count + 1)) (h + 1) hr₁
    refine ⟨ring', hempty, ?_⟩
    simp only [drainLoop, hpop, hloop, Option.map_some, MutexSharedQueue.drainLoop]

end MPSCSharedQueue

/-- The count of `drain_all` is the number of tickers drained. -/
lemma MutexSharedQueue.drainLoop_count (items : List TickerData) (market : MarketDataMap)
    (count : ℕ) :
    (drainLoop items market (Mpsc.wrap count)).2 = Mpsc.wrap (count + items.length) := by
  induction items generalizing market count with
  | nil => rfl
  | cons t items ih =>
    rw [drainLoop, Mpsc.wrap_wrap_add, ih, List.length_cons]
    congr 1
    omega

/-- In the map, the last drained ticker of a key wins. -/
lemma MutexSharedQueue.lookup_drainLoop (items : List TickerData) (market : MarketDataMap)
    (count : ℕ) (key : Bytes) :
    (drainLoop items market count).1.lookup key =
      ((items.filter fun t => t.key = key).getLast?).or (market.lookup key) := by
  induction items generalizing market count with
  | nil => rfl
  | cons t items ih =>
    rw [drainLoop, ih]
    by_cases hkey : t.key = key
    · have hstore : (market.store t).lookup key = some t := by
        rw [← hkey]
        exact AList.lookup_insert _
      rw [hstore, List.filter_cons_of_pos (by simpa using hkey), List.getLast?_cons]
      cases (items.filter fun t => t.key = key).getLast? <;> rfl
    · have hstore : (market.store t).lookup key = market.lookup key :=
        AList.lookup_insert_ne fun h => hkey h.symm
      rw [hstore, List.filter_cons_of_neg (by simpa using hkey)]

/-! ## The invariant of a session -/

namespace MpscSession

variable {moved : TickerData → TickerData} {d : ℕ → TickerData} {market : MarketDataMap}

/-- What holds after a sequence of calls, when `items` are queued. -/
structure Inv (market : MarketDataMap) (calls : List QueueCall) (s : MpscSession)
    (items : List TickerData) : Prop where
  ring : Mpsc.Represents queueSize s.queue.ring items
  kept_eq : s.kept = s.drained ++ items
  dropped_eq : s.queue.dropped = Mpsc.wrap s.refused
  counts_eq : s.counts.sum = s.drained.length
  pushes_eq : (tickers calls).length = s.kept.length + s.refused
  kept_sublist : s.kept.Sublist (tickers calls)
  market_eq : ∀ key, s.market.lookup key =
    ((s.drained.filter fun t => t.key = key).getLast?).or (market.lookup key)

lemma Inv.length_le {calls : List QueueCall} {s : MpscSession} {items : List TickerData}
    (h : Inv market calls s items) : items.length ≤ queueSize.size := by
  obtain ⟨n, hn⟩ := h.ring
  exact hn.length_le

lemma Inv.items_eq {calls : List QueueCall} {s : MpscSession} {items : List TickerData}
    (h : Inv market calls s items) : s.queue.items = items := by
  obtain ⟨n, hn⟩ := h.ring
  exact hn.items_eq

lemma inv_init : Inv market [] (init d market) [] where
  ring := Mpsc.represents_init _ _
  kept_eq := rfl
  dropped_eq := rfl
  counts_eq := rfl
  pushes_eq := rfl
  kept_sublist := List.Sublist.refl _
  market_eq := fun _ => rfl

lemma tickers_push (calls : List QueueCall) (t : TickerData) (spurious : ℕ) :
    tickers (calls ++ [.push t spurious]) = tickers calls ++ [t] := by
  simp [tickers, QueueCall.ticker]

lemma tickers_drainAll (calls : List QueueCall) :
    tickers (calls ++ [.drainAll]) = tickers calls := by
  simp [tickers, QueueCall.ticker]

lemma step_kept (moved : TickerData → TickerData) {s : MpscSession} {t : TickerData}
    {spurious : ℕ} {queue : MPSCSharedQueue} (h : s.queue.push spurious t = some (true, queue)) :
    step moved s (.push t spurious) =
      some { s with queue := queue, kept := s.kept ++ [t] } := by
  unfold step
  simp only [h]

lemma step_refused (moved : TickerData → TickerData) {s : MpscSession} {t : TickerData}
    {spurious : ℕ} {queue : MPSCSharedQueue} (h : s.queue.push spurious t = some (false, queue)) :
    step moved s (.push t spurious) =
      some { s with queue := queue, refused := s.refused + 1 } := by
  unfold step
  simp only [h]

/-- A push on a queue with room keeps its ticker. -/
lemma Inv.push_room (moved : TickerData → TickerData) {calls : List QueueCall}
    {s : MpscSession} {items : List TickerData} (h : Inv market calls s items)
    (hroom : items.length < queueSize.size) (t : TickerData) (spurious : ℕ) :
    ∃ s', step moved s (.push t spurious) = some s' ∧
      Inv market (calls ++ [.push t spurious]) s' (items ++ [t]) ∧
      s'.kept = s.kept ++ [t] ∧ s'.refused = s.refused ∧ s'.market = s.market ∧
      s'.counts = s.counts ∧ s'.drained = s.drained := by
  obtain ⟨ring, hring, hpush⟩ := MPSCSharedQueue.push_spec h.ring spurious t
  rw [if_pos hroom] at hring hpush
  refine ⟨{ s with queue := ⟨ring, s.queue.dropped⟩, kept := s.kept ++ [t] },
    step_kept moved hpush, ?_, rfl, rfl, rfl, rfl, rfl⟩
  refine ⟨hring, ?_, h.dropped_eq, h.counts_eq, ?_, ?_, h.market_eq⟩
  · show s.kept ++ [t] = s.drained ++ (items ++ [t])
    rw [h.kept_eq, List.append_assoc]
  · show _ = (s.kept ++ [t]).length + s.refused
    rw [tickers_push, List.length_append, List.length_append, h.pushes_eq]
    omega
  · show (s.kept ++ [t]).Sublist _
    rw [tickers_push]
    exact h.kept_sublist.append (List.Sublist.refl _)

/-- A push on a full queue is refused and counted. -/
lemma Inv.push_full (moved : TickerData → TickerData) {calls : List QueueCall}
    {s : MpscSession} {items : List TickerData} (h : Inv market calls s items)
    (hfull : ¬ items.length < queueSize.size) (t : TickerData) (spurious : ℕ) :
    ∃ s', step moved s (.push t spurious) = some s' ∧
      Inv market (calls ++ [.push t spurious]) s' items ∧
      s'.kept = s.kept ∧ s'.refused = s.refused + 1 ∧ s'.market = s.market ∧
      s'.counts = s.counts ∧ s'.drained = s.drained := by
  obtain ⟨ring, hring, hpush⟩ := MPSCSharedQueue.push_spec h.ring spurious t
  rw [if_neg hfull] at hring hpush
  refine ⟨{ s with
      queue := ⟨ring, Mpsc.wrap (s.queue.dropped + 1)⟩, refused := s.refused + 1 },
    step_refused moved hpush, ?_, rfl, rfl, rfl, rfl, rfl⟩
  refine ⟨hring, h.kept_eq, ?_, h.counts_eq, ?_, ?_, h.market_eq⟩
  · show Mpsc.wrap (s.queue.dropped + 1) = Mpsc.wrap (s.refused + 1)
    rw [h.dropped_eq, Mpsc.wrap_wrap_add]
  · show _ = s.kept.length + (s.refused + 1)
    rw [tickers_push, List.length_append, h.pushes_eq]
    rfl
  · rw [tickers_push]
    exact h.kept_sublist.trans (List.sublist_append_left _ _)

/-- A drain empties the queue, as that of a mutex queue with the same tickers does. -/
lemma Inv.drainAll (moved : TickerData → TickerData) {calls : List QueueCall}
    {s : MpscSession} {items : List TickerData} (h : Inv market calls s items) :
    ∃ s', step moved s .drainAll = some s' ∧ Inv market (calls ++ [.drainAll]) s' [] ∧
      s'.market = (MutexSharedQueue.drainLoop items s.market 0).1 ∧
      s'.counts = s.counts ++ [(MutexSharedQueue.drainLoop items s.market 0).2] ∧
      s'.drained = s.drained ++ items := by
  have hle := h.length_le
  obtain ⟨ring, hring, hloop⟩ :=
    MPSCSharedQueue.drainLoop_spec moved h.ring (Nat.lt_succ_of_le hle) s.market 0
  refine ⟨{ s with
      queue := ⟨ring, s.queue.dropped⟩
      market := (MutexSharedQueue.drainLoop items s.market 0).1
      counts := s.counts ++ [(MutexSharedQueue.drainLoop items s.market 0).2]
      drained := s.drained ++ items },
    ?_, ?_, rfl, rfl, rfl⟩
  · unfold step
    simp only [MPSCSharedQueue.drainAll, hloop, Option.map_some]
  refine ⟨hring, ?_, h.dropped_eq, ?_, ?_, ?_, ?_⟩
  · show s.kept = s.drained ++ items ++ []
    rw [h.kept_eq, List.append_nil]
  · show (s.counts ++ [(MutexSharedQueue.drainLoop items s.market 0).2]).sum =
      (s.drained ++ items).length
    have hcount := MutexSharedQueue.drainLoop_count items s.market 0
    have hsize : queueSize.size = 4096 := rfl
    have hwrap : Mpsc.wrap (0 + items.length) = items.length := by
      rw [Mpsc.wrap, Nat.mod_eq_of_lt (by omega), Nat.zero_add]
    rw [hwrap] at hcount
    rw [List.sum_append, h.counts_eq, List.length_append, List.sum_singleton]
    exact congrArg _ hcount
  · rw [tickers_drainAll]
    exact h.pushes_eq
  · rw [tickers_drainAll]
    exact h.kept_sublist
  · intro key
    show (MutexSharedQueue.drainLoop items s.market 0).1.lookup key =
      (((s.drained ++ items).filter fun t => t.key = key).getLast?).or (market.lookup key)
    rw [MutexSharedQueue.lookup_drainLoop, h.market_eq, List.filter_append,
      List.getLast?_append, Option.or_assoc]

/-- Every call returns and keeps the invariant. -/
lemma Inv.step (moved : TickerData → TickerData) {calls : List QueueCall}
    {s : MpscSession} {items : List TickerData} (h : Inv market calls s items) (call : QueueCall) :
    ∃ s' items', step moved s call = some s' ∧ Inv market (calls ++ [call]) s' items' := by
  cases call with
  | push t spurious =>
    by_cases hroom : items.length < queueSize.size
    · obtain ⟨s', hs, h', -⟩ := h.push_room moved hroom t spurious
      exact ⟨s', _, hs, h'⟩
    · obtain ⟨s', hs, h', -⟩ := h.push_full moved hroom t spurious
      exact ⟨s', _, hs, h'⟩
  | drainAll =>
    obtain ⟨s', hs, h', -⟩ := h.drainAll moved
    exact ⟨s', _, hs, h'⟩

lemma run_append {calls : List QueueCall} {s : MpscSession} (call : QueueCall)
    (hrun : run moved d market calls = some s) :
    run moved d market (calls ++ [call]) = MpscSession.step moved s call := by
  rw [run] at hrun
  rw [run, List.foldlM_append, hrun]
  simp

/-- Every sequence of calls returns and keeps the invariant. -/
lemma inv_run (moved : TickerData → TickerData) (d : ℕ → TickerData) (market : MarketDataMap)
    (calls : List QueueCall) :
    ∃ s items, run moved d market calls = some s ∧ Inv market calls s items := by
  induction calls using List.reverseRecOn with
  | nil => exact ⟨init d market, [], rfl, inv_init⟩
  | append_singleton calls call ih =>
    obtain ⟨s, items, hrun, h⟩ := ih
    obtain ⟨s', items', hs, h'⟩ := h.step moved call
    exact ⟨s', items', by rw [run_append call hrun, hs], h'⟩

end MpscSession

/-! ## The two queues agree -/

/-- At most `n` pushes come before the first drain and between two consecutive drains. -/
def AtMostBetweenDrains (n : ℕ) (calls : List QueueCall) : Prop :=
  ∀ before block after, calls = before ++ block ++ .drainAll :: after →
    (∀ call ∈ block, call ≠ .drainAll) → block.length ≤ n

lemma AtMostBetweenDrains.of_append {n : ℕ} {calls calls' : List QueueCall}
    (h : AtMostBetweenDrains n (calls ++ calls')) : AtMostBetweenDrains n calls := by
  intro before block after heq hblock
  refine h before block (after ++ calls') ?_ hblock
  rw [heq, List.append_assoc, List.append_assoc, List.cons_append]
  simp [List.append_assoc]

lemma MutexSession.run_append (market : MarketDataMap) (calls : List QueueCall)
    (call : QueueCall) : run market (calls ++ [call]) = (run market calls).step call := by
  rw [run, run, List.foldl_append]
  rfl

/-- The mutex queue holds the tickers of the calls since the last drain. -/
lemma MutexSession.queue_block (market : MarketDataMap) (calls : List QueueCall) :
    ∃ before block, calls = before ++ block ∧ (∀ call ∈ block, call ≠ .drainAll) ∧
      (run market calls).queue.queue.length = block.length := by
  induction calls using List.reverseRecOn with
  | nil => exact ⟨[], [], rfl, fun call hcall => absurd hcall (by simp), rfl⟩
  | append_singleton calls call ih =>
    obtain ⟨before, block, rfl, hblock, hlen⟩ := ih
    rw [run_append]
    cases call with
    | push t spurious =>
      refine ⟨before, block ++ [.push t spurious], by rw [List.append_assoc], ?_, ?_⟩
      · intro call hcall
        rcases List.mem_append.mp hcall with hmem | hmem
        · exact hblock call hmem
        · rw [List.mem_singleton.mp hmem]
          simp
      · show (_ ++ [t]).length = _
        rw [List.length_append, List.length_append, hlen]
        rfl
    | drainAll =>
      exact ⟨before ++ block ++ [.drainAll], [], by simp, fun call hcall => absurd hcall (by simp),
        rfl⟩

/-- While no block of pushes exceeds the size of the ring, the MPSC queue does what the mutex
queue does; a block that no drain follows may exceed it. -/
lemma agree_run (moved : TickerData → TickerData) (d : ℕ → TickerData) (market : MarketDataMap)
    (calls : List QueueCall) (hcalls : AtMostBetweenDrains 4096 calls) :
    ∃ s items, MpscSession.run moved d market calls = some s ∧
      MpscSession.Inv market calls s items ∧
      s.market = (MutexSession.run market calls).market ∧
      s.counts = (MutexSession.run market calls).counts ∧
      s.drained ++ (MutexSession.run market calls).queue.queue = tickers calls ∧
      ((MutexSession.run market calls).queue.queue.length ≤ 4096 →
        items = (MutexSession.run market calls).queue.queue) := by
  induction calls using List.reverseRecOn with
  | nil => exact ⟨_, [], rfl, MpscSession.inv_init, rfl, rfl, rfl, fun _ => rfl⟩
  | append_singleton calls call ih =>
    obtain ⟨s, items, hrun, h, hmarket, hcounts, hall, hitems⟩ := ih hcalls.of_append
    have hsize : queueSize.size = 4096 := rfl
    rw [MutexSession.run_append]
    cases call with
    | push t spurious =>
      have hqueue : ((MutexSession.run market calls).step (.push t spurious)).queue.queue =
        (MutexSession.run market calls).queue.queue ++ [t] := rfl
      have hall' : s.drained ++ ((MutexSession.run market calls).queue.queue ++ [t]) =
          tickers (calls ++ [.push t spurious]) := by
        rw [MpscSession.tickers_push, ← hall, List.append_assoc]
      by_cases hroom : items.length < queueSize.size
      · obtain ⟨s', hs, h', -, -, hm, hc, hd⟩ := h.push_room moved hroom t spurious
        refine ⟨s', _, by rw [MpscSession.run_append _ hrun, hs], h', hm.trans hmarket,
          hc.trans hcounts, by rw [hd, hqueue, hall'], ?_⟩
        intro hle
        rw [hqueue] at hle ⊢
        rw [hitems (by rw [List.length_append] at hle; omega)]
      · obtain ⟨s', hs, h', -, -, hm, hc, hd⟩ := h.push_full moved hroom t spurious
        refine ⟨s', _, by rw [MpscSession.run_append _ hrun, hs], h', hm.trans hmarket,
          hc.trans hcounts, by rw [hd, hqueue, hall'], ?_⟩
        -- the ring is full, so the block is longer than the ring
        intro hle
        rw [hqueue, List.length_append, List.length_singleton] at hle
        rw [hitems (by omega)] at hroom
        omega
    | drainAll =>
      obtain ⟨before, block, hsplit, hblock, hlen⟩ := MutexSession.queue_block market calls
      have hle : (MutexSession.run market calls).queue.queue.length ≤ 4096 := by
        rw [hlen]
        exact hcalls before block [] (by rw [hsplit]) hblock
      obtain ⟨s', hs, h', hm, hc, hd⟩ := h.drainAll moved
      rw [hitems hle, hmarket] at hm hc
      refine ⟨s', _, by rw [MpscSession.run_append _ hrun, hs], h', hm, ?_, ?_, fun _ => rfl⟩
      · rw [hc, hcounts]
        rfl
      · rw [hd, hitems hle, hall, MpscSession.tickers_drainAll]
        exact List.append_nil _

/-- **The shared queues.**  Every sequence of calls on the MPSC queue returns.  If at most
`4096` pushes come before each drain, since the one before it, then the drains return the
counts of the mutex queue and leave its map, in which the last ticker pushed for a key wins.
Whatever the sequence, the pushes are the tickers drained, those still queued and those
refused, of which `dropped_count_` is the number modulo `2 ^ 64`; the tickers kept are drained
in push order, and a push is refused exactly when `4096` tickers are queued. -/
theorem sharedQueues_agree (moved : TickerData → TickerData) (d : ℕ → TickerData)
    (market : MarketDataMap) (calls : List QueueCall) :
    ∃ s, MpscSession.run moved d market calls = some s ∧
      (AtMostBetweenDrains 4096 calls →
        s.counts = (MutexSession.run market calls).counts ∧
        s.market = (MutexSession.run market calls).market ∧
        s.drained ++ (MutexSession.run market calls).queue.queue = tickers calls) ∧
      (∀ key, s.market.lookup key =
        ((s.drained.filter fun t => t.key = key).getLast?).or (market.lookup key)) ∧
      (tickers calls).length = s.counts.sum + s.queue.items.length + s.refused ∧
      s.queue.dropped = s.refused % 2 ^ 64 ∧
      s.kept = s.drained ++ s.queue.items ∧ s.kept.Sublist (tickers calls) ∧
      ∀ t spurious, ∃ s',
        MpscSession.run moved d market (calls ++ [.push t spurious]) = some s' ∧
        if s.queue.items.length = 4096 then s'.kept = s.kept ∧ s'.refused = s.refused + 1
        else s'.kept = s.kept ++ [t] ∧ s'.refused = s.refused := by
  obtain ⟨s, items, hrun, h⟩ := MpscSession.inv_run moved d market
    calls
  have hitems := h.items_eq
  have hsize : queueSize.size = 4096 := rfl
  refine ⟨s, hrun, ?_, h.market_eq, ?_, h.dropped_eq, ?_, h.kept_sublist, ?_⟩
  · intro hcalls
    obtain ⟨s', -, hrun', -, hm, hc, hall, -⟩ :=
      agree_run moved d market calls hcalls
    obtain rfl : s = s' := Option.some.inj (hrun.symm.trans hrun')
    exact ⟨hc, hm, hall⟩
  · rw [h.pushes_eq, h.kept_eq, h.counts_eq, hitems, List.length_append]
  · rw [hitems]
    exact h.kept_eq
  · intro t spurious
    rw [hitems, MpscSession.run_append _ hrun]
    by_cases hroom : items.length < queueSize.size
    · obtain ⟨s', hs, -, hk, hf, -⟩ := h.push_room moved hroom t spurious
      exact ⟨s', hs, by rw [if_neg (by omega)]; exact ⟨hk, hf⟩⟩
    · obtain ⟨s', hs, -, hk, hf, -⟩ := h.push_full moved hroom t spurious
      have hle := h.length_le
      exact ⟨s', hs, by rw [if_pos (by omega)]; exact ⟨hk, hf⟩⟩

/-- A ticker for the example below. -/
def someTicker : TickerData := ⟨bytes "BTC", bytes "Kraken", 1, 2, 1, 1, 0, 0⟩

/-- Any number of pushes without a drain returns, with no count. -/
lemma exists_pushes (n : ℕ) :
    ∃ calls s items, MpscSession.run id (fun _ => someTicker) ∅ calls = some s ∧
      MpscSession.Inv ∅ calls s items ∧ (tickers calls).length = n ∧ s.counts = [] := by
  induction n with
  | zero => exact ⟨[], _, [], rfl, MpscSession.inv_init, rfl, rfl⟩
  | succ n ih =>
    obtain ⟨calls, s, items, hrun, h, hlen, hcounts⟩ := ih
    have hlen' : (tickers (calls ++ [.push someTicker 0])).length = n + 1 := by
      rw [MpscSession.tickers_push, List.length_append, hlen]
      rfl
    by_cases hroom : items.length < queueSize.size
    · obtain ⟨s', hs, h', -, -, -, hc, -⟩ := h.push_room id hroom someTicker 0
      exact ⟨_, s', _, by rw [MpscSession.run_append _ hrun, hs], h', hlen', hc.trans hcounts⟩
    · obtain ⟨s', hs, h', -, -, -, hc, -⟩ := h.push_full id hroom someTicker 0
      exact ⟨_, s', _, by rw [MpscSession.run_append _ hrun, hs], h', hlen', hc.trans hcounts⟩

/-- After `2 ^ 64 + 4096` pushes without a drain, `dropped_count_` has wrapped around and no
longer balances the pushes. -/
theorem drop_counter_wraps :
    ¬ ∀ (calls : List QueueCall) (s : MpscSession),
      MpscSession.run id (fun _ => someTicker) ∅ calls = some s →
      (tickers calls).length = s.counts.sum + s.queue.items.length + s.queue.dropped := by
  intro hclaim
  obtain ⟨calls, s, items, hrun, h, hlen, hcounts⟩ := exists_pushes (2 ^ 64 + 4096)
  have heq := hclaim calls s hrun
  have hle : items.length ≤ 4096 := h.length_le
  have hlt : s.queue.dropped < 2 ^ 64 := by
    rw [h.dropped_eq]
    exact Nat.mod_lt _ (by norm_num)
  -- nothing was drained, so all but the queued tickers would have to be counted
  rw [hlen, hcounts, h.items_eq, List.sum_nil] at heq
  omega

end TickPlant
