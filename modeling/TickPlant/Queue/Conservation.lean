/-
# What becomes of every ticker

Every ticker that a feed pushes is accepted or refused, once and in the order of the calls of
its feed.  The accepted ones are drained in the order in which they were accepted, the refused
ones are those that `dropped_count_` counts, and the market data map is the one that the mutex
queue would have left after the tickers drained so far.

A call of `drain_all` returns everything that was accepted before it, up to the first push that
has claimed a position and not published it.
-/
import TickPlant.Queue.MpscMoves
import TickPlant.Queue.Tickers

namespace TickPlant

open Lib

/-! ## The account of the tickers -/

namespace Tickers

variable {P : Type}

/-- The tickers accepted, in order. -/
def accepted (fates : List (Fate P)) : List TickerData :=
  (fates.filter Fate.accepted).map Fate.ticker

/-- The number of tickers refused. -/
def refused (fates : List (Fate P)) : ℕ := fates.countP fun f => !f.accepted

@[simp] lemma accepted_concat (fates : List (Fate P)) (f : Fate P) :
    accepted (fates ++ [f]) = if f.accepted then accepted fates ++ [f.ticker] else accepted fates := by
  by_cases h : f.accepted = true <;> simp [accepted, List.filter_append, h]

@[simp] lemma refused_concat (fates : List (Fate P)) (f : Fate P) :
    refused (fates ++ [f]) = if f.accepted then refused fates else refused fates + 1 := by
  by_cases h : f.accepted = true <;> simp [refused, List.countP_append, h]

/-- The tickers that the map holds or has held. -/
def State.drained (s : State P) : List TickerData :=
  match s.reader with
  | .storing _ _ => s.queue.popped.dropLast
  | _ => s.queue.popped

lemma State.drained_of_not_storing {s : State P} (h : ∀ t count, s.reader ≠ .storing t count) :
    s.drained = s.queue.popped := by
  rw [State.drained]
  split
  · rename_i t count hpc
    exact absurd hpc (h t count)
  · rfl

lemma State.drained_of_storing {s : State P} {t : TickerData} {count : ℕ}
    (h : s.reader = .storing t count) : s.drained = s.queue.popped.dropLast := by
  rw [State.drained, h]

/-- The tickers stored by the call of `drain_all` in progress. -/
def ReaderPc.count : ReaderPc → ℕ
  | .idle => 0
  | .popping n | .storing _ n => n

/-- What a feed in `push` has not had decided. -/
def FeedPc.pending : FeedPc → Mpsc.PushPc TickerData → List TickerData
  | .idle, _ => []
  | .pushing _ _, .writeData _ _ => []
  | .pushing _ _, .storeSeq _ _ => []
  | .pushing t _, _ => [t]
  | .loadTail t, _ => [t]
  | .loadHead t _, _ => [t]
  | .counting t _, _ => [t]

/-- A feed and its side of the ring stand at the same place. -/
def FeedPc.Agrees : FeedPc → Mpsc.PushPc TickerData → Prop
  | .pushing t _, pc => pc.Seeks t ∨ pc.Holds t
  | .counting _ _, pc => pc = .returned false
  | _, pc => pc.Quiet

/-- The reader and its side of the ring stand at the same place. -/
def ReaderPc.Agrees : ReaderPc → Mpsc.PopPc TickerData → List TickerData → Prop
  | .idle, pc, _ => pc.Quiet
  | .popping _, pc, _ => ¬ pc.Quiet
  | .storing t _, pc, popped => pc = .returned (some t) ∧ popped.getLast? = some t

lemma FeedPc.pending_seeks {t : TickerData} {occupancy : ℕ} {pc : Mpsc.PushPc TickerData}
    (h : pc.Seeks t) : (FeedPc.pushing t occupancy).pending pc = [t] := by
  cases pc with
  | writeData => exact h.elim
  | storeSeq => exact h.elim
  | _ => rfl

variable [DecidableEq P]

/-- The tickers of a feed that are decided, in order. -/
def ofFeed (p : P) (fates : List (Fate P)) : List TickerData :=
  (fates.filter fun f => f.feed = p).map Fate.ticker

@[simp] lemma ofFeed_concat (p : P) (fates : List (Fate P)) (f : Fate P) :
    ofFeed p (fates ++ [f]) = if f.feed = p then ofFeed p fates ++ [f.ticker] else ofFeed p fates := by
  by_cases h : f.feed = p <;> simp [ofFeed, List.filter_append, h]

/-- Every ticker pushed is accounted for, and the map is that of the tickers drained. -/
structure Accounted (market : MarketDataMap) (s : State P) : Prop where
  accepted_eq : accepted s.fates = s.queue.pushed
  dropped_eq : s.dropped = Mpsc.wrap (refused s.fates)
  agrees : ∀ p, (s.feeds p).Agrees (s.queue.producers p)
  calls_eq : ∀ p, s.calls p = ofFeed p s.fates ++ (s.feeds p).pending (s.queue.producers p)
  reader : s.reader.Agrees s.queue.consumer s.queue.popped
  market_eq : s.market = (MutexSharedQueue.drainLoop s.drained market 0).1
  counts_eq : s.counts.sum + s.reader.count = s.drained.length

lemma accounted_init (d : ℕ → TickerData) (market : MarketDataMap) :
    Accounted market (State.init d market : State P) where
  accepted_eq := rfl
  dropped_eq := rfl
  agrees := fun _ => Or.inl rfl
  calls_eq := fun _ => rfl
  reader := Or.inl rfl
  market_eq := rfl
  counts_eq := rfl

/-- A step of one feed. -/
lemma Accounted.feed {market : MarketDataMap} {s t : State P} (h : Accounted market s) (p : P)
    (hother : ∀ p', p' ≠ p → t.feeds p' = s.feeds p' ∧
      t.queue.producers p' = s.queue.producers p' ∧ t.calls p' = s.calls p' ∧
      ofFeed p' t.fates = ofFeed p' s.fates)
    (hreader : t.reader = s.reader ∧ t.market = s.market ∧ t.counts = s.counts)
    (hring : t.queue.consumer = s.queue.consumer ∧ t.queue.popped = s.queue.popped)
    (haccepted : accepted t.fates = t.queue.pushed)
    (hdropped : t.dropped = Mpsc.wrap (refused t.fates))
    (hagrees : (t.feeds p).Agrees (t.queue.producers p))
    (hcalls : t.calls p = ofFeed p t.fates ++ (t.feeds p).pending (t.queue.producers p)) :
    Accounted market t := by
  obtain ⟨hpc, hmarket, hcounts⟩ := hreader
  obtain ⟨hconsumer, hpopped⟩ := hring
  have hdrained : t.drained = s.drained := by rw [State.drained, State.drained, hpc, hpopped]
  refine ⟨haccepted, hdropped, fun p' => ?_, fun p' => ?_, ?_, ?_, ?_⟩
  · by_cases hp : p' = p
    · exact hp ▸ hagrees
    · obtain ⟨hfeed, hproducer, -, -⟩ := hother p' hp
      rw [hfeed, hproducer]
      exact h.agrees p'
  · by_cases hp : p' = p
    · exact hp ▸ hcalls
    · obtain ⟨hfeed, hproducer, hcall, hof⟩ := hother p' hp
      rw [hfeed, hproducer, hcall, hof]
      exact h.calls_eq p'
  · rw [hpc, hconsumer, hpopped]
    exact h.reader
  · rw [hmarket, hdrained]
    exact h.market_eq
  · rw [hcounts, hpc, hdrained]
    exact h.counts_eq

/-- A step of the reader. -/
lemma Accounted.read {market : MarketDataMap} {s t : State P} (h : Accounted market s)
    (hfeeds : t.feeds = s.feeds ∧ t.calls = s.calls ∧ t.fates = s.fates ∧ t.dropped = s.dropped)
    (hring : t.queue.producers = s.queue.producers ∧ t.queue.pushed = s.queue.pushed)
    (hreader : t.reader.Agrees t.queue.consumer t.queue.popped)
    (hmarket : t.market = (MutexSharedQueue.drainLoop t.drained market 0).1)
    (hcounts : t.counts.sum + t.reader.count = t.drained.length) : Accounted market t := by
  obtain ⟨hfeed, hcall, hfates, hdropped⟩ := hfeeds
  obtain ⟨hproducers, hpushed⟩ := hring
  refine ⟨?_, ?_, fun p => ?_, fun p => ?_, hreader, hmarket, hcounts⟩
  · rw [hfates, hpushed]
    exact h.accepted_eq
  · rw [hdropped, hfates]
    exact h.dropped_eq
  · rw [hfeed, hproducers]
    exact h.agrees p
  · rw [hcall, hfates, hfeed, hproducers]
    exact h.calls_eq p

lemma Accounted.push {market : MarketDataMap} {s : State P} (h : Accounted market s) {p : P}
    {x : TickerData} (hpc : s.feeds p = .idle) :
    Accounted market { s.setFeed p (.loadTail x) with
      calls := Function.update s.calls p (s.calls p ++ [x]) } := by
  have hagrees := h.agrees p
  have hcalls := h.calls_eq p
  rw [hpc] at hagrees hcalls
  refine h.feed p (fun p' hp' => ⟨Function.update_of_ne hp' _ _, rfl,
    Function.update_of_ne hp' _ _, rfl⟩) ⟨rfl, rfl, rfl⟩ ⟨rfl, rfl⟩ h.accepted_eq h.dropped_eq ?_ ?_
  · simp only [State.setFeed, Function.update_self]
    exact hagrees
  · simp only [State.setFeed, Function.update_self, hcalls, FeedPc.pending, List.append_nil]

/-- What the ring has done for a feed in `try_push`, put in the account. -/
lemma Accounted.afterPush {market : MarketDataMap} {s : State P} (h : Accounted market s) {p : P}
    {x : TickerData} {occupancy : ℕ} (hpc : s.feeds p = .pushing x occupancy)
    {queue : Mpsc.State P TickerData} {tail : ℕ}
    (hmove : Mpsc.PushMove tail (s.queue.producers p) s.queue.pushed (queue.producers p)
      queue.pushed)
    (hother : ∀ p', p' ≠ p → queue.producers p' = s.queue.producers p')
    (hring : queue.consumer = s.queue.consumer ∧ queue.popped = s.queue.popped) :
    Accounted market (s.afterPush p x occupancy queue) := by
  have hagrees := h.agrees p
  have hcalls := h.calls_eq p
  rw [hpc] at hagrees hcalls
  have haccepted := h.accepted_eq
  generalize hq : queue.producers p = pc' at hmove
  generalize hq' : queue.pushed = pushed' at hmove
  generalize s.queue.producers p = pc at hmove hagrees hcalls
  generalize s.queue.pushed = pushed at hmove haccepted
  cases hmove with
  -- the call goes on with its own ticker
  | @seek _ _ y _ hseeks hseeks' =>
    have hpending : ∀ y', pc.Seeks y' → y' = y := by
      intro y' hy'
      cases pc <;> first | exact hy'.elim | exact hy'.symm.trans hseeks
    have hx : x = y := by
      rcases hagrees with hagrees | hagrees
      · exact hpending x hagrees
      · cases pc <;> first | exact hagrees.elim | exact hseeks.elim
    subst hx
    have hafter : s.afterPush p x occupancy queue = { s with queue := queue } := by
      rw [State.afterPush, hq]
      cases pc' <;> first | rfl | exact hseeks'.elim
    rw [hafter]
    refine h.feed p (fun p' hp' => ⟨rfl, hother p' hp', rfl, rfl⟩) ⟨rfl, rfl, rfl⟩ hring
      (haccepted.trans hq'.symm) h.dropped_eq ?_ ?_
    · rw [hpc]
      exact Or.inl (hq ▸ hseeks')
    · rw [hpc, hcalls, FeedPc.pending_seeks hseeks, FeedPc.pending_seeks (hq ▸ hseeks')]
  -- refused, but `dropped_count_` is incremented by a later operation
  | @refuse y pos _ =>
    obtain rfl : y = x := hagrees.resolve_right id
    rw [State.afterPush, hq]
    refine h.feed p (fun p' hp' => ⟨Function.update_of_ne hp' _ _, hother p' hp', rfl, rfl⟩)
      ⟨rfl, rfl, rfl⟩ hring (haccepted.trans hq'.symm) h.dropped_eq ?_ ?_
    · simp only [State.setFeed, Function.update_self]
      exact hq
    · simp only [State.setFeed, Function.update_self]
      exact hcalls
  -- the fate of the ticker is settled by the claim
  | @claim y _ =>
    obtain rfl : y = x := hagrees.resolve_right id
    rw [State.afterPush, hq]
    refine h.feed p (fun p' hp' => ⟨rfl, hother p' hp', rfl, ?_⟩) ⟨rfl, rfl, rfl⟩ hring ?_ ?_ ?_ ?_
    · rw [ofFeed_concat, if_neg (Ne.symm hp')]
    · rw [accepted_concat, if_pos rfl, haccepted]
      exact hq'.symm
    · rw [refused_concat, if_pos rfl]
      exact h.dropped_eq
    · rw [hpc, hq]
      exact Or.inr rfl
    · rw [hpc, hq, ofFeed_concat, if_pos rfl, hcalls]
      exact (List.append_nil _).symm
  | @write y pos _ =>
    obtain rfl : y = x := hagrees.resolve_left id
    rw [State.afterPush, hq]
    refine h.feed p (fun p' hp' => ⟨rfl, hother p' hp', rfl, rfl⟩) ⟨rfl, rfl, rfl⟩ hring
      (haccepted.trans hq'.symm) h.dropped_eq ?_ ?_
    · rw [hpc, hq]
      exact Or.inr rfl
    · rw [hpc, hq]
      exact hcalls
  | @publish y pos _ =>
    rw [State.afterPush, hq]
    refine h.feed p (fun p' hp' => ⟨Function.update_of_ne hp' _ _, hother p' hp', rfl, rfl⟩)
      ⟨rfl, rfl, rfl⟩ hring (haccepted.trans hq'.symm) h.dropped_eq ?_ ?_
    · simp only [State.finish, State.setFeed, Function.update_self]
      exact Or.inr ⟨true, hq⟩
    · simp only [State.finish, State.setFeed, Function.update_self]
      exact hcalls

lemma Accounted.loadTail {market : MarketDataMap} {s : State P} (h : Accounted market s) {p : P}
    {x : TickerData} (hpc : s.feeds p = .loadTail x) :
    Accounted market (s.setFeed p (.loadHead x s.queue.ring.tail)) := by
  have hagrees := h.agrees p
  have hcalls := h.calls_eq p
  rw [hpc] at hagrees hcalls
  refine h.feed p (fun p' hp' => ⟨Function.update_of_ne hp' _ _, rfl, rfl, rfl⟩) ⟨rfl, rfl, rfl⟩
    ⟨rfl, rfl⟩ h.accepted_eq h.dropped_eq ?_ ?_
  · simp only [State.setFeed, Function.update_self]
    exact hagrees
  · simp only [State.setFeed, Function.update_self]
    exact hcalls

/-- The call of `try_push`. -/
lemma Accounted.loadHead {market : MarketDataMap} {s : State P} (h : Accounted market s) {p : P}
    {x : TickerData} {tail : ℕ} (hpc : s.feeds p = .loadHead x tail) (occupancy : ℕ) :
    Accounted market { s.setFeed p (.pushing x occupancy) with
      queue := s.queue.setProducer p (.loadTail x) } := by
  have hcalls := h.calls_eq p
  rw [hpc] at hcalls
  refine h.feed p (fun p' hp' => ⟨Function.update_of_ne hp' _ _, Function.update_of_ne hp' _ _,
    rfl, rfl⟩) ⟨rfl, rfl, rfl⟩ ⟨rfl, rfl⟩ h.accepted_eq h.dropped_eq ?_ ?_
  · simp only [State.setFeed, Mpsc.State.setProducer, Function.update_self]
    exact Or.inl rfl
  · simp only [State.setFeed, Mpsc.State.setProducer, Function.update_self]
    exact hcalls

/-- The ticker is counted as dropped. -/
lemma Accounted.counting {market : MarketDataMap} {s : State P} (h : Accounted market s) {p : P}
    {x : TickerData} {occupancy : ℕ} (hpc : s.feeds p = .counting x occupancy) :
    Accounted market { s.finish p x occupancy with
      dropped := Mpsc.wrap (s.dropped + 1), fates := s.fates ++ [⟨p, x, false⟩] } := by
  have hagrees := h.agrees p
  have hcalls := h.calls_eq p
  rw [hpc] at hagrees hcalls
  refine h.feed p (fun p' hp' => ⟨Function.update_of_ne hp' _ _, rfl, rfl, ?_⟩) ⟨rfl, rfl, rfl⟩
    ⟨rfl, rfl⟩ ?_ ?_ ?_ ?_
  · rw [ofFeed_concat, if_neg (Ne.symm hp')]
  · rw [accepted_concat, if_neg (by simp)]
    exact h.accepted_eq
  · show Mpsc.wrap (s.dropped + 1) = _
    rw [refused_concat, if_neg (by simp), h.dropped_eq, Mpsc.wrap_wrap_add]
  · simp only [State.finish, State.setFeed, Function.update_self]
    exact Or.inr ⟨false, hagrees⟩
  · simp only [State.finish, State.setFeed, Function.update_self, ofFeed_concat, if_pos]
    rw [hcalls]
    exact (List.append_nil _).symm

lemma drainLoop_concat (items : List TickerData) (t : TickerData) (market : MarketDataMap)
    (count : ℕ) : (MutexSharedQueue.drainLoop (items ++ [t]) market count).1 =
      (MutexSharedQueue.drainLoop items market count).1.store t := by
  induction items generalizing market count with
  | nil => rfl
  | cons x items ih => exact ih _ _

/-- What the ring has done for the reader in `try_pop`, put in the account. -/
lemma Accounted.afterPop {market : MarketDataMap} {s : State P} (h : Accounted market s) {count : ℕ}
    (hpc : s.reader = .popping count) {queue : Mpsc.State P TickerData}
    (hmove : Mpsc.PopMove s.queue.consumer s.queue.popped queue.consumer queue.popped)
    (hring : queue.producers = s.queue.producers ∧ queue.pushed = s.queue.pushed) :
    Accounted market (s.afterPop count queue) := by
  have hdrained : s.drained = s.queue.popped := State.drained_of_not_storing (by simp [hpc])
  have hmarket := h.market_eq
  have hcounts := h.counts_eq
  rw [hdrained] at hmarket hcounts
  rw [hpc] at hcounts
  generalize hq : queue.consumer = pc' at hmove
  generalize hq' : queue.popped = popped' at hmove
  generalize s.queue.consumer = pc at hmove
  generalize s.queue.popped = popped at hmove hmarket hcounts
  cases hmove with
  | go hbusy hbusy' =>
    have hafter : s.afterPop count queue = { s with queue := queue } := by
      rw [State.afterPop, hq]
      cases pc' with
      | idle => exact absurd (Or.inl rfl) hbusy'
      | returned x => exact absurd (Or.inr ⟨x, rfl⟩) hbusy'
      | _ => rfl
    have hdrained' : State.drained { s with queue := queue } = popped' :=
      (State.drained_of_not_storing (by simp [hpc])).trans hq'
    rw [hafter]
    refine h.read ⟨rfl, rfl, rfl, rfl⟩ hring ?_ ?_ ?_
    · rw [hpc, hq]
      exact hbusy'
    · rw [hdrained']
      exact hmarket
    · rw [hdrained', hpc]
      exact hcounts
  | empty =>
    rw [State.afterPop, hq]
    refine h.read ⟨rfl, rfl, rfl, rfl⟩ hring (Or.inr ⟨none, hq⟩) ?_ ?_
    · rw [State.drained, hq']
      exact hmarket
    · rw [State.drained, hq', List.sum_append]
      exact hcounts
  -- popped, but not yet in the map
  | @take x _ _ =>
    have hstored : (popped ++ [x]).dropLast = popped := List.dropLast_concat
    rw [State.afterPop, hq]
    refine h.read ⟨rfl, rfl, rfl, rfl⟩ hring ⟨hq, hq'.symm ▸ List.getLast?_concat⟩ ?_ ?_
    · rw [State.drained, hq', hstored]
      exact hmarket
    · rw [State.drained, hq', hstored]
      exact hcounts

/-- A popped ticker is stored in the map. -/
lemma Accounted.storing {market : MarketDataMap} {s : State P} (h : Accounted market s)
    (hlen : s.queue.popped.length < 2 ^ 63) {x : TickerData} {count : ℕ}
    (hpc : s.reader = .storing x count) :
    Accounted market { s with
      queue := s.queue.setConsumer .loadHead, market := s.market.store x,
      reader := .popping (Mpsc.wrap (count + 1)) } := by
  have hreader := h.reader
  have hmarket := h.market_eq
  have hcounts := h.counts_eq
  rw [State.drained_of_storing hpc] at hmarket hcounts
  rw [hpc] at hreader hcounts
  have hpopped : s.queue.popped.dropLast ++ [x] = s.queue.popped :=
    List.dropLast_append_getLast? x hreader.2
  refine h.read ⟨rfl, rfl, rfl, rfl⟩ ⟨rfl, rfl⟩ ?_ ?_ ?_
  · rintro (hidle | ⟨y, hy⟩)
    · exact absurd hidle (by simp [Mpsc.State.setConsumer])
    · exact absurd hy (by simp [Mpsc.State.setConsumer])
  · show s.market.store x = (MutexSharedQueue.drainLoop s.queue.popped market 0).1
    rw [← hpopped, drainLoop_concat, hmarket]
  · show s.counts.sum + Mpsc.wrap (count + 1) = s.queue.popped.length
    have hlength := congrArg List.length hpopped
    rw [List.length_append, List.length_singleton] at hlength
    have hsum : s.counts.sum + count = s.queue.popped.dropLast.length := hcounts
    rw [Mpsc.wrap_of_lt (by omega)]
    omega

/-- The call of `drain_all`. -/
lemma Accounted.drain {market : MarketDataMap} {s : State P} (h : Accounted market s)
    (hpc : s.reader = .idle) :
    Accounted market { s with queue := s.queue.setConsumer .loadHead, reader := .popping 0 } := by
  have hmarket := h.market_eq
  have hcounts := h.counts_eq
  rw [State.drained_of_not_storing (by simp [hpc])] at hmarket hcounts
  rw [hpc] at hcounts
  refine h.read ⟨rfl, rfl, rfl, rfl⟩ ⟨rfl, rfl⟩ ?_ hmarket hcounts
  rintro (hidle | ⟨y, hy⟩)
  · exact absurd hidle (by simp [Mpsc.State.setConsumer])
  · exact absurd hy (by simp [Mpsc.State.setConsumer])

lemma accounted_step {market : MarketDataMap} {s t : State P} {l : Label P}
    (h : Accounted market s) (hlen : s.queue.popped.length < 2 ^ 63) (hs : Step s l t) :
    Accounted market t := by
  cases move_of_step hs with
  | push hpc => exact h.push hpc
  | loadTail hpc => exact h.loadTail hpc
  | loadHead hpc hqueue =>
    obtain ⟨rfl, -⟩ := Mpsc.callPush_of_step hqueue
    exact h.loadHead hpc _
  | pushing hpc hqueue =>
    obtain ⟨hmove, hother, hring⟩ := Mpsc.pushMove_of_step hqueue
    exact h.afterPush hpc hmove hother hring
  | counting hpc => exact h.counting hpc
  | drain hpc hqueue =>
    obtain ⟨rfl, -⟩ := Mpsc.callPop_of_step hqueue
    exact h.drain hpc
  | popping hpc hqueue =>
    obtain ⟨hmove, hring⟩ := Mpsc.popMove_of_step hqueue
    exact h.afterPop hpc hmove hring
  | storing hpc hqueue =>
    obtain ⟨rfl, -⟩ := Mpsc.callPop_of_step hqueue
    exact h.storing hlen hpc

/-! ## Runs -/

/-- A step is an operation of the ring, or does not touch it. -/
lemma ring_step {s t : State P} {l : Label P} (hs : Step s l t) :
    t.queue = s.queue ∨ ∃ a, Mpsc.Step queueSize s.queue a t.queue := by
  cases move_of_step hs with
  | push | loadTail | counting => exact Or.inl rfl
  | loadHead _ hqueue | drain _ hqueue | storing _ hqueue => exact Or.inr ⟨_, hqueue⟩
  | @pushing p spurious x occupancy queue _ hqueue =>
    have hafter : (s.afterPush p x occupancy queue).queue = queue := by
      rw [State.afterPush]
      split <;> rfl
    exact Or.inr ⟨_, hafter ▸ hqueue⟩
  | @popping left count queue _ hqueue =>
    have hafter : (s.afterPop count queue).queue = queue := by
      rw [State.afterPop]
      split <;> rfl
    exact Or.inr ⟨_, hafter ▸ hqueue⟩

lemma ring_run {s t : State P} {ls : List (Label P)} (hrun : Run Step s ls t) :
    ∃ as, Run (Mpsc.Step queueSize) s.queue as t.queue := by
  have hsim : ∀ (a : State P) (l : Label P) (b : State P) (queue : Mpsc.State P TickerData),
      a.queue = queue → Step a l b →
        ∃ as queue', Run (Mpsc.Step queueSize) queue as queue' ∧ b.queue = queue' := by
    intro a l b queue hqueue hs
    subst hqueue
    rcases ring_step hs with hb | ⟨act, hact⟩
    · exact ⟨[], _, .nil _, hb⟩
    · exact ⟨[act], _, .single hact, rfl⟩
  obtain ⟨as, queue, has, rfl⟩ :=
    hrun.simulate (R := fun (s : State P) queue => s.queue = queue) rfl hsim
  exact ⟨as, has⟩

lemma ringInv_run {d : ℕ → TickerData} {market : MarketDataMap} {ls : List (Label P)} {s : State P}
    (hrun : Run Step (State.init d market) ls s) (hlen : s.queue.pushed.length < 2 ^ 63) :
    Mpsc.Inv queueSize s.queue := by
  obtain ⟨as, has⟩ := ring_run hrun
  exact Mpsc.inv_run has hlen

lemma accounted_run {d : ℕ → TickerData} {market : MarketDataMap} {ls : List (Label P)}
    {s : State P} (hrun : Run Step (State.init d market) ls s) :
    s.queue.pushed.length < 2 ^ 63 → Accounted market s :=
  hrun.trace_invariant (I := fun _ s => s.queue.pushed.length < 2 ^ 63 → Accounted market s)
    (fun _ => accounted_init d market) fun _ s _ t hrun hs hstep hlen => by
      obtain ⟨as, has⟩ := ring_run (Run.single hstep)
      have hpushed := (Mpsc.length_le_of_run has).1
      have hinv := ringInv_run hrun (by omega)
      have hpopped := hinv.popped_le.length_le
      exact accounted_step (hs (by omega)) (by omega) hstep

omit [DecidableEq P] in
lemma drained_initial (s : State P) : s.drained <+: s.queue.popped := by
  rw [State.drained]
  split
  · exact List.dropLast_prefix _
  · exact List.prefix_rfl

/-- The decided tickers are tickers of calls. -/
lemma Accounted.mem_calls {market : MarketDataMap} {s : State P} (h : Accounted market s)
    {f : Fate P} (hf : f ∈ s.fates) : f.ticker ∈ s.calls f.feed := by
  rw [h.calls_eq]
  exact List.mem_append_left _
    (List.mem_map_of_mem (List.mem_filter.mpr ⟨hf, decide_eq_true rfl⟩))

/-- The tickers of a key that one feed alone pushes are accepted in the order of its calls. -/
lemma Accounted.accepted_sublist {market : MarketDataMap} {s : State P} (h : Accounted market s)
    {key : Bytes} {p : P} (hkey : ∀ p', p' ≠ p → ∀ t ∈ s.calls p', t.key ≠ key) :
    ((accepted s.fates).filter fun t => t.key = key).Sublist
      ((s.calls p).filter fun t => t.key = key) := by
  have hfeed : ∀ f ∈ s.fates, f.ticker.key = key → f.feed = p := by
    intro f hf hfkey
    by_contra hne
    exact hkey f.feed hne _ (h.mem_calls hf) hfkey
  -- among the tickers of this key it changes nothing to ask for the feed as well
  have hsame : (s.fates.filter Fate.accepted).filter (fun f => f.ticker.key = key) =
      ((s.fates.filter Fate.accepted).filter fun f => f.feed = p).filter
        fun f => f.ticker.key = key := by
    conv_rhs => rw [List.filter_filter]
    refine List.filter_congr fun f hf => ?_
    have hone := hfeed f (List.mem_filter.mp hf).1
    by_cases hfkey : f.ticker.key = key
    · simp [hfkey, hone hfkey]
    · simp [hfkey]
  have hof : (((s.fates.filter Fate.accepted).filter fun f => f.feed = p).map Fate.ticker).Sublist
      (ofFeed p s.fates) := by
    rw [List.filter_filter, ofFeed]
    refine (List.monotone_filter_right _ fun f hf => ?_).map _
    exact (Bool.and_eq_true _ _ ▸ hf).1
  have hkeys : (accepted s.fates).filter (fun t => t.key = key) =
      (((s.fates.filter Fate.accepted).filter fun f => f.feed = p).map Fate.ticker).filter
        fun t => t.key = key := by
    rw [accepted, List.filter_map, List.filter_map]
    exact congrArg (List.map Fate.ticker) hsame
  rw [hkeys, h.calls_eq]
  exact (hof.trans (List.sublist_append_left _ _)).filter _

/-- **Every ticker is accounted for.**  In every interleaving of the feeds and the reader, the
calls of a feed are decided in order, but for one that may be in progress, and the refused ones
are counted.  What is drained are the first of those accepted, as many as the calls of
`drain_all` say, and the map is the one that the mutex queue leaves for them.  If one feed alone
pushes the tickers of a key, they are drained in the order of its calls. -/
theorem tickers_accounted (d : ℕ → TickerData) (market : MarketDataMap) (ls : List (Label P))
    (s : State P) (hrun : Run Step (State.init d market) ls s)
    (hlen : s.queue.pushed.length < 2 ^ 63) :
    (∀ p, s.calls p = ofFeed p s.fates ++ (s.feeds p).pending (s.queue.producers p)) ∧
      s.dropped = refused s.fates % 2 ^ 64 ∧ s.drained <+: accepted s.fates ∧
      s.counts.sum + s.reader.count = s.drained.length ∧
      s.market = (MutexSharedQueue.drainLoop s.drained market 0).1 ∧
      ∀ key p, (∀ p', p' ≠ p → ∀ t ∈ s.calls p', t.key ≠ key) →
        (s.drained.filter fun t => t.key = key).Sublist
          ((s.calls p).filter fun t => t.key = key) := by
  have h := accounted_run hrun hlen
  have hdrained : s.drained <+: accepted s.fates := by
    rw [h.accepted_eq]
    exact (drained_initial s).trans (ringInv_run hrun hlen).popped_le
  exact ⟨h.calls_eq, h.dropped_eq, hdrained, h.counts_eq, h.market_eq, fun key p hkey =>
    (hdrained.sublist.filter _).trans (h.accepted_sublist hkey)⟩

/-- A ticker of another exchange for the same symbol. -/
def otherTicker : TickerData := ⟨bytes "BTC", bytes "Binance", 3, 4, 1, 1, 1, 0⟩

/-- Two feeds push at once: the second claims the first position, the first publishes the second
position, and a call of `drain_all` finds nothing ready before the second feed publishes its own. -/
def twoFeeds : List (Label Bool) :=
  [.push false someTicker, .push true otherTicker] ++ List.replicate 4 (.feed false false) ++
    List.replicate 5 (.feed true false) ++ List.replicate 5 (.feed false false) ++
    [.drain, .read someTicker, .read someTicker, .feed true false, .feed true false]

/-- The state after these. -/
def afterTwoFeeds : State Bool :=
  (twoFeeds.foldlM step (State.init (fun _ => someTicker) ∅)).get (by decide +kernel)

lemma run_twoFeeds : Run Step (State.init (fun _ => someTicker) ∅) twoFeeds afterTwoFeeds :=
  .of_foldlM (Option.some_get _).symm

theorem tickers_accounted_twoFeeds :
    afterTwoFeeds.calls true =
        ofFeed true afterTwoFeeds.fates ++
          (afterTwoFeeds.feeds true).pending (afterTwoFeeds.queue.producers true) ∧
      afterTwoFeeds.counts = [0] ∧
      accepted afterTwoFeeds.fates = [otherTicker, someTicker] :=
  ⟨(tickers_accounted _ _ _ _ run_twoFeeds (by decide +kernel)).1 true, by decide +kernel,
    by decide +kernel⟩

end Tickers

end TickPlant
