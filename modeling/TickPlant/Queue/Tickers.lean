/-
# Feeds and a reader on one shared ticker queue

`MPSCSharedQueue` as its threads run it: every feed calls `push`, which measures the occupancy
by the two loads of `size()`, runs `try_push`, and counts a refusal; the reader calls
`drain_all`, which pops until the ring has nothing ready and stores every ticker in the market
data map.  A step is one atomic operation of one thread.  The history says, in the order in
which it was decided, which tickers were accepted and which were refused.
-/
import TickPlant.Queue.Occupancy
import TickPlant.Queue.SharedQueue

namespace TickPlant.Tickers

open Lib

/-- Where a feed stands in `push`. -/
inductive FeedPc
  /-- Outside any call. -/
  | idle
  /-- In `size()`, before the load of `tail_`. -/
  | loadTail (t : TickerData)
  /-- In `size()`, before the load of `head_`. -/
  | loadHead (t : TickerData) (tail : ℕ)
  /-- In `try_push`. -/
  | pushing (t : TickerData) (occupancy : ℕ)
  /-- Before `dropped_count_.fetch_add(1)`. -/
  | counting (t : TickerData) (occupancy : ℕ)
deriving DecidableEq

/-- Where the reader stands in `drain_all`. -/
inductive ReaderPc
  /-- Outside any call. -/
  | idle
  /-- In `try_pop`. -/
  | popping (count : ℕ)
  /-- Before `market_data[key] = std::move(ticker)`. -/
  | storing (t : TickerData) (count : ℕ)
deriving DecidableEq

/-- A ticker whose push is decided: its feed, and whether it was accepted. -/
structure Fate (P : Type) where
  feed : P
  ticker : TickerData
  accepted : Bool

/-- The queue, its threads and their history. -/
structure State (P : Type) where
  queue : Mpsc.State P TickerData
  dropped : ℕ
  feeds : P → FeedPc
  reader : ReaderPc
  market : MarketDataMap
  /-- What `record_operation` has been given: the exchange and the occupancy. -/
  recorded : List (Bytes × ℕ)
  /-- The values that `drain_all` has returned. -/
  counts : List ℕ
  /-- The tickers of the calls of each feed. -/
  calls : P → List TickerData
  fates : List (Fate P)

/-- What may happen next. -/
inductive Label (P : Type)
  /-- The feed `p` calls `push(t)`. -/
  | push (p : P) (t : TickerData)
  /-- The feed `p` executes its next atomic operation; a compare-exchange may fail
  spuriously. -/
  | feed (p : P) (spurious : Bool)
  /-- The reader calls `drain_all`. -/
  | drain
  /-- The reader executes its next operation; a moved-from slot is left with an arbitrary
  value. -/
  | read (left : TickerData)

variable {P : Type} [DecidableEq P]

/-- The queue as it is constructed, before a market data map. -/
def State.init (d : ℕ → TickerData) (market : MarketDataMap) : State P where
  queue := .init d
  dropped := 0
  feeds := fun _ => .idle
  reader := .idle
  market := market
  recorded := []
  counts := []
  calls := fun _ => []
  fates := []

namespace State

/-- A feed moves on, with no effect on the queue. -/
def setFeed (s : State P) (p : P) (pc : FeedPc) : State P :=
  { s with feeds := Function.update s.feeds p pc }

/-- `push` ends with `record_operation`. -/
def finish (s : State P) (p : P) (t : TickerData) (occupancy : ℕ) : State P :=
  { s.setFeed p .idle with recorded := s.recorded ++ [(t.exchange, occupancy)] }

/-- An operation of `try_push` has led to `queue`. -/
def afterPush (s : State P) (p : P) (t : TickerData) (occupancy : ℕ)
    (queue : Mpsc.State P TickerData) : State P :=
  match queue.producers p with
  | .writeData _ _ => { s with queue := queue, fates := s.fates ++ [⟨p, t, true⟩] }
  | .returned true => { s.finish p t occupancy with queue := queue }
  | .returned false => { s.setFeed p (.counting t occupancy) with queue := queue }
  | _ => { s with queue := queue }

/-- An operation of `try_pop` has led to `queue`. -/
def afterPop (s : State P) (count : ℕ) (queue : Mpsc.State P TickerData) : State P :=
  match queue.consumer with
  | .returned none => { s with queue := queue, reader := .idle, counts := s.counts ++ [count] }
  | .returned (some t) => { s with queue := queue, reader := .storing t count }
  | _ => { s with queue := queue }

end State

/-- The next operation of the feed `p` in `push`. -/
def stepFeed (p : P) (spurious : Bool) (s : State P) : Option (State P) :=
  match s.feeds p with
  | .idle => none
  | .loadTail t => some (s.setFeed p (.loadHead t s.queue.ring.tail))
  | .loadHead t tail =>
    (Mpsc.step queueSize s.queue (.callPush p t)).map fun queue =>
      { s.setFeed p (.pushing t (Mpsc.wrap (tail + (2 ^ 64 - s.queue.ring.head)))) with
        queue := queue }
  | .pushing t occupancy =>
    (Mpsc.step queueSize s.queue (.push p spurious)).map (s.afterPush p t occupancy)
  | .counting t occupancy =>
    some { s.finish p t occupancy with
      dropped := Mpsc.wrap (s.dropped + 1), fates := s.fates ++ [⟨p, t, false⟩] }

/-- The next operation of the reader in `drain_all`. -/
def stepReader (left : TickerData) (s : State P) : Option (State P) :=
  match s.reader with
  | .idle => none
  | .popping count => (Mpsc.step queueSize s.queue (.pop left)).map (s.afterPop count)
  | .storing t count =>
    (Mpsc.step queueSize s.queue .callPop).map fun queue =>
      { s with
        queue := queue, market := s.market.store t, reader := .popping (Mpsc.wrap (count + 1)) }

/-- One step; `none` when it is not possible. -/
def step (s : State P) : Label P → Option (State P)
  | .push p t =>
    match s.feeds p with
    | .idle =>
      some { s.setFeed p (.loadTail t) with
        calls := Function.update s.calls p (s.calls p ++ [t]) }
    | _ => none
  | .feed p spurious => stepFeed p spurious s
  | .drain =>
    match s.reader with
    | .idle =>
      (Mpsc.step queueSize s.queue .callPop).map fun queue =>
        { s with queue := queue, reader := .popping 0 }
    | _ => none
  | .read left => stepReader left s

/-- `step` as a transition relation. -/
def Step (s : State P) (l : Label P) (t : State P) : Prop := step s l = some t

/-- What a step can do, with the operation of the ring that goes with it. -/
inductive Move (s : State P) : Label P → State P → Prop
  | push {p : P} {t : TickerData} (h : s.feeds p = .idle) :
      Move s (.push p t) { s.setFeed p (.loadTail t) with
        calls := Function.update s.calls p (s.calls p ++ [t]) }
  | loadTail {p : P} {spurious : Bool} {t : TickerData} (h : s.feeds p = .loadTail t) :
      Move s (.feed p spurious) (s.setFeed p (.loadHead t s.queue.ring.tail))
  | loadHead {p : P} {spurious : Bool} {t : TickerData} {tail : ℕ}
      {queue : Mpsc.State P TickerData} (h : s.feeds p = .loadHead t tail)
      (hqueue : Mpsc.Step queueSize s.queue (.callPush p t) queue) :
      Move s (.feed p spurious)
        { s.setFeed p (.pushing t (Mpsc.wrap (tail + (2 ^ 64 - s.queue.ring.head)))) with
          queue := queue }
  | pushing {p : P} {spurious : Bool} {t : TickerData} {occupancy : ℕ}
      {queue : Mpsc.State P TickerData} (h : s.feeds p = .pushing t occupancy)
      (hqueue : Mpsc.Step queueSize s.queue (.push p spurious) queue) :
      Move s (.feed p spurious) (s.afterPush p t occupancy queue)
  | counting {p : P} {spurious : Bool} {t : TickerData} {occupancy : ℕ}
      (h : s.feeds p = .counting t occupancy) :
      Move s (.feed p spurious) { s.finish p t occupancy with
        dropped := Mpsc.wrap (s.dropped + 1), fates := s.fates ++ [⟨p, t, false⟩] }
  | drain {queue : Mpsc.State P TickerData} (h : s.reader = .idle)
      (hqueue : Mpsc.Step queueSize s.queue .callPop queue) :
      Move s .drain { s with queue := queue, reader := .popping 0 }
  | popping {left : TickerData} {count : ℕ} {queue : Mpsc.State P TickerData}
      (h : s.reader = .popping count) (hqueue : Mpsc.Step queueSize s.queue (.pop left) queue) :
      Move s (.read left) (s.afterPop count queue)
  | storing {left t : TickerData} {count : ℕ} {queue : Mpsc.State P TickerData}
      (h : s.reader = .storing t count) (hqueue : Mpsc.Step queueSize s.queue .callPop queue) :
      Move s (.read left)
        { s with
          queue := queue, market := s.market.store t, reader := .popping (Mpsc.wrap (count + 1)) }

/-- Every step is one of the moves. -/
lemma move_of_step {s t : State P} {l : Label P} (hs : Step s l t) : Move s l t := by
  cases l with
  | push p x =>
    simp only [Step, step] at hs
    split at hs
    · rename_i h; rw [← Option.some.inj hs]; exact .push h
    · exact absurd hs (by simp)
  | feed p spurious =>
    simp only [Step, step, stepFeed] at hs
    split at hs
    · exact absurd hs (by simp)
    · rename_i h; rw [← Option.some.inj hs]; exact .loadTail h
    · rename_i h
      obtain ⟨queue, hqueue, rfl⟩ := Option.map_eq_some_iff.mp hs
      exact .loadHead h hqueue
    · rename_i h
      obtain ⟨queue, hqueue, rfl⟩ := Option.map_eq_some_iff.mp hs
      exact .pushing h hqueue
    · rename_i h; rw [← Option.some.inj hs]; exact .counting h
  | drain =>
    simp only [Step, step] at hs
    split at hs
    · rename_i h
      obtain ⟨queue, hqueue, rfl⟩ := Option.map_eq_some_iff.mp hs
      exact .drain h hqueue
    · exact absurd hs (by simp)
  | read left =>
    simp only [Step, step, stepReader] at hs
    split at hs
    · exact absurd hs (by simp)
    · rename_i h
      obtain ⟨queue, hqueue, rfl⟩ := Option.map_eq_some_iff.mp hs
      exact .popping h hqueue
    · rename_i h
      obtain ⟨queue, hqueue, rfl⟩ := Option.map_eq_some_iff.mp hs
      exact .storing h hqueue

end TickPlant.Tickers
