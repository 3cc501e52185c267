/-
# The order book

The L2 book of `order_book.hpp`: two sides of price levels, the mutators called by the
feeds, and the readers.  The wall clock read by `touch()` is an argument `now` of the
mutators; the reader-writer lock makes every operation atomic and is not represented.

`prune_crossed` is a loop that erases the front bid while it is at or above the front ask.
It is modelled with the number of bids as its fuel, and `find_pruneCrossed` shows that the
loop condition fails when the fuel is used up: what is left is exactly the bids below the
best ask.
-/
import TickPlant.OrderBook.Levels

namespace TickPlant

/-- `OrderBook::Side`. -/
inductive Side
  | bid
  | ask
deriving DecidableEq, Repr

/-- FIX tag 35. -/
inductive FIXMsgType
  | unknown
  | marketDataSnapshot
  | marketDataIncremental
  | newOrderSingle
  | executionReport
deriving DecidableEq, Repr

/-- One price level within a FIX market data message. -/
structure MDEntry where
  /-- Tag 269: `0` bid, `1` ask, `2` trade. -/
  entryType : ℤ
  /-- Tag 279: `0` new, `1` change, `2` delete. -/
  updateAction : ℤ
  price : ℚ
  quantity : ℚ
deriving DecidableEq, Repr

/-- The part of a parsed FIX message that the book and the engine read: `entries` lists
the first `num_entries` entries. -/
structure FIXMessage where
  msgType : FIXMsgType
  symbol : Bytes
  entries : List MDEntry
deriving DecidableEq, Repr

/-- `FIXMessage::is_market_data`. -/
def FIXMessage.isMarketData (msg : FIXMessage) : Bool :=
  msg.msgType = .marketDataSnapshot || msg.msgType = .marketDataIncremental

/-- A copy of a book, or a batch of level changes on its way into one. -/
structure OrderBookSnapshot where
  symbol : Bytes
  exchange : Bytes
  timestampMs : ℕ
  /-- `true`: full replace; `false`: delta, where quantity `0` deletes the level. -/
  isSnapshot : Bool
  bids : List PriceLevel
  asks : List PriceLevel
deriving DecidableEq, Repr

namespace OrderBookSnapshot

/-- `OrderBookSnapshot::empty`. -/
def isEmpty (snap : OrderBookSnapshot) : Bool := snap.bids.isEmpty && snap.asks.isEmpty

/-- `OrderBookSnapshot::best_bid`. -/
def bestBid (snap : OrderBookSnapshot) : ℚ := (snap.bids.head?.map PriceLevel.price).getD 0

/-- `OrderBookSnapshot::best_ask`. -/
def bestAsk (snap : OrderBookSnapshot) : ℚ := (snap.asks.head?.map PriceLevel.price).getD 0

/-- `OrderBookSnapshot::mid_price`. -/
def midPrice (snap : OrderBookSnapshot) : ℚ :=
  if snap.bids.isEmpty || snap.asks.isEmpty then 0 else (snap.bestBid + snap.bestAsk) / 2

/-- `OrderBookSnapshot::spread_bps`. -/
def spreadBps (snap : OrderBookSnapshot) : ℚ :=
  if snap.bestBid ≤ 0 then 0 else (snap.bestAsk - snap.bestBid) / snap.bestBid * 10000

end OrderBookSnapshot

/-- The L2 order book. -/
structure OrderBook where
  symbol : Bytes
  exchange : Bytes
  bids : Levels bidCmp
  asks : Levels askCmp
  lastUpdateMs : ℕ
  snapshotCount : ℕ
  updateCount : ℕ

namespace OrderBook

/-- The constructor `OrderBook(symbol, exchange)`. -/
def new (symbol exchange : Bytes) : OrderBook where
  symbol := symbol
  exchange := exchange
  bids := Levels.empty
  asks := Levels.empty
  lastUpdateMs := 0
  snapshotCount := 0
  updateCount := 0

/-! ## Mutators -/

/-- `OrderBook::touch`. -/
def touch (now : ℕ) (b : OrderBook) : OrderBook := { b with lastUpdateMs := now }

/-- `side[level.price] = level`. -/
def putLevel (side : Side) (level : PriceLevel) (b : OrderBook) : OrderBook :=
  match side with
  | .bid => { b with bids := b.bids.insert level }
  | .ask => { b with asks := b.asks.insert level }

/-- `side.erase(price)`. -/
def dropLevel (side : Side) (price : ℚ) (b : OrderBook) : OrderBook :=
  match side with
  | .bid => { b with bids := b.bids.erase price }
  | .ask => { b with asks := b.asks.erase price }

/-- `OrderBook::set_level`. -/
def setLevel (now : ℕ) (side : Side) (price quantity : ℚ) (orderCount : ℤ) (b : OrderBook) :
    OrderBook :=
  (b.putLevel side ⟨price, quantity, orderCount⟩).touch now

/-- `OrderBook::delete_level`. -/
def deleteLevel (now : ℕ) (side : Side) (price : ℚ) (b : OrderBook) : OrderBook :=
  (b.dropLevel side price).touch now

/-- `OrderBook::clear`. -/
def clear (now : ℕ) (b : OrderBook) : OrderBook :=
  { b with bids := Levels.empty, asks := Levels.empty }.touch now

/-- The side named by an `MDEntryType`; trades and unknown types name none. -/
def entrySide (e : MDEntry) : Option Side :=
  if e.entryType = 0 then some .bid else if e.entryType = 1 then some .ask else none

/-- One turn of the loop of `apply_snapshot`. -/
def applySnapshotEntry (b : OrderBook) (e : MDEntry) : OrderBook :=
  match entrySide e with
  | some side => b.putLevel side ⟨e.price, e.quantity, 0⟩
  | none => b

/-- `OrderBook::apply_snapshot`. -/
def applySnapshot (now : ℕ) (msg : FIXMessage) (b : OrderBook) : OrderBook :=
  if msg.msgType = .marketDataSnapshot then
    let b := { b with bids := Levels.empty, asks := Levels.empty }
    let b := if b.symbol.isEmpty && !msg.symbol.isEmpty then { b with symbol := msg.symbol } else b
    let b := (msg.entries.foldl applySnapshotEntry b).touch now
    { b with snapshotCount := b.snapshotCount + 1 }
  else b

/-- `OrderBook::apply_md_entry`. -/
def applyMdEntry (b : OrderBook) (e : MDEntry) : OrderBook :=
  match entrySide e with
  | none => b
  | some side =>
    if e.updateAction = 0 ∨ e.updateAction = 1 then b.putLevel side ⟨e.price, e.quantity, 0⟩
    else if e.updateAction = 2 then b.dropLevel side e.price
    else b

/-- `OrderBook::apply_update`. -/
def applyUpdate (now : ℕ) (msg : FIXMessage) (b : OrderBook) : OrderBook :=
  if msg.msgType = .marketDataIncremental then
    let b := (msg.entries.foldl applyMdEntry b).touch now
    { b with updateCount := b.updateCount + 1 }
  else b

/-- The loop of `prune_crossed`, on at most `n` turns. -/
def pruneLoop (asks : Levels askCmp) : ℕ → Levels bidCmp → Levels bidCmp
  | 0, bids => bids
  | n + 1, bids =>
    match bids.front?, asks.front? with
    | some b, some a =>
      if b.price ≥ a.price then pruneLoop asks n (bids.erase b.price) else bids
    | _, _ => bids

/-- `OrderBook::prune_crossed`. -/
def pruneCrossed (b : OrderBook) : OrderBook :=
  { b with bids := pruneLoop b.asks b.bids.size b.bids }

/-! ## Readers -/

/-- `OrderBook::get_snapshot`. -/
def getSnapshot (b : OrderBook) : OrderBookSnapshot where
  symbol := b.symbol
  exchange := b.exchange
  timestampMs := b.lastUpdateMs
  isSnapshot := true
  bids := b.bids.toList
  asks := b.asks.toList

/-- `OrderBook::best_bid`. -/
def bestBid (b : OrderBook) : ℚ := (b.bids.front?.map PriceLevel.price).getD 0

/-- `OrderBook::best_ask`. -/
def bestAsk (b : OrderBook) : ℚ := (b.asks.front?.map PriceLevel.price).getD 0

/-- `OrderBook::mid_price`. -/
def midPrice (b : OrderBook) : ℚ :=
  match b.bids.front?, b.asks.front? with
  | some bid, some ask => (bid.price + ask.price) / 2
  | _, _ => 0

/-- `OrderBook::spread_bps`. -/
def spreadBps (b : OrderBook) : ℚ :=
  match b.bids.front?, b.asks.front? with
  | some bid, some ask =>
    if bid.price ≤ 0 then 0 else (ask.price - bid.price) / bid.price * 10000
  | _, _ => 0

/-- The level of a book at a price. -/
def level (b : OrderBook) (side : Side) (price : ℚ) : Option PriceLevel :=
  match side with
  | .bid => b.bids.find price
  | .ask => b.asks.find price

/-- `OrderBook::empty`. -/
def isEmpty (b : OrderBook) : Bool := b.bids.isEmpty && b.asks.isEmpty

lemma isGreatest_bestBid {b : OrderBook} (h : b.bids.isEmpty = false) :
    IsGreatest {p | (b.bids.find p).isSome} b.bestBid := by
  cases hfront : b.bids.front? with
  | none =>
    rw [Levels.front?_eq_none_iff.mp hfront] at h
    cases h
  | some bid =>
    have hbest : b.bestBid = bid.price := by simp [bestBid, hfront]
    rw [hbest]
    refine ⟨?_, ?_⟩
    · show (b.bids.find bid.price).isSome
      rw [Levels.find_of_front? hfront]
      rfl
    · intro p hp
      obtain ⟨l, hl⟩ := Option.isSome_iff_exists.mp hp
      have hlt := Levels.front?_lt hfront hl
      rw [bidCmp_eq_lt] at hlt
      exact hlt.elim ge_of_eq le_of_lt

lemma isLeast_bestAsk {b : OrderBook} (h : b.asks.isEmpty = false) :
    IsLeast {p | (b.asks.find p).isSome} b.bestAsk := by
  cases hfront : b.asks.front? with
  | none =>
    rw [Levels.front?_eq_none_iff.mp hfront] at h
    cases h
  | some ask =>
    have hbest : b.bestAsk = ask.price := by simp [bestAsk, hfront]
    rw [hbest]
    refine ⟨?_, ?_⟩
    · show (b.asks.find ask.price).isSome
      rw [Levels.find_of_front? hfront]
      rfl
    · intro p hp
      obtain ⟨l, hl⟩ := Option.isSome_iff_exists.mp hp
      have hlt := Levels.front?_lt hfront hl
      rw [askCmp_eq_lt] at hlt
      exact hlt.elim le_of_eq le_of_lt

/-! ## Uncrossed books -/

/-- A book is uncrossed when one side is empty or its best bid is below its best ask. -/
def Uncrossed (b : OrderBook) : Prop :=
  b.bids.isEmpty = true ∨ b.asks.isEmpty = true ∨ b.bestBid < b.bestAsk

instance (b : OrderBook) : Decidable b.Uncrossed :=
  inferInstanceAs (Decidable (_ ∨ _ ∨ _))

/-- Equality of the levels of two books, whatever their names, clocks and counters. -/
def SameLevels (b b' : OrderBook) : Prop := b.bids = b'.bids ∧ b.asks = b'.asks

/-- In an uncrossed book every bid is below every ask, and conversely. -/
lemma uncrossed_iff {b : OrderBook} :
    b.Uncrossed ↔ ∀ x ∈ b.bids.toList, ∀ y ∈ b.asks.toList, x.price < y.price := by
  rcases hb : b.bids.front? with _ | bid
  · have he : b.bids.isEmpty = true := Levels.front?_eq_none_iff.mp hb
    refine ⟨fun _ x hx => ?_, fun _ => Or.inl he⟩
    rw [Levels.mem_toList, Levels.isEmpty_iff.mp he] at hx
    exact absurd hx (by simp)
  rcases ha : b.asks.front? with _ | ask
  · have he : b.asks.isEmpty = true := Levels.front?_eq_none_iff.mp ha
    refine ⟨fun _ x _ y hy => ?_, fun _ => Or.inr (Or.inl he)⟩
    rw [Levels.mem_toList, Levels.isEmpty_iff.mp he] at hy
    exact absurd hy (by simp)
  have hbe : b.bids.isEmpty ≠ true := by
    rw [Ne, ← Levels.front?_eq_none_iff, hb]; simp
  have hae : b.asks.isEmpty ≠ true := by
    rw [Ne, ← Levels.front?_eq_none_iff, ha]; simp
  simp only [Uncrossed, hbe, hae, Bool.false_eq_true, false_or, bestBid, bestAsk, hb, ha,
    Option.map_some, Option.getD_some]
  constructor
  · intro hlt x hx y hy
    have hx' := Levels.front?_lt hb (Levels.mem_toList.mp hx)
    have hy' := Levels.front?_lt ha (Levels.mem_toList.mp hy)
    rw [bidCmp_eq_lt] at hx'
    rw [askCmp_eq_lt] at hy'
    have h1 : x.price ≤ bid.price := by rcases hx' with h | h <;> linarith
    have h2 : ask.price ≤ y.price := by rcases hy' with h | h <;> linarith
    linarith
  · intro h
    exact h bid (Levels.mem_toList.mpr (Levels.find_of_front? hb)) ask
      (Levels.mem_toList.mpr (Levels.find_of_front? ha))

/-! ## What pruning leaves -/

/-- Some ask of the side is at or below the price `p`. -/
def CrossedAt (asks : Levels askCmp) (p : ℚ) : Prop := ∃ a ∈ asks.toList, a.price ≤ p

instance (asks : Levels askCmp) (p : ℚ) : Decidable (CrossedAt asks p) :=
  inferInstanceAs (Decidable (∃ a ∈ asks.toList, a.price ≤ p))

lemma crossedAt_iff_front {asks : Levels askCmp} {a : PriceLevel} {p : ℚ}
    (ha : asks.front? = some a) : CrossedAt asks p ↔ a.price ≤ p := by
  constructor
  · rintro ⟨x, hx, hxp⟩
    have := Levels.front?_lt ha (Levels.mem_toList.mp hx)
    rw [askCmp_eq_lt] at this
    rcases this with h | h <;> linarith
  · intro h
    exact ⟨a, Levels.mem_toList.mpr (Levels.find_of_front? ha), h⟩

/-- With at least as many turns as there are bids, the loop of `prune_crossed` erases the
crossed bids and no others. -/
lemma find_pruneLoop (asks : Levels askCmp) (n : ℕ) (bids : Levels bidCmp)
    (hn : bids.size ≤ n) (p : ℚ) :
    (pruneLoop asks n bids).find p = if CrossedAt asks p then none else bids.find p := by
  induction n generalizing bids with
  | zero =>
    have hnone : bids.find p = none := by
      by_contra hne
      obtain ⟨l, hl⟩ := Option.ne_none_iff_exists'.mp hne
      have := Levels.size_pos hl
      omega
    simp [pruneLoop, hnone]
  | succ n ih =>
    rw [pruneLoop]
    rcases hb : bids.front? with _ | b
    · have hnone : bids.find p = none :=
        Levels.isEmpty_iff.mp (Levels.front?_eq_none_iff.mp hb) p
      simp [hnone]
    rcases ha : asks.front? with _ | a
    · have hno : ¬ CrossedAt asks p := by
        rintro ⟨x, hx, -⟩
        rw [Levels.mem_toList,
          Levels.isEmpty_iff.mp (Levels.front?_eq_none_iff.mp ha)] at hx
        exact absurd hx (by simp)
      simp [hno]
    simp only [crossedAt_iff_front ha]
    by_cases hcross : b.price ≥ a.price
    · have hbf := Levels.find_of_front? hb
      have hsize : (bids.erase b.price).size ≤ n := by
        rw [Levels.size_erase hbf]; omega
      simp only [hcross, if_true]
      rw [ih _ hsize, Levels.find_erase]
      simp only [crossedAt_iff_front ha]
      by_cases hp : b.price = p
      · simp [hp ▸ hcross]
      · rw [if_neg hp]
    · -- the front bid is below every ask, and so is every other bid
      simp only [hcross, if_false]
      split
      · rename_i hap
        by_contra hne
        obtain ⟨l, hl⟩ := Option.ne_none_iff_exists'.mp hne
        have := Levels.front?_lt hb hl
        rw [bidCmp_eq_lt] at this
        rcases this with h | h <;> linarith
      · rfl

/-- `prune_crossed` removes exactly the bids at or above some ask. -/
lemma find_pruneCrossed (b : OrderBook) (p : ℚ) :
    b.pruneCrossed.bids.find p = if CrossedAt b.asks p then none else b.bids.find p :=
  find_pruneLoop b.asks b.bids.size b.bids le_rfl p

@[simp] lemma pruneCrossed_asks (b : OrderBook) : b.pruneCrossed.asks = b.asks := rfl

/-- Whatever the book was, it is uncrossed after `prune_crossed`. -/
lemma pruneCrossed_uncrossed (b : OrderBook) : b.pruneCrossed.Uncrossed := by
  rw [uncrossed_iff]
  intro x hx y hy
  rw [Levels.mem_toList, find_pruneCrossed] at hx
  by_contra hle
  rw [if_pos ⟨y, hy, not_lt.mp hle⟩] at hx
  exact absurd hx (by simp)

/-- `prune_crossed` changes nothing in an uncrossed book. -/
lemma pruneCrossed_bids_of_uncrossed {b : OrderBook} (h : b.Uncrossed) :
    b.pruneCrossed.bids = b.bids := by
  ext1 p
  rw [find_pruneCrossed]
  split
  · rename_i hc
    obtain ⟨y, hy, hyp⟩ := hc
    by_contra hne
    obtain ⟨l, hl⟩ := Option.ne_none_iff_exists'.mp (Ne.symm hne)
    have := uncrossed_iff.mp h l (Levels.mem_toList_of_find hl) y hy
    rw [Levels.price_of_find hl] at this
    linarith
  · rfl

/-- The spread of an uncrossed book is not negative. -/
lemma spreadBps_nonneg {b : OrderBook} (h : b.Uncrossed) : 0 ≤ b.spreadBps := by
  rw [spreadBps]
  split
  · rename_i bid ask hb ha
    split
    · exact le_rfl
    · rename_i hpos
      have hlt := uncrossed_iff.mp h bid (Levels.mem_toList.mpr (Levels.find_of_front? hb)) ask
        (Levels.mem_toList.mpr (Levels.find_of_front? ha))
      have : 0 ≤ (ask.price - bid.price) / bid.price :=
        div_nonneg (by linarith) (by linarith)
      linarith
  · exact le_rfl

end OrderBook

end TickPlant
