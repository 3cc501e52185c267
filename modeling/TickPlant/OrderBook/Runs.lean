/-
# Sequences of book operations

The six mutators of `OrderBook` as one type of calls, and the books that a sequence of them
reaches from the constructor.

Two results about the books themselves.  The derived quotes are computed twice, by the methods
of `OrderBook` and by those of the `OrderBookSnapshot` that `get_snapshot` returns; a report is
written from the latter and a tick from the former.  The methods of the snapshot ask only for a
positive best bid where those of the book ask for both sides, so the spreads of a book with bids
and no asks differ (`quotes_agree_iff`).  And `prune_crossed`, whose loop is modelled with fuel
in `pruneLoop`, is compared with the loop taken turn by turn (`pruneCrossed_filters`).
-/
import TickPlant.OrderBook.Book
import TickPlant.Lib.Run

namespace TickPlant

/-- A call of a mutator, with the reading of the clock. -/
inductive BookOp
  | applySnapshot (now : ℕ) (msg : FIXMessage)
  | applyUpdate (now : ℕ) (msg : FIXMessage)
  | setLevel (now : ℕ) (side : Side) (price quantity : ℚ) (orderCount : ℤ)
  | deleteLevel (now : ℕ) (side : Side) (price : ℚ)
  | clear (now : ℕ)
  | pruneCrossed
deriving DecidableEq

namespace OrderBook

/-- One call. -/
def applyOp (b : OrderBook) : BookOp → OrderBook
  | .applySnapshot now msg => b.applySnapshot now msg
  | .applyUpdate now msg => b.applyUpdate now msg
  | .setLevel now side price quantity orderCount => b.setLevel now side price quantity orderCount
  | .deleteLevel now side price => b.deleteLevel now side price
  | .clear now => b.clear now
  | .pruneCrossed => b.pruneCrossed

/-- A sequence of calls. -/
def run (ops : List BookOp) (b : OrderBook) : OrderBook := ops.foldl applyOp b

/-! ## The derived quotes -/

/-- The methods of the book and those of its snapshot return the same quotes. -/
def QuotesAgree (b : OrderBook) : Prop :=
  b.bestBid = b.getSnapshot.bestBid ∧ b.bestAsk = b.getSnapshot.bestAsk ∧
    b.midPrice = b.getSnapshot.midPrice ∧ b.spreadBps = b.getSnapshot.spreadBps

instance (b : OrderBook) : Decidable b.QuotesAgree := inferInstanceAs (Decidable (_ ∧ _))

/-- An ask rests in the book, or no bid has a positive price. -/
def AsksOrNoValue (b : OrderBook) : Prop :=
  (∃ p l, b.asks.find p = some l) ∨ ∀ p l, b.bids.find p = some l → p ≤ 0

lemma bestBid_getSnapshot (b : OrderBook) : b.getSnapshot.bestBid = b.bestBid := rfl

lemma bestAsk_getSnapshot (b : OrderBook) : b.getSnapshot.bestAsk = b.bestAsk := rfl

lemma midPrice_getSnapshot (b : OrderBook) : b.getSnapshot.midPrice = b.midPrice := by
  have hempty : ∀ l : List PriceLevel, l.isEmpty = l.head?.isNone := by
    intro l
    cases l <;> rfl
  have hbids : b.getSnapshot.bids.isEmpty = b.bids.front?.isNone := hempty b.bids.toList
  have hasks : b.getSnapshot.asks.isEmpty = b.asks.front?.isNone := hempty b.asks.toList
  rw [OrderBookSnapshot.midPrice, hbids, hasks, bestBid_getSnapshot, bestAsk_getSnapshot, midPrice,
    bestBid, bestAsk]
  cases b.bids.front? <;> cases b.asks.front? <;> rfl

/-- The two spreads: only a book with a best bid of positive price and no asks tells them
apart. -/
lemma spreadBps_getSnapshot_iff (b : OrderBook) :
    b.spreadBps = b.getSnapshot.spreadBps ↔ b.AsksOrNoValue := by
  rw [OrderBookSnapshot.spreadBps, bestBid_getSnapshot, bestAsk_getSnapshot]
  cases hask : b.asks.front? with
  | some ask =>
    have hcond : b.AsksOrNoValue := Or.inl ⟨ask.price, ask, Levels.find_of_front? hask⟩
    refine iff_of_true ?_ hcond
    rw [spreadBps, bestBid, bestAsk, hask]
    cases b.bids.front? <;> simp
  | none =>
    have hnone := Levels.isEmpty_iff.mp (Levels.front?_eq_none_iff.mp hask)
    have hcond : b.AsksOrNoValue ↔ ∀ p l, b.bids.find p = some l → p ≤ 0 := by
      rw [AsksOrNoValue]
      simp [hnone]
    rw [hcond, spreadBps, bestBid, bestAsk, hask]
    cases hbid : b.bids.front? with
    | none =>
      have hempty := Levels.isEmpty_iff.mp (Levels.front?_eq_none_iff.mp hbid)
      simp [hempty]
    | some bid =>
      have hall : (∀ p l, b.bids.find p = some l → p ≤ 0) ↔ bid.price ≤ 0 := by
        constructor
        · intro h
          exact h bid.price bid (Levels.find_of_front? hbid)
        · intro h p l hl
          have hlt := Levels.front?_lt hbid hl
          rw [bidCmp_eq_lt] at hlt
          exact (hlt.elim ge_of_eq le_of_lt).trans h
      rw [hall]
      by_cases hpos : bid.price ≤ 0
      · simp [hpos]
      · -- the ask is taken as `0`, which is a whole bid away
        have hne : bid.price ≠ 0 := fun h => hpos h.le
        simp [hpos, neg_div, div_self hne]

lemma quotesAgree_iff (b : OrderBook) : b.QuotesAgree ↔ b.AsksOrNoValue := by
  rw [QuotesAgree, bestBid_getSnapshot, bestAsk_getSnapshot, midPrice_getSnapshot,
    spreadBps_getSnapshot_iff]
  simp

/-- **When a report and a tick quote the same.**  In every book that a sequence of calls
reaches, the quotes of the book are those of its snapshot if and only if an ask rests in the
book or no bid has a positive price. -/
theorem quotes_agree_iff (symbol exchange : Bytes) (ops : List BookOp) :
    ((new symbol exchange).run ops).QuotesAgree ↔
      ((new symbol exchange).run ops).AsksOrNoValue :=
  quotesAgree_iff _

/-- The book after a first bid. -/
def oneBid : List BookOp := [.setLevel 0 .bid 100 1 1]

/-- With one bid and no ask, the spread is `0` in the book and `-10000` in the snapshot. -/
theorem one_bid_disagrees :
    ¬ ∀ (symbol exchange : Bytes) (ops : List BookOp),
      ((new symbol exchange).run ops).QuotesAgree := by
  intro hclaim
  exact absurd (hclaim [] [] oneBid) (by decide +kernel)

/-! ## Pruning, turn by turn -/

/-- One turn of the loop of `prune_crossed`: it takes place if both sides have levels and the
front bid is at or above the front ask, and erases that bid. -/
def PruneTurn (b : OrderBook) (p : ℚ) (b' : OrderBook) : Prop :=
  ∃ bid ask, b.bids.front? = some bid ∧ b.asks.front? = some ask ∧ bid.price ≥ ask.price ∧
    p = bid.price ∧ b' = { b with bids := b.bids.erase p }

/-- Whatever its fuel, the loop with fuel consists of turns. -/
lemma turns_pruneLoop (n : ℕ) (b : OrderBook) :
    ∃ erased, Lib.Run PruneTurn b erased { b with bids := pruneLoop b.asks n b.bids } := by
  induction n generalizing b with
  | zero => exact ⟨[], .nil b⟩
  | succ n ih =>
    rw [pruneLoop]
    split
    · rename_i bid ask hbid hask
      by_cases hcross : bid.price ≥ ask.price
      · rw [if_pos hcross]
        have hturn : PruneTurn b bid.price { b with bids := b.bids.erase bid.price } :=
          ⟨bid, ask, hbid, hask, hcross, rfl, rfl⟩
        obtain ⟨erased, hrun⟩ := ih { b with bids := b.bids.erase bid.price }
        exact ⟨bid.price :: erased, .cons hturn hrun⟩
      · rw [if_neg hcross]
        exact ⟨[], .nil b⟩
    · exact ⟨[], .nil b⟩

/-- In an uncrossed book the loop is over. -/
lemma Uncrossed.no_turn {b b' : OrderBook} {p : ℚ} (h : b.Uncrossed) : ¬ PruneTurn b p b' := by
  rintro ⟨bid, ask, hbid, hask, hcross, -, -⟩
  have hlt := uncrossed_iff.mp h bid (List.mem_of_head? hbid) ask (List.mem_of_head? hask)
  exact absurd hcross (not_le.mpr hlt)

/-- A price is crossed if there are asks and the best of them is at or below it. -/
lemma crossedAt_iff_bestAsk (b : OrderBook) (p : ℚ) :
    CrossedAt b.asks p ↔ b.asks.isEmpty = false ∧ b.bestAsk ≤ p := by
  rcases hask : b.asks.front? with _ | ask
  · have he := Levels.front?_eq_none_iff.mp hask
    rw [he]
    refine iff_of_false ?_ (by simp)
    rintro ⟨a, ha, -⟩
    rw [Levels.mem_toList, Levels.isEmpty_iff.mp he] at ha
    cases ha
  · have he : b.asks.isEmpty = false := by
      rw [← Bool.not_eq_true, ← Levels.front?_eq_none_iff, hask]
      simp
    rw [crossedAt_iff_front hask, bestAsk, hask, he]
    simp

/-- **What `prune_crossed` does.**  For every book the loop ends, after finitely many turns, in
the book that `pruneCrossed` returns.  A bid is gone if there are asks and its price is at or
above the best of them, and otherwise rests with its quantity and count; nothing but the bids has
changed.  The book is uncrossed, and a second call changes nothing. -/
theorem pruneCrossed_filters (b : OrderBook) :
    (∃ erased, Lib.Run PruneTurn b erased b.pruneCrossed ∧
        ∀ p b', ¬ PruneTurn b.pruneCrossed p b') ∧
      (∀ p, b.pruneCrossed.bids.find p =
        if b.asks.isEmpty = false ∧ b.bestAsk ≤ p then none else b.bids.find p) ∧
      { b.pruneCrossed with bids := b.bids } = b ∧
      b.pruneCrossed.Uncrossed ∧ b.pruneCrossed.pruneCrossed = b.pruneCrossed := by
  have huncrossed := pruneCrossed_uncrossed b
  refine ⟨?_, ?_, rfl, huncrossed, ?_⟩
  · obtain ⟨erased, hrun⟩ := turns_pruneLoop b.bids.size b
    exact ⟨erased, hrun, fun _ _ => huncrossed.no_turn⟩
  · intro p
    rw [find_pruneCrossed]
    exact if_congr (crossedAt_iff_bestAsk b p) rfl rfl
  · have hbids := pruneCrossed_bids_of_uncrossed huncrossed
    calc b.pruneCrossed.pruneCrossed
        = { b.pruneCrossed with bids := b.pruneCrossed.pruneCrossed.bids } := rfl
      _ = b.pruneCrossed := by rw [hbids]

end OrderBook

end TickPlant
