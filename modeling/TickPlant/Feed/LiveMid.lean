/-
# The live price map

Every depth callback of `main` updates `g_live_mid`, the map behind the price oracle of the FIX
simulator, before it hands the message to the engine: a message with bids and asks sets the
entry of its symbol to the mean of its first bid and its first ask.  For a message that lists
the whole book, best level first, this is the mid price of the book.  A delta lists the levels
that have changed; its first levels may be deep in the book, deleted, or not the best of those
it names.

The callbacks are executed one after the other.  What rests in a book after a message is said
in terms of the message and of the book before it: a full snapshot leaves its own levels, and a
delta leaves what it names last with a quantity, and what it does not name, except for the bids
at or above an ask.
-/
import TickPlant.Engine.Crossing

namespace TickPlant

/-! ## The code -/

/-- `to_fix_key`: the FIX name of an exchange's symbol. -/
def toFixKey (s : Bytes) : Bytes :=
  let s := (s.filter fun c => c ≠ 47).filter fun c => c ≠ 45  -- '/' and '-'
  if s.length > 4 ∧ s.drop (s.length - 4) = bytes "USDT" then s.dropLast else s

/-- `g_live_mid` and the engine. -/
structure LiveState where
  liveMid : AList fun _ : Bytes => ℚ
  engine : ArbitrageEngine

/-- A message has levels on both sides. -/
def OrderBookSnapshot.TwoSided (snap : OrderBookSnapshot) : Prop := snap.bids ≠ [] ∧ snap.asks ≠ []

instance (snap : OrderBookSnapshot) : Decidable snap.TwoSided :=
  inferInstanceAs (Decidable (_ ∧ _))

namespace LiveState

/-- `update_live_mid`. -/
def updateLiveMid (snap : OrderBookSnapshot) (s : LiveState) : LiveState :=
  if snap.TwoSided then
    { s with liveMid := s.liveMid.insert (toFixKey snap.symbol) ((snap.bestBid + snap.bestAsk) / 2) }
  else s

/-- The depth callback of the four clients, with the reading of the clock. -/
def depthCallback (s : LiveState) (c : ℕ × OrderBookSnapshot) : LiveState :=
  let s := s.updateLiveMid c.2
  { s with engine := (s.engine.updateOrderBook c.1 c.2).1 }

/-- A sequence of callbacks. -/
def run (s : LiveState) (calls : List (ℕ × OrderBookSnapshot)) : LiveState :=
  calls.foldl depthCallback s

/-- The engine's book of a message; a book that does not exist yet has no levels. -/
def book (s : LiveState) (snap : OrderBookSnapshot) : OrderBook :=
  (s.engine.wsBooks.lookup (bookKey snap)).getD (OrderBook.new snap.symbol snap.exchange)

/-- If the book of the message has both sides, the entry of its symbol is its mid price. -/
def ShowsMid (s : LiveState) (snap : OrderBookSnapshot) : Prop :=
  (s.book snap).bids.isEmpty = false → (s.book snap).asks.isEmpty = false →
    s.liveMid.lookup (toFixKey snap.symbol) =
      some (((s.book snap).bestBid + (s.book snap).bestAsk) / 2)

instance (s : LiveState) (snap : OrderBookSnapshot) : Decidable (s.ShowsMid snap) :=
  inferInstanceAs (Decidable (_ → _ → _))

end LiveState

/-! ## What rests after a message -/

namespace Levels

variable {cmp : ℚ → ℚ → Ordering} [Std.TransCmp cmp]

/-- A level rests at `p` after a list of changes: the last one that names `p` has a quantity, or
none names it and there was a level before. -/
def StaysAt (L : Levels cmp) (ls : List PriceLevel) (p : ℚ) : Prop :=
  match (ls.filter fun l => l.price = p).getLast? with
  | some l => l.quantity ≠ 0
  | none => (L.find p).isSome

lemma find_changes_isSome [Std.LawfulEqCmp cmp] (L : Levels cmp) (ls : List PriceLevel) (p : ℚ) :
    ((ls.foldl change L).find p).isSome ↔ L.StaysAt ls p := by
  rw [writes_change.get_foldl, StaysAt, Lib.lastNaming]
  cases (ls.filter fun l => l.price = p).getLast? with
  | none => rfl
  | some l => by_cases hq : l.quantity = 0 <;> simp [hq]

end Levels

namespace OrderBook

/-- An ask rests at `p` after the message. -/
def RestsAsk (b : OrderBook) (snap : OrderBookSnapshot) (p : ℚ) : Prop :=
  if snap.isSnapshot then ∃ l ∈ snap.asks, l.price = p else b.asks.StaysAt snap.asks p

/-- A bid rests at `p` after the message. -/
def RestsBid (b : OrderBook) (snap : OrderBookSnapshot) (p : ℚ) : Prop :=
  if snap.isSnapshot then ∃ l ∈ snap.bids, l.price = p
  else b.bids.StaysAt snap.bids p ∧ ∀ a, b.asks.StaysAt snap.asks a → p < a

lemma applyBatch_asks_isSome (now : ℕ) (snap : OrderBookSnapshot) (b : OrderBook) (p : ℚ) :
    ((b.applyBatch now snap).asks.find p).isSome ↔ b.RestsAsk snap p := by
  rw [RestsAsk]
  cases hs : snap.isSnapshot with
  | true =>
    rw [applyBatch, hs]
    exact (replaceAll_prices now snap b p).2
  | false =>
    rw [applyBatch_asks hs]
    exact Levels.find_changes_isSome _ _ _

/-- An ask of the plain book crosses a bid at `p`. -/
lemma crossedAt_plain_iff (snap : OrderBookSnapshot) (b : OrderBook) (p : ℚ) :
    CrossedAt (b.plain snap).asks p ↔ ∃ a, b.asks.StaysAt snap.asks a ∧ a ≤ p := by
  simp only [← Levels.find_changes_isSome]
  constructor
  · rintro ⟨l, hl, hle⟩
    exact ⟨l.price, by rw [show (snap.asks.foldl Levels.change b.asks).find l.price = some l from
      Levels.mem_toList.mp hl]; rfl, hle⟩
  · rintro ⟨a, ha, hle⟩
    obtain ⟨l, hl⟩ := Option.isSome_iff_exists.mp ha
    exact ⟨l, Levels.mem_toList_of_find hl, by rw [Levels.price_of_find hl]; exact hle⟩

lemma applyBatch_bids_isSome (now : ℕ) (snap : OrderBookSnapshot) (b : OrderBook) (p : ℚ) :
    ((b.applyBatch now snap).bids.find p).isSome ↔ b.RestsBid snap p := by
  rw [RestsBid]
  cases hs : snap.isSnapshot with
  | true =>
    rw [applyBatch, hs]
    exact (replaceAll_prices now snap b p).1
  | false =>
    have hstays : ((b.plain snap).bids.find p).isSome ↔ b.bids.StaysAt snap.bids p :=
      Levels.find_changes_isSome _ _ _
    rw [find_applyBatch_bids hs, if_neg Bool.false_ne_true, ← hstays]
    by_cases hcross : CrossedAt (b.plain snap).asks p
    · obtain ⟨a, ha, hle⟩ := (crossedAt_plain_iff snap b p).mp hcross
      rw [if_pos hcross]
      simp only [Option.isSome_none, Bool.false_eq_true, false_iff, not_and, not_forall]
      exact fun _ => ⟨a, ha, not_lt.mpr hle⟩
    · rw [if_neg hcross]
      rw [crossedAt_plain_iff] at hcross
      push Not at hcross
      exact (and_iff_left hcross).symm

/-- The first levels of the message are the best ones that rest after it. -/
def FrontsLead (b : OrderBook) (snap : OrderBookSnapshot) : Prop :=
  IsGreatest {p | b.RestsBid snap p} snap.bestBid ∧ IsLeast {p | b.RestsAsk snap p} snap.bestAsk

/-- The first bid of the message is as far below the best one that rests after it as the first
ask is above. -/
def FrontsBalance (b : OrderBook) (snap : OrderBookSnapshot) : Prop :=
  ∀ p q, IsGreatest {p | b.RestsBid snap p} p → IsLeast {p | b.RestsAsk snap p} q →
    p - snap.bestBid = snap.bestAsk - q

/-- It is enough that they are the best ones of the book after it. -/
lemma frontsLead_of_best {b : OrderBook} {snap : OrderBookSnapshot} (now : ℕ)
    (hbids : (b.applyBatch now snap).bids.isEmpty = false)
    (hasks : (b.applyBatch now snap).asks.isEmpty = false)
    (hbid : (b.applyBatch now snap).bestBid = snap.bestBid)
    (hask : (b.applyBatch now snap).bestAsk = snap.bestAsk) : b.FrontsLead snap := by
  have hgreatest := isGreatest_bestBid hbids
  have hleast := isLeast_bestAsk hasks
  simp only [applyBatch_bids_isSome, applyBatch_asks_isSome, hbid, hask] at hgreatest hleast
  exact ⟨hgreatest, hleast⟩

lemma FrontsLead.balance {b : OrderBook} {snap : OrderBookSnapshot} (h : b.FrontsLead snap) :
    b.FrontsBalance snap := by
  intro p q hp hq
  rw [hp.unique h.1, hq.unique h.2, sub_self, sub_self]

end OrderBook

namespace LiveState

/-! ## One callback -/

/-- The book after a callback. -/
lemma book_depthCallback (s : LiveState) (c : ℕ × OrderBookSnapshot) :
    (s.depthCallback c).book c.2 = (s.book c.2).applyBatch (c.1 / 1000000) c.2 := by
  have hengine : (s.updateLiveMid c.2).engine = s.engine := by
    rw [updateLiveMid]
    split <;> rfl
  rw [book, depthCallback, ArbitrageEngine.lookup_updateOrderBook, hengine]
  rfl

/-- After a message with both sides, the entry is the mid price exactly if the first levels
balance. -/
lemma showsMid_depthCallback_iff (s : LiveState) {c : ℕ × OrderBookSnapshot} (h : c.2.TwoSided) :
    (s.depthCallback c).ShowsMid c.2 ↔ (s.book c.2).FrontsBalance c.2 := by
  have hmid : (s.depthCallback c).liveMid.lookup (toFixKey c.2.symbol) =
      some ((c.2.bestBid + c.2.bestAsk) / 2) := by
    rw [depthCallback, updateLiveMid, if_pos h]
    exact AList.lookup_insert _
  have hbids : ∀ p, (((s.depthCallback c).book c.2).bids.find p).isSome ↔
      (s.book c.2).RestsBid c.2 p := by
    intro p
    rw [book_depthCallback]
    exact OrderBook.applyBatch_bids_isSome ..
  have hasks : ∀ p, (((s.depthCallback c).book c.2).asks.find p).isSome ↔
      (s.book c.2).RestsAsk c.2 p := by
    intro p
    rw [book_depthCallback]
    exact OrderBook.applyBatch_asks_isSome ..
  have hmean : ∀ p q x y : ℚ, (x + y) / 2 = (p + q) / 2 ↔ p - x = y - q := by
    intro p q x y
    constructor <;> intro h <;> linarith
  have hbid : ∀ p, IsGreatest {p | (s.book c.2).RestsBid c.2 p} p ↔
      IsGreatest {p | (((s.depthCallback c).book c.2).bids.find p).isSome} p := by
    simp only [hbids, implies_true]
  have hask : ∀ p, IsLeast {p | (s.book c.2).RestsAsk c.2 p} p ↔
      IsLeast {p | (((s.depthCallback c).book c.2).asks.find p).isSome} p := by
    simp only [hasks, implies_true]
  simp only [ShowsMid, OrderBook.FrontsBalance, hmid, hbid, hask, Option.some.injEq, hmean]
  constructor
  · intro h p q hp hq
    have hpe : ((s.depthCallback c).book c.2).bids.isEmpty = false :=
      Bool.eq_false_iff.mpr fun he => by simpa [Levels.isEmpty_iff.mp he p] using hp.1
    have hqe : ((s.depthCallback c).book c.2).asks.isEmpty = false :=
      Bool.eq_false_iff.mpr fun he => by simpa [Levels.isEmpty_iff.mp he q] using hq.1
    rw [hp.unique (OrderBook.isGreatest_bestBid hpe), hq.unique (OrderBook.isLeast_bestAsk hqe)]
    exact h hpe hqe
  · intro h hpe hqe
    exact h _ _ (OrderBook.isGreatest_bestBid hpe) (OrderBook.isLeast_bestAsk hqe)

/-! ## Every sequence of callbacks -/

/-- After every callback of a message with both sides, the entry of its symbol is the mid price
of its book. -/
def MidsAreReal (s : LiveState) (calls : List (ℕ × OrderBookSnapshot)) : Prop :=
  ∀ before c after, calls = before ++ c :: after → c.2.TwoSided →
    (s.run (before ++ [c])).ShowsMid c.2

/-- A condition on every message with both sides and the book it finds. -/
def AtEachMessage (P : OrderBook → OrderBookSnapshot → Prop) (s : LiveState)
    (calls : List (ℕ × OrderBookSnapshot)) : Prop :=
  ∀ before c after, calls = before ++ c :: after → c.2.TwoSided →
    P ((s.run before).book c.2) c.2

/-- **When the live prices are mid prices.**  If the first levels of every message are the best
ones that rest after it, every entry is a mid price of its book when it is written.  Without
that only an accident helps: the entries are mid prices exactly if the first bid of every
message is as far below the best one as the first ask is above. -/
theorem mids_are_real (s : LiveState) (calls : List (ℕ × OrderBookSnapshot)) :
    (AtEachMessage OrderBook.FrontsLead s calls → s.MidsAreReal calls) ∧
      (s.MidsAreReal calls ↔ AtEachMessage OrderBook.FrontsBalance s calls) := by
  have hstep : ∀ before c, s.run (before ++ [c]) = (s.run before).depthCallback c := by
    intro before c
    rw [run, run, List.foldl_append]
    rfl
  have hiff : s.MidsAreReal calls ↔ AtEachMessage OrderBook.FrontsBalance s calls := by
    constructor
    · intro h before c after heq htwo
      rw [← showsMid_depthCallback_iff _ htwo, ← hstep]
      exact h before c after heq htwo
    · intro h before c after heq htwo
      rw [hstep, showsMid_depthCallback_iff _ htwo]
      exact h before c after heq htwo
  refine ⟨?_, hiff⟩
  intro h
  rw [hiff]
  intro before c after heq htwo
  exact (h before c after heq htwo).balance

/-- No live prices and no books. -/
def start : LiveState := ⟨∅, .new false⟩

/-- The full book of a new Bybit subscription. -/
def bybitSnapshot : OrderBookSnapshot :=
  ⟨bytes "BTCUSDT", bytes "Bybit", 0, true, [⟨100, 1, 0⟩], [⟨101, 1, 0⟩]⟩

/-- A delta in which both sides move up by one, the new level first. -/
def moveUp : OrderBookSnapshot :=
  ⟨bytes "BTCUSDT", bytes "Bybit", 0, false, [⟨101, 2, 0⟩, ⟨100, 0, 0⟩],
    [⟨102, 1, 0⟩, ⟨101, 0, 0⟩]⟩

/-- After the snapshot and after the delta, the entry is the mid price: `100.5`, then `101.5`. -/
theorem mids_are_real_bybitMove :
    start.MidsAreReal [(0, bybitSnapshot), (0, moveUp)] ∧
      ((start.run [(0, bybitSnapshot), (0, moveUp)]).liveMid.lookup (bytes "BTCUSD")) =
        some (203 / 2) := by
  refine ⟨(mids_are_real start [(0, bybitSnapshot), (0, moveUp)]).1 ?_, by decide +kernel⟩
  intro before c after heq _
  rcases before with _ | ⟨x, _ | ⟨y, before⟩⟩
  · obtain ⟨rfl, -⟩ := List.cons.inj heq
    exact OrderBook.frontsLead_of_best 0 (by decide +kernel) (by decide +kernel)
      (by decide +kernel) (by decide +kernel)
  · obtain ⟨rfl, htail⟩ := List.cons.inj heq
    obtain ⟨rfl, -⟩ := List.cons.inj htail
    exact OrderBook.frontsLead_of_best 0 (by decide +kernel) (by decide +kernel)
      (by decide +kernel) (by decide +kernel)
  · exact absurd (congrArg List.length heq) (by simp)

/-- A delta of Bybit that changes a deep bid and the best ask. -/
def deepDelta : OrderBookSnapshot :=
  ⟨bytes "BTCUSDT", bytes "Bybit", 0, false, [⟨99, 2, 0⟩], [⟨101, 2, 0⟩]⟩

/-- The entry becomes `100`, while the mid price of the book stays `100.5`. -/
theorem deep_delta_shifts_mid :
    ¬ ∀ calls : List (ℕ × OrderBookSnapshot),
      (∀ c ∈ calls, c.2.exchange ∈
        [bytes "Binance", bytes "Coinbase", bytes "Kraken", bytes "Bybit"]) →
      start.MidsAreReal calls := by
  intro hclaim
  have hshows := hclaim [(0, bybitSnapshot), (0, deepDelta)] (by decide) [(0, bybitSnapshot)]
    (0, deepDelta) [] rfl (by decide)
  exact absurd hshows (by decide +kernel)

end LiveState

end TickPlant
