/-
# Crossed books and pruning

Two questions about the books that `update_order_book` leaves behind.

* Is the updated book uncrossed?  The delta path ends with `prune_crossed`, which makes
  any book uncrossed; the full-replace path does not prune, so there the answer is in the
  snapshot itself.
* Is the updated book the book of the feed?  The feed's book is the one obtained by the
  plain rule "quantity `0` deletes, anything else inserts or replaces", with no pruning.
  A bid pruned after one batch is gone for good unless a later batch names its price
  again, so after two batches the two books agree exactly when the second batch names
  every bid that the first one had pruned.
-/
import TickPlant.Engine.Store

namespace TickPlant

/-! ## Batches of changes on one side -/

namespace Levels

variable {cmp : ℚ → ℚ → Ordering} [Std.TransCmp cmp] [Std.LawfulEqCmp cmp]

/-- The plain rule for one level change. -/
def change (L : Levels cmp) (l : PriceLevel) : Levels cmp :=
  if l.quantity = 0 then L.erase l.price else L.insert l

lemma find_change (L : Levels cmp) (l : PriceLevel) (p : ℚ) :
    (L.change l).find p =
      if l.price = p then (if l.quantity = 0 then none else some l) else L.find p := by
  rw [change]
  by_cases hq : l.quantity = 0
  · simp only [hq, if_true, find_erase]
  · simp only [hq, if_false, find_insert]

/-- A side is a store of levels that the changes write. -/
lemma writes_change : Lib.Writes (find : Levels cmp → ℚ → Option PriceLevel) change
    PriceLevel.price fun l => if l.quantity = 0 then none else some l :=
  fun L l p => find_change L l p

/-- After a run of insertions the side holds the prices it held and the inserted ones. -/
lemma find_inserts_isSome {ls : List PriceLevel} {p : ℚ} (L : Levels cmp) :
    ((ls.foldl insert L).find p).isSome ↔ (∃ l ∈ ls, l.price = p) ∨ (L.find p).isSome := by
  induction ls generalizing L with
  | nil => simp
  | cons l ls ih =>
    rw [List.foldl_cons, ih, find_insert]
    by_cases hl : l.price = p
    · simp [hl]
    · simp [hl]

end Levels

namespace OrderBook

/-! ## The two paths of `update_order_book`, side by side -/

/-- A loop over levels that does one thing to each side. -/
lemma foldl_sides {f : OrderBook → PriceLevel → OrderBook}
    {g : Levels bidCmp → PriceLevel → Levels bidCmp}
    {h : Levels askCmp → PriceLevel → Levels askCmp}
    (hf : ∀ b l, (f b l).bids = g b.bids l ∧ (f b l).asks = h b.asks l) (ls : List PriceLevel)
    (b : OrderBook) :
    (ls.foldl f b).bids = ls.foldl g b.bids ∧ (ls.foldl f b).asks = ls.foldl h b.asks := by
  constructor
  · exact (List.foldl_hom OrderBook.bids fun b l => (hf b l).1.symm).symm
  · exact (List.foldl_hom OrderBook.asks fun b l => (hf b l).2.symm).symm

/-- A loop that leaves the asks as they are. -/
lemma foldl_bids {f : OrderBook → PriceLevel → OrderBook}
    {g : Levels bidCmp → PriceLevel → Levels bidCmp}
    (hf : ∀ b l, (f b l).bids = g b.bids l ∧ (f b l).asks = b.asks) (ls : List PriceLevel)
    (b : OrderBook) :
    (ls.foldl f b).bids = ls.foldl g b.bids ∧ (ls.foldl f b).asks = b.asks := by
  have hsides := foldl_sides (h := fun L _ => L) hf ls b
  rwa [List.foldl_fixed] at hsides

/-- A loop that leaves the bids as they are. -/
lemma foldl_asks {f : OrderBook → PriceLevel → OrderBook}
    {h : Levels askCmp → PriceLevel → Levels askCmp}
    (hf : ∀ b l, (f b l).bids = b.bids ∧ (f b l).asks = h b.asks l) (ls : List PriceLevel)
    (b : OrderBook) :
    (ls.foldl f b).bids = b.bids ∧ (ls.foldl f b).asks = ls.foldl h b.asks := by
  have hsides := foldl_sides (g := fun L _ => L) hf ls b
  rwa [List.foldl_fixed] at hsides

lemma foldl_applyDeltaLevel_bid (now : ℕ) (ls : List PriceLevel) (b : OrderBook) :
    (ls.foldl (applyDeltaLevel now .bid) b).bids = ls.foldl Levels.change b.bids ∧
      (ls.foldl (applyDeltaLevel now .bid) b).asks = b.asks := by
  refine foldl_bids ?_ ls b
  intro b l
  by_cases hq : l.quantity = 0
  · simp [applyDeltaLevel, deleteLevel, dropLevel, touch, Levels.change, hq]
  · simp [applyDeltaLevel, setLevel, putLevel, touch, Levels.change, hq]

lemma foldl_applyDeltaLevel_ask (now : ℕ) (ls : List PriceLevel) (b : OrderBook) :
    (ls.foldl (applyDeltaLevel now .ask) b).bids = b.bids ∧
      (ls.foldl (applyDeltaLevel now .ask) b).asks = ls.foldl Levels.change b.asks := by
  refine foldl_asks ?_ ls b
  intro b l
  by_cases hq : l.quantity = 0
  · simp [applyDeltaLevel, deleteLevel, dropLevel, touch, Levels.change, hq]
  · simp [applyDeltaLevel, setLevel, putLevel, touch, Levels.change, hq]

lemma foldl_setSnapshotLevel_bid (now : ℕ) (ls : List PriceLevel) (b : OrderBook) :
    (ls.foldl (setSnapshotLevel now .bid) b).bids = ls.foldl Levels.insert b.bids ∧
      (ls.foldl (setSnapshotLevel now .bid) b).asks = b.asks := by
  refine foldl_bids ?_ ls b
  exact fun _ _ => ⟨rfl, rfl⟩

lemma foldl_setSnapshotLevel_ask (now : ℕ) (ls : List PriceLevel) (b : OrderBook) :
    (ls.foldl (setSnapshotLevel now .ask) b).bids = b.bids ∧
      (ls.foldl (setSnapshotLevel now .ask) b).asks = ls.foldl Levels.insert b.asks := by
  refine foldl_asks ?_ ls b
  exact fun _ _ => ⟨rfl, rfl⟩

/-- The book of the feed after a batch of changes: the plain rule on both sides. -/
def plain (D : OrderBookSnapshot) (b : OrderBook) : OrderBook :=
  { b with
    bids := D.bids.foldl Levels.change b.bids
    asks := D.asks.foldl Levels.change b.asks }

/-- Before it prunes, the delta path follows the plain rule. -/
lemma applyDelta_sameLevels (now : ℕ) (D : OrderBookSnapshot) (b : OrderBook) :
    (b.applyDelta now D).SameLevels (b.plain D) := by
  have hbid := foldl_applyDeltaLevel_bid now D.bids b
  have hask := foldl_applyDeltaLevel_ask now D.asks (D.bids.foldl (applyDeltaLevel now .bid) b)
  constructor
  · rw [applyDelta, hask.1, hbid.1]; rfl
  · rw [applyDelta, hask.2, hbid.2]; rfl

/-- The bids that a delta batch leaves: the plain ones that cross no ask. -/
lemma find_applyBatch_bids {D : OrderBookSnapshot} (hD : D.isSnapshot = false) (now : ℕ)
    (b : OrderBook) (p : ℚ) :
    (b.applyBatch now D).bids.find p =
      if CrossedAt (b.plain D).asks p then none else (b.plain D).bids.find p := by
  obtain ⟨hbids, hasks⟩ := applyDelta_sameLevels now D b
  simp only [applyBatch, hD, Bool.false_eq_true, if_false]
  rw [find_pruneCrossed, hbids, hasks]

lemma applyBatch_asks {D : OrderBookSnapshot} (hD : D.isSnapshot = false) (now : ℕ)
    (b : OrderBook) : (b.applyBatch now D).asks = (b.plain D).asks := by
  simp only [applyBatch, hD, Bool.false_eq_true, if_false, pruneCrossed_asks]
  exact (applyDelta_sameLevels now D b).2

/-- When the plain book is uncrossed, the pruning has nothing to do. -/
lemma applyBatch_bids_of_uncrossed {D : OrderBookSnapshot} (hD : D.isSnapshot = false) (now : ℕ)
    {b : OrderBook} (h : (b.plain D).Uncrossed) : (b.applyBatch now D).bids = (b.plain D).bids := by
  obtain ⟨hbids, hasks⟩ := applyDelta_sameLevels now D b
  have hun : (b.applyDelta now D).Uncrossed := by
    rw [uncrossed_iff] at h ⊢
    rwa [hbids, hasks]
  simp only [applyBatch, hD, Bool.false_eq_true, if_false]
  rw [pruneCrossed_bids_of_uncrossed hun, hbids]

/-- The plain rule after a pruned batch: the bids are those of the feed, less the crossed
ones that the second batch does not name. -/
lemma find_plain_applyBatch_bids {D₁ : OrderBookSnapshot} (hD₁ : D₁.isSnapshot = false)
    (D₂ : OrderBookSnapshot) (now : ℕ) (b : OrderBook) (p : ℚ) :
    ((b.applyBatch now D₁).plain D₂).bids.find p =
      if CrossedAt (b.plain D₁).asks p ∧ ¬ (∃ l ∈ D₂.bids, l.price = p) then none
      else ((b.plain D₁).plain D₂).bids.find p := by
  show (D₂.bids.foldl Levels.change (b.applyBatch now D₁).bids).find p = _
  by_cases hnamed : ∃ l ∈ D₂.bids, l.price = p
  · -- whatever the pruning took away, the second batch decides the level
    rw [if_neg (fun h => h.2 hnamed)]
    exact Levels.writes_change.get_foldl_of_named hnamed _ _
  · have hnot : ∀ l ∈ D₂.bids, l.price ≠ p := fun l hl hp => hnamed ⟨l, hl, hp⟩
    have hplain : ((b.plain D₁).plain D₂).bids.find p = (b.plain D₁).bids.find p :=
      Levels.writes_change.get_foldl_of_not_named hnot _
    rw [Levels.writes_change.get_foldl_of_not_named hnot, find_applyBatch_bids hD₁, hplain]
    simp only [hnamed, not_false_eq_true, and_true]

lemma plain_applyBatch_asks {D₁ : OrderBookSnapshot} (hD₁ : D₁.isSnapshot = false)
    (D₂ : OrderBookSnapshot) (now : ℕ) (b : OrderBook) :
    ((b.applyBatch now D₁).plain D₂).asks = ((b.plain D₁).plain D₂).asks := by
  simp only [plain, applyBatch_asks hD₁]

/-- Pruning after the first batch cannot cross the book of the second. -/
lemma plain_applyBatch_uncrossed {D₁ D₂ : OrderBookSnapshot} (hD₁ : D₁.isSnapshot = false)
    (now : ℕ) {b : OrderBook} (h : ((b.plain D₁).plain D₂).Uncrossed) :
    ((b.applyBatch now D₁).plain D₂).Uncrossed := by
  rw [uncrossed_iff] at h ⊢
  intro x hx y hy
  rw [Levels.mem_toList, find_plain_applyBatch_bids hD₁] at hx
  rw [plain_applyBatch_asks hD₁] at hy
  split at hx
  · exact absurd hx (by simp)
  · exact h x (Levels.mem_toList.mpr hx) y hy

/-- A snapshot none of whose bids is at or above one of its asks. -/
def NotCrossed (snap : OrderBookSnapshot) : Prop :=
  ∀ x ∈ snap.bids, ∀ y ∈ snap.asks, x.price < y.price

instance (snap : OrderBookSnapshot) : Decidable (NotCrossed snap) :=
  inferInstanceAs (Decidable (∀ x ∈ snap.bids, ∀ y ∈ snap.asks, x.price < y.price))

/-- The prices of a replaced book are the prices of the snapshot. -/
lemma replaceAll_prices (now : ℕ) (snap : OrderBookSnapshot) (b : OrderBook) (p : ℚ) :
    (((b.replaceAll now snap).bids.find p).isSome ↔ ∃ l ∈ snap.bids, l.price = p) ∧
      (((b.replaceAll now snap).asks.find p).isSome ↔ ∃ l ∈ snap.asks, l.price = p) := by
  have hbid := foldl_setSnapshotLevel_bid now snap.bids (b.clear now)
  have hask := foldl_setSnapshotLevel_ask now snap.asks
    (snap.bids.foldl (setSnapshotLevel now .bid) (b.clear now))
  constructor
  · rw [replaceAll, hask.1, hbid.1, Levels.find_inserts_isSome]
    simp [clear, touch]
  · rw [replaceAll, hask.2, hbid.2, Levels.find_inserts_isSome]
    simp [clear, touch]

/-- A replaced book is uncrossed exactly when the snapshot is. -/
lemma replaceAll_uncrossed_iff (now : ℕ) (snap : OrderBookSnapshot) (b : OrderBook) :
    (b.replaceAll now snap).Uncrossed ↔ NotCrossed snap := by
  rw [uncrossed_iff]
  constructor
  · intro h x hx y hy
    obtain ⟨x', hx'⟩ := Option.isSome_iff_exists.mp
      ((replaceAll_prices now snap b x.price).1.mpr ⟨x, hx, rfl⟩)
    obtain ⟨y', hy'⟩ := Option.isSome_iff_exists.mp
      ((replaceAll_prices now snap b y.price).2.mpr ⟨y, hy, rfl⟩)
    have := h x' (Levels.mem_toList_of_find hx') y' (Levels.mem_toList_of_find hy')
    rwa [Levels.price_of_find hx', Levels.price_of_find hy'] at this
  · intro h x hx y hy
    have hx' : ((b.replaceAll now snap).bids.find x.price).isSome := by
      rw [Levels.mem_toList.mp hx]; rfl
    have hy' : ((b.replaceAll now snap).asks.find y.price).isSome := by
      rw [Levels.mem_toList.mp hy]; rfl
    obtain ⟨l, hl, hlp⟩ := (replaceAll_prices now snap b x.price).1.mp hx'
    obtain ⟨m, hm, hmp⟩ := (replaceAll_prices now snap b y.price).2.mp hy'
    rw [← hlp, ← hmp]
    exact h l hl m hm

/-- The book after a batch is uncrossed, except after a crossed snapshot. -/
lemma applyBatch_uncrossed_iff (now : ℕ) (snap : OrderBookSnapshot) (b : OrderBook) :
    (b.applyBatch now snap).Uncrossed ↔ (snap.isSnapshot = true → NotCrossed snap) := by
  cases hs : snap.isSnapshot with
  | true =>
    simp only [applyBatch, hs, if_true, true_implies]
    exact replaceAll_uncrossed_iff now snap b
  | false =>
    simp only [applyBatch, hs, Bool.false_eq_true, if_false, false_implies, iff_true]
    exact pruneCrossed_uncrossed _

end OrderBook

namespace ArbitrageEngine

open OrderBook

/-! ## Uncrossed after every call -/

/-- What the comments at `prune_crossed` promise of one call: the book it has updated is
uncrossed, and the tick it logs, if any, has a spread of at least `0`. -/
def ValidAfter (c : ℕ × OrderBookSnapshot) (e : ArbitrageEngine) : Prop :=
  (∃ b, (e.updateOrderBook c.1 c.2).1.wsBooks.lookup (bookKey c.2) = some b ∧ b.Uncrossed) ∧
    ∀ tick, (e.updateOrderBook c.1 c.2).2 = some tick → 0 ≤ tick.spreadBps

lemma validAfter_iff (c : ℕ × OrderBookSnapshot) (e : ArbitrageEngine) :
    e.ValidAfter c ↔ (c.2.isSnapshot = true → NotCrossed c.2) := by
  have hlook := lookup_updateOrderBook c.1 c.2 e
  constructor
  · rintro ⟨⟨b, hb, hun⟩, -⟩
    rw [hlook] at hb
    rw [← Option.some.inj hb, applyBatch_uncrossed_iff] at hun
    exact hun
  · intro h
    have hun := (applyBatch_uncrossed_iff (c.1 / 1000000) c.2
      ((e.wsBooks.lookup (bookKey c.2)).getD (OrderBook.new c.2.symbol c.2.exchange))).mpr h
    refine ⟨⟨_, hlook, hun⟩, fun tick ht => ?_⟩
    rw [tick_spread ht hlook]
    exact spreadBps_nonneg hun

/-- **In every sequence of `update_order_book` calls, every call leaves an uncrossed book
and logs a tick with a non-negative spread, if and only if no call replaces a book by a
crossed snapshot.** -/
theorem updates_uncrossed_iff (e : ArbitrageEngine) (calls : List (ℕ × OrderBookSnapshot)) :
    (∀ pre c post, calls = pre ++ c :: post → (e.runUpdates pre).ValidAfter c) ↔
      ∀ c ∈ calls, c.2.isSnapshot = true → NotCrossed c.2 := by
  constructor
  · intro h c hc
    obtain ⟨pre, post, hsplit⟩ := List.append_of_mem hc
    exact (validAfter_iff c _).mp (h pre c post hsplit)
  · intro h pre c post hsplit
    refine (validAfter_iff c _).mpr (h c ?_)
    rw [hsplit]
    exact List.mem_append_right _ List.mem_cons_self

/-- A full snapshot with its best bid above its best ask. -/
def crossedSnapshot : OrderBookSnapshot where
  symbol := bytes "BTCUSDT"
  exchange := bytes "Binance"
  timestampMs := 0
  isSnapshot := true
  bids := [⟨101, 1, 0⟩]
  asks := [⟨100, 1, 0⟩]

/-- A crossed snapshot is stored and logged as it is: the updated book is crossed and its
tick has a negative spread. -/
theorem crossed_snapshot_is_logged :
    ¬ ∀ (e : ArbitrageEngine) (calls : List (ℕ × OrderBookSnapshot)) (pre : List _) (c : _)
        (post : List _), calls = pre ++ c :: post → (e.runUpdates pre).ValidAfter c := by
  intro h
  obtain ⟨-, htick⟩ := h (new true) [(0, crossedSnapshot)] [] (0, crossedSnapshot) [] rfl
  have hlog : ((new true).updateOrderBook 0 crossedSnapshot).2 =
      some ⟨bytes "Binance", bytes "BTC", 101, 100, 201 / 2, -10000 / 101, 0⟩ := by
    decide +kernel
  exact absurd (htick _ hlog) (by decide +kernel)

/-! ## The book of the feed -/

/-- The book the engine holds after two delta batches. -/
lemma lookup_two_updates {e : ArbitrageEngine} {B : OrderBook} {D₁ D₂ : OrderBookSnapshot}
    (n₁ n₂ : ℕ) (hB : e.wsBooks.lookup (bookKey D₁) = some B) (hkey : bookKey D₂ = bookKey D₁) :
    ((e.updateOrderBook n₁ D₁).1.updateOrderBook n₂ D₂).1.wsBooks.lookup (bookKey D₁) =
      some ((B.applyBatch (n₁ / 1000000) D₁).applyBatch (n₂ / 1000000) D₂) := by
  have h₁ := lookup_updateOrderBook n₁ D₁ e
  have h₂ := lookup_updateOrderBook n₂ D₂ (e.updateOrderBook n₁ D₁).1
  rw [hB] at h₁
  rw [hkey, h₁] at h₂
  exact h₂

/-- **After two delta batches the engine holds the book of the feed if and only if the
second batch names every bid that crossed an ask after the first.**  (The book of the feed
after both batches is assumed uncrossed.) -/
theorem two_deltas_plain_iff (e : ArbitrageEngine) (B : OrderBook) (D₁ D₂ : OrderBookSnapshot)
    (n₁ n₂ : ℕ) (hB : e.wsBooks.lookup (bookKey D₁) = some B)
    (hD₁ : D₁.isSnapshot = false) (hD₂ : D₂.isSnapshot = false)
    (hex : D₂.exchange = D₁.exchange) (hsym : D₂.symbol = D₁.symbol)
    (hun : ((B.plain D₁).plain D₂).Uncrossed) :
    (∃ B', ((e.updateOrderBook n₁ D₁).1.updateOrderBook n₂ D₂).1.wsBooks.lookup
        (bookKey D₁) = some B' ∧ B'.SameLevels ((B.plain D₁).plain D₂)) ↔
      ∀ l ∈ (B.plain D₁).bids.toList, CrossedAt (B.plain D₁).asks l.price →
        ∃ l' ∈ D₂.bids, l'.price = l.price := by
  have hkey : bookKey D₂ = bookKey D₁ := by rw [bookKey, bookKey, hex, hsym]
  have hlook := lookup_two_updates n₁ n₂ hB hkey
  have hbids := applyBatch_bids_of_uncrossed hD₂ (n₂ / 1000000)
    (plain_applyBatch_uncrossed hD₁ (n₁ / 1000000) hun)
  constructor
  · rintro ⟨B', hB', hsame, -⟩ l hl hcross
    rw [hlook] at hB'
    rw [← Option.some.inj hB', hbids] at hsame
    by_contra hnamed
    have hnot : ∀ l' ∈ D₂.bids, l'.price ≠ l.price := fun l' hl' hp => hnamed ⟨l', hl', hp⟩
    have hlive : ((B.plain D₁).plain D₂).bids.find l.price = some l := by
      rw [← Levels.mem_toList.mp hl]
      exact Levels.writes_change.get_foldl_of_not_named hnot _
    rw [← hsame, find_plain_applyBatch_bids hD₁, if_pos ⟨hcross, hnamed⟩] at hlive
    exact absurd hlive (by simp)
  · intro h
    refine ⟨_, hlook, ?_, ?_⟩
    · rw [hbids]
      ext1 p
      rw [find_plain_applyBatch_bids hD₁]
      split
      · rename_i hc
        -- a crossed price that the second batch does not name held no bid
        by_contra hne
        obtain ⟨l, hl⟩ := Option.ne_none_iff_exists'.mp (Ne.symm hne)
        have hnot : ∀ l' ∈ D₂.bids, l'.price ≠ p := fun l' hl' hp => hc.2 ⟨l', hl', hp⟩
        have hl' : (B.plain D₁).bids.find p = some l := by
          rw [← hl]
          exact (Levels.writes_change.get_foldl_of_not_named hnot _).symm
        obtain ⟨l', hl'', hp⟩ := h l (Levels.mem_toList_of_find hl')
          (by rw [Levels.price_of_find hl']; exact hc.1)
        exact hnot l' hl'' (by rw [hp, Levels.price_of_find hl'])
      · rfl
    · rw [applyBatch_asks hD₂, plain_applyBatch_asks hD₁]

/-- A delta batch of the Kraken feed. -/
def krakenDelta (bids asks : List PriceLevel) : OrderBookSnapshot where
  symbol := bytes "BTC/USD"
  exchange := bytes "Kraken"
  timestampMs := 0
  isSnapshot := false
  bids := bids
  asks := asks

/-- A Kraken book with a single ask at `101`. -/
def restingAskBook : OrderBook :=
  { OrderBook.new (bytes "BTC/USD") (bytes "Kraken") with
    asks := Levels.empty.insert ⟨101, 1, 0⟩ }

/-- The engine that holds this book and no other. -/
def restingAskEngine : ArbitrageEngine :=
  { new false with wsBooks := (∅ : BookMap).insert (bookKey (krakenDelta [] [])) restingAskBook }

/-- A new bid at `101`, then the deletion of the ask at `101` together with the same bid
again: nothing is lost. -/
theorem two_deltas_plain_renamed :
    ∃ B', ((restingAskEngine.updateOrderBook 0 (krakenDelta [⟨101, 1, 0⟩] [])).1.updateOrderBook 0
        (krakenDelta [⟨101, 1, 0⟩] [⟨101, 0, 0⟩])).1.wsBooks.lookup
          (bookKey (krakenDelta [⟨101, 1, 0⟩] [])) = some B' ∧
      B'.SameLevels ((restingAskBook.plain (krakenDelta [⟨101, 1, 0⟩] [])).plain
        (krakenDelta [⟨101, 1, 0⟩] [⟨101, 0, 0⟩])) :=
  (two_deltas_plain_iff restingAskEngine restingAskBook (krakenDelta [⟨101, 1, 0⟩] [])
    (krakenDelta [⟨101, 1, 0⟩] [⟨101, 0, 0⟩]) 0 0 (AList.lookup_insert _) rfl rfl rfl rfl
    (by decide +kernel)).mpr (by decide +kernel)

/-- **Pruning loses a live bid.**  A new bid at `101` arrives while the ask at `101` still
rests, and the ask is deleted by the next batch: the feed's book has the bid, the engine's
book is empty. -/
theorem pruning_loses_live_bid :
    ¬ ∀ (e : ArbitrageEngine) (B : OrderBook) (D₁ D₂ : OrderBookSnapshot) (n₁ n₂ : ℕ),
        e.wsBooks.lookup (bookKey D₁) = some B → B.Uncrossed →
        D₁.isSnapshot = false → D₂.isSnapshot = false →
        D₂.exchange = D₁.exchange → D₂.symbol = D₁.symbol →
        ((B.plain D₁).plain D₂).Uncrossed →
        ∃ B', ((e.updateOrderBook n₁ D₁).1.updateOrderBook n₂ D₂).1.wsBooks.lookup
          (bookKey D₁) = some B' ∧ B'.SameLevels ((B.plain D₁).plain D₂) := by
  intro h
  obtain ⟨B', hB', hbids, -⟩ := h restingAskEngine restingAskBook
    (krakenDelta [⟨101, 1, 0⟩] []) (krakenDelta [] [⟨101, 0, 0⟩]) 0 0
    (AList.lookup_insert _) (by decide +kernel) rfl rfl rfl rfl (by decide +kernel)
  have hengine : (((restingAskEngine.updateOrderBook 0
      (krakenDelta [⟨101, 1, 0⟩] [])).1.updateOrderBook 0
        (krakenDelta [] [⟨101, 0, 0⟩])).1.wsBooks.lookup
          (bookKey (krakenDelta [⟨101, 1, 0⟩] []))).map (fun b => b.bids.toList) = some [] := by
    decide +kernel
  have hfeed : ((restingAskBook.plain (krakenDelta [⟨101, 1, 0⟩] [])).plain
      (krakenDelta [] [⟨101, 0, 0⟩])).bids.toList = [⟨101, 1, 0⟩] := by
    decide +kernel
  rw [hB', Option.map_some, hbids, hfeed] at hengine
  exact absurd hengine (by simp)

end ArbitrageEngine

end TickPlant
