/-
# Published books

The book that an exchange publishes is a `Market`: a quantity at some prices of each side, every
bid below every ask.  A batch *reports* that a book has become a market if it lists all of its
levels, or if it lists the levels in which it differs from the market before, in any order, with
quantity `0` where a level is gone.

An `OrderBook` *shows* a market if it has its levels and no others.  Each of the three ways to
apply a batch (the engine's and the two of the clients) makes a book show what the batch reports,
and such a book is never pruned.  The quotes of a book that shows a market are the best prices of
the market.
-/
import TickPlant.Feed.Wire
import TickPlant.Lib.Replica

namespace TickPlant

open Lib

/-- A book as an exchange publishes it: the quantity at a price, if there is a level. -/
structure Market where
  qty : Side → ℚ → Option ℚ
  positive : ∀ side p q, qty side p = some q → 0 < q
  /-- Orders that cross are matched by the exchange. -/
  uncrossed : ∀ p p', (qty .bid p).isSome → (qty .ask p').isSome → p < p'

namespace Market

/-- The level at a price. -/
def level (m : Market) (side : Side) (p : ℚ) : Option PriceLevel :=
  (m.qty side p).map fun q => ⟨p, q, 0⟩

lemma level_eq_some {m : Market} {side : Side} {p : ℚ} {l : PriceLevel} :
    m.level side p = some l ↔ m.qty side p = some l.quantity ∧ l.price = p ∧ l.orderCount = 0 := by
  obtain ⟨price, quantity, orderCount⟩ := l
  rw [level, Option.map_eq_some_iff]
  constructor
  · rintro ⟨q, hq, h⟩
    cases h
    exact ⟨hq, rfl, rfl⟩
  · rintro ⟨hq, rfl, rfl⟩
    exact ⟨quantity, hq, rfl⟩

lemma isSome_level (m : Market) (side : Side) (p : ℚ) :
    (m.level side p).isSome ↔ (m.qty side p).isSome := by simp [level]

/-- The market before a report; before the first one there are no levels. -/
def levelBefore (before : Option Market) (side : Side) : ℚ → Option PriceLevel :=
  match before with
  | some m => m.level side
  | none => fun _ => none

end Market

/-! ## Reports -/

/-- What rests at the price of a listed level. -/
def resting (l : PriceLevel) : Option PriceLevel := if l.quantity = 0 then none else some l

/-- The levels of one side report what has become of it. -/
def SideReports (isSnapshot : Bool) (ls : List PriceLevel) (before : Option Market) (m : Market)
    (side : Side) : Prop :=
  if isSnapshot then
    (∀ l ∈ ls, l.quantity ≠ 0) ∧
      Describes PriceLevel.price resting (fun _ => none) (m.level side) ls
  else Describes PriceLevel.price resting (Market.levelBefore before side) (m.level side) ls

/-- The levels of both sides do; changes are only reported of a book that is known. -/
structure BatchReports (isSnapshot : Bool) (bids asks : List PriceLevel) (before : Option Market)
    (m : Market) : Prop where
  known : isSnapshot = false → before.isSome
  bids : SideReports isSnapshot bids before m .bid
  asks : SideReports isSnapshot asks before m .ask

section

variable {isSnapshot : Bool} {ls : List PriceLevel} {before : Option Market} {m : Market}
  {side : Side}

lemma SideReports.perm (h : SideReports isSnapshot ls before m side) {ls' : List PriceLevel}
    (hperm : ls'.Perm ls) : SideReports isSnapshot ls' before m side := by
  cases isSnapshot with
  | false => exact Describes.perm h hperm
  | true => exact ⟨fun l hl => h.1 l (hperm.mem_iff.mp hl), h.2.perm hperm⟩

lemma SideReports.named (h : SideReports isSnapshot ls before m side) {l : PriceLevel}
    (hl : l ∈ ls) : resting l = m.level side l.price := by
  cases isSnapshot with
  | false => exact Describes.named h l hl
  | true => exact h.2.named l hl

/-- The levels of a full book have positive quantities. -/
lemma SideReports.pos (h : SideReports true ls before m side) {l : PriceLevel} (hl : l ∈ ls) :
    0 < l.quantity := by
  have hnamed := h.named hl
  rw [resting, if_neg (h.1 l hl)] at hnamed
  exact m.positive side l.price l.quantity (Market.level_eq_some.mp hnamed.symm).1

/-- Changes that do not name any level leave the market as it is. -/
lemma SideReports.level_eq (h : SideReports false [] before m side) :
    m.level side = Market.levelBefore before side := Describes.eq_of_nil h

variable {cmp : ℚ → ℚ → Ordering} [Std.TransCmp cmp] [Std.LawfulEqCmp cmp]

/-- A full book, written to an empty side. -/
lemma SideReports.find_inserts (h : SideReports true ls before m side) :
    (ls.foldl Levels.insert (Levels.empty : Levels cmp)).find = m.level side := by
  have hvalue : ∀ l ∈ ls, some l = resting l := fun l hl => by rw [resting, if_neg (h.1 l hl)]
  exact (h.2.congr hvalue).get_foldl Levels.writes_insert (funext Levels.find_empty)

/-- Changes, written to a side that shows the market before. -/
lemma SideReports.find_changes (h : SideReports false ls before m side) {L : Levels cmp}
    (hL : L.find = Market.levelBefore before side) :
    (ls.foldl Levels.change L).find = m.level side :=
  Describes.get_foldl h Levels.writes_change hL

end

/-! ## Books -/

/-- The book has the levels of the market. -/
structure Shows (b : OrderBook) (m : Market) : Prop where
  bids : b.bids.find = m.level .bid
  asks : b.asks.find = m.level .ask

namespace Shows

variable {b b' : OrderBook} {m : Market}

lemma of_sameLevels (h : Shows b m) (hsame : b'.bids = b.bids ∧ b'.asks = b.asks) : Shows b' m :=
  ⟨by rw [hsame.1, h.bids], by rw [hsame.2, h.asks]⟩

/-- Such a book is not crossed. -/
lemma uncrossed (h : Shows b m) : b.Uncrossed := by
  rw [OrderBook.uncrossed_iff]
  intro x hx y hy
  rw [Levels.mem_toList, h.bids] at hx
  rw [Levels.mem_toList, h.asks] at hy
  refine m.uncrossed x.price y.price ?_ ?_
  · rw [(Market.level_eq_some.mp hx).1]
    rfl
  · rw [(Market.level_eq_some.mp hy).1]
    rfl

lemma pruneCrossed (h : Shows b m) : Shows b.pruneCrossed m :=
  h.of_sameLevels ⟨OrderBook.pruneCrossed_bids_of_uncrossed h.uncrossed, rfl⟩

end Shows

/-- The sides of a book that may not be there yet. -/
def ShowsBefore (b : OrderBook) (before : Option Market) : Prop :=
  b.bids.find = Market.levelBefore before .bid ∧ b.asks.find = Market.levelBefore before .ask

section

variable {snap : OrderBookSnapshot} {before : Option Market} {m : Market}

lemma shows_replaceAll (h : BatchReports true snap.bids snap.asks before m) (now : ℕ)
    (b : OrderBook) : Shows (b.replaceAll now snap) m := by
  have hbids := OrderBook.foldl_setSnapshotLevel_bid now snap.bids (b.clear now)
  have hasks := OrderBook.foldl_setSnapshotLevel_ask now snap.asks
    (snap.bids.foldl (OrderBook.setSnapshotLevel now .bid) (b.clear now))
  constructor
  · rw [OrderBook.replaceAll, hasks.1, hbids.1]
    exact h.bids.find_inserts
  · rw [OrderBook.replaceAll, hasks.2, hbids.2]
    exact h.asks.find_inserts

lemma shows_applyDelta (h : BatchReports false snap.bids snap.asks before m) (now : ℕ)
    {b : OrderBook} (hb : ShowsBefore b before) : Shows (b.applyDelta now snap) m := by
  obtain ⟨hbids, hasks⟩ := OrderBook.applyDelta_sameLevels now snap b
  constructor
  · rw [hbids]
    exact h.bids.find_changes hb.1
  · rw [hasks]
    exact h.asks.find_changes hb.2

/-- **The engine's book shows what a batch reports.** -/
lemma shows_applyBatch (h : BatchReports snap.isSnapshot snap.bids snap.asks before m) (now : ℕ)
    {b : OrderBook} (hb : ShowsBefore b before) : Shows (b.applyBatch now snap) m := by
  rw [OrderBook.applyBatch]
  cases hsnap : snap.isSnapshot with
  | true => exact shows_replaceAll (hsnap ▸ h) now b
  | false => exact (shows_applyDelta (hsnap ▸ h) now hb).pruneCrossed

/-- **So does the client's.** -/
lemma shows_venueApply (venue : Venue)
    (h : BatchReports snap.isSnapshot snap.bids snap.asks before m) (now : ℕ) {b : OrderBook}
    (hb : ShowsBefore b before) : Shows (venue.apply now snap b) m := by
  cases hsnap : snap.isSnapshot with
  | false =>
    have hdelta := shows_applyDelta (hsnap ▸ h) now hb
    cases venue <;> simpa [Venue.apply, OrderBook.applyLocal, hsnap] using hdelta
  | true =>
    rw [hsnap] at h
    have hfull := shows_replaceAll h now b
    have hlocal : Shows (b.applyLocal now snap) m := by
      obtain ⟨hbids, hasks⟩ := OrderBook.applyLocal_snapshot hsnap now b
      rw [List.filter_eq_self.mpr fun l hl => decide_eq_true (h.bids.pos hl)] at hbids
      rw [List.filter_eq_self.mpr fun l hl => decide_eq_true (h.asks.pos hl)] at hasks
      constructor
      · rw [hbids]
        exact h.bids.find_inserts
      · rw [hasks]
        exact h.asks.find_inserts
    cases venue with
    | bybit => simpa [Venue.apply, hsnap] using hfull
    | kraken => exact hlocal
    | coinbase => exact hlocal

end

/-! ## Quotes -/

/-- The price and the quantity of the best level of a side, `0` if there is none. -/
def BestOf (m : Market) (side : Side) (price quantity : ℚ) : Prop :=
  ((∀ p, m.qty side p = none) ∧ price = 0 ∧ quantity = 0) ∨
    (m.qty side price = some quantity ∧ ∀ p, (m.qty side p).isSome →
      match side with
      | .bid => p ≤ price
      | .ask => price ≤ p)

/-- The first level of a side that shows the market is the best one. -/
lemma bestOf_front {cmp : ℚ → ℚ → Ordering} [Std.TransCmp cmp] [Std.LawfulEqCmp cmp] {m : Market}
    {side : Side} (hcmp : ∀ p p', cmp p p' = .lt →
      match side with
      | .bid => p' < p
      | .ask => p < p')
    {L : Levels cmp} (hL : L.find = m.level side) :
    BestOf m side ((L.toList.head?.map PriceLevel.price).getD 0)
      ((L.toList.head?.map PriceLevel.quantity).getD 0) := by
  cases hfront : L.toList.head? with
  | none =>
    refine Or.inl ⟨fun p => ?_, rfl, rfl⟩
    have hnone := Levels.isEmpty_iff.mp (Levels.front?_eq_none_iff.mp hfront) p
    rw [hL] at hnone
    exact Option.map_eq_none_iff.mp hnone
  | some l =>
    have hfind := Levels.find_of_front? hfront
    rw [hL] at hfind
    refine Or.inr ⟨(Market.level_eq_some.mp hfind).1, fun p hp => ?_⟩
    obtain ⟨l', hl'⟩ := Option.isSome_iff_exists.mp ((m.isSome_level side p).mpr hp)
    have hlt := Levels.front?_lt hfront ((congrFun hL p).trans hl')
    rcases hlt with rfl | hlt
    · cases side <;> exact le_refl _
    · have hside := hcmp _ _ hlt
      cases side <;> exact le_of_lt hside

lemma bestOf_bids {m : Market} {L : Levels bidCmp} (hL : L.find = m.level .bid) :
    BestOf m .bid ((L.toList.head?.map PriceLevel.price).getD 0)
      ((L.toList.head?.map PriceLevel.quantity).getD 0) :=
  bestOf_front (fun _ _ => bidCmp_eq_lt.mp) hL

lemma bestOf_asks {m : Market} {L : Levels askCmp} (hL : L.find = m.level .ask) :
    BestOf m .ask ((L.toList.head?.map PriceLevel.price).getD 0)
      ((L.toList.head?.map PriceLevel.quantity).getD 0) :=
  bestOf_front (fun _ _ => askCmp_eq_lt.mp) hL

/-- The ticker has the best quotes of the market. -/
def Market.Quotes (m : Market) (t : TickerData) : Prop :=
  BestOf m .bid t.bidPrice t.bidQuantity ∧ BestOf m .ask t.askPrice t.askQuantity

/-- The market has a level on this side. -/
def Market.HasSide (m : Market) (side : Side) : Prop := ∃ p, (m.qty side p).isSome

/-- The ticker of a book that shows a market. -/
lemma Shows.quotes {b : OrderBook} {m : Market} (h : Shows b m) (symbol exchange : Bytes)
    (nowMs : ℕ) :
    m.Quotes { CoinbaseWebSocketClient.bboTicker symbol nowMs b.getSnapshot with
      exchange := exchange } := ⟨bestOf_bids h.bids, bestOf_asks h.asks⟩

lemma hasSide_iff {cmp : ℚ → ℚ → Ordering} [Std.TransCmp cmp] [Std.LawfulEqCmp cmp] {m : Market}
    {side : Side} {L : Levels cmp} (hL : L.find = m.level side) :
    m.HasSide side ↔ L.isEmpty = false := by
  rw [← Bool.not_eq_true, Levels.isEmpty_iff, hL, Market.HasSide, not_forall]
  refine exists_congr fun p => ?_
  rw [← m.isSome_level, Option.isSome_iff_ne_none]

/-- The book has a ticker if the market has a level. -/
lemma Shows.isEmpty_iff {b : OrderBook} {m : Market} (h : Shows b m) :
    b.getSnapshot.isEmpty = false ↔ m.HasSide .bid ∨ m.HasSide .ask := by
  rw [hasSide_iff h.bids, hasSide_iff h.asks]
  exact Bool.and_eq_false_iff

/-- The ticker of a full book that lists its levels best first. -/
lemma quotes_of_sorted {snap : OrderBookSnapshot} {before : Option Market} {m : Market}
    (h : BatchReports true snap.bids snap.asks before m)
    (hbids : Levels.Ascending bidCmp snap.bids) (hasks : Levels.Ascending askCmp snap.asks)
    (symbol exchange : Bytes) (nowMs : ℕ) :
    m.Quotes { CoinbaseWebSocketClient.bboTicker symbol nowMs snap with exchange := exchange } := by
  have hbest := bestOf_bids h.bids.find_inserts
  have hbest' := bestOf_asks h.asks.find_inserts
  rw [Levels.toList_inserts hbids] at hbest
  rw [Levels.toList_inserts hasks] at hbest'
  exact ⟨hbest, hbest'⟩

/-- A full book has a side exactly if it lists a level of it. -/
lemma SideReports.hasSide_iff {ls : List PriceLevel} {before : Option Market} {m : Market}
    {side : Side} (h : SideReports true ls before m side) : m.HasSide side ↔ ls ≠ [] := by
  constructor
  · rintro ⟨p, hp⟩ rfl
    have hnone := h.2.other p fun o ho => absurd ho List.not_mem_nil
    rw [← m.isSome_level, hnone] at hp
    cases hp
  · intro hne
    obtain ⟨l, hl⟩ := List.exists_mem_of_ne_nil ls hne
    refine ⟨l.price, ?_⟩
    rw [← m.isSome_level, ← h.named hl, resting, if_neg (h.1 l hl)]
    rfl

end TickPlant
