/-
# The ticker of a FIX message

`FIXMessage::to_ticker_data` finds the best bid and the best ask of a message in one pass over
its entries, without a book.  Its comparisons are strict, so among the entries with the best
price it keeps the first; a book into which the message is put keeps the last one of every
price.  Mathlib's `List.argmax` and `List.argmin` also keep the first, and are what the pass
computes (`scan_levels`); the book is described by `Levels.front?_inserts`.
-/
import TickPlant.OrderBook.Book
import TickPlant.Queue.SharedQueue

namespace TickPlant

/-! ## The code -/

/-- The variables of the loop of `to_ticker_data`. -/
structure TickerScan where
  bestBid : ℚ
  bestAsk : ℚ
  bestBidQty : ℚ
  bestAskQty : ℚ
  hasBid : Bool
  hasAsk : Bool

/-- `std::numeric_limits<double>::max()`. -/
def doubleMax : ℚ := (2 ^ 53 - 1) * 2 ^ 971

namespace TickerScan

/-- The variables before the loop. -/
def init : TickerScan := ⟨0, doubleMax, 0, 0, false, false⟩

/-- One turn of the loop. -/
def visit (s : TickerScan) (e : MDEntry) : TickerScan :=
  if e.entryType = 0 then
    if s.hasBid = false ∨ e.price > s.bestBid then
      { s with bestBid := e.price, bestBidQty := e.quantity, hasBid := true }
    else s
  else if e.entryType = 1 then
    if s.hasAsk = false ∨ e.price < s.bestAsk then
      { s with bestAsk := e.price, bestAskQty := e.quantity, hasAsk := true }
    else s
  else s

end TickerScan

/-- `FIXMessage::to_ticker_data`. -/
def FIXMessage.toTickerData (nowMs : ℕ) (msg : FIXMessage) : Option TickerData :=
  if msg.isMarketData then
    let s := msg.entries.foldl TickerScan.visit .init
    if s.hasBid && s.hasAsk then
      some
        { symbol := msg.symbol
          exchange := bytes "FIX"
          bidPrice := s.bestBid
          askPrice := s.bestAsk
          bidQuantity := s.bestBidQty
          askQuantity := s.bestAskQty
          timestampMs := nowMs
          enqueueTsc := 0 }
    else none
  else none

/-! ## The levels of a message -/

/-- The level that an entry states, if it is of this side. -/
def entryLevel (side : Side) (e : MDEntry) : Option PriceLevel :=
  if OrderBook.entrySide e = some side then some ⟨e.price, e.quantity, 0⟩ else none

/-- The levels that the entries state for one side, in the order of the message. -/
def entryLevels (side : Side) (es : List MDEntry) : List PriceLevel :=
  es.filterMap (entryLevel side)

lemma entryLevels_concat (side : Side) (es : List MDEntry) (e : MDEntry) :
    entryLevels side (es ++ [e]) = entryLevels side es ++ (entryLevel side e).toList := by
  rw [entryLevels, List.filterMap_append]
  cases hl : entryLevel side e with
  | none => rw [List.filterMap_cons_none hl]; rfl
  | some l => rw [List.filterMap_cons_some hl]; rfl

namespace TickerScan

/-- The bid found so far. -/
def bid (s : TickerScan) : Option PriceLevel :=
  if s.hasBid then some ⟨s.bestBid, s.bestBidQty, 0⟩ else none

/-- The ask found so far. -/
def ask (s : TickerScan) : Option PriceLevel :=
  if s.hasAsk then some ⟨s.bestAsk, s.bestAskQty, 0⟩ else none

lemma bid_visit (s : TickerScan) (e : MDEntry) : (s.visit e).bid =
    ((entryLevel .bid e).map fun l =>
      match s.bid with
      | none => l
      | some c => if c.price < l.price then l else c).or s.bid := by
  rw [visit, entryLevel, OrderBook.entrySide]
  by_cases hbid : e.entryType = 0
  · by_cases hnone : s.hasBid = false
    · simp [hbid, hnone, bid]
    · rw [Bool.not_eq_false] at hnone
      by_cases hlt : s.bestBid < e.price <;> simp [hbid, hnone, hlt, bid]
  · by_cases hask : e.entryType = 1
    · simp only [hask, one_ne_zero, if_false, if_true, Option.some.injEq, reduceCtorEq,
        Option.map_none, Option.none_or]
      split_ifs <;> rfl
    · simp [hbid, hask]

lemma ask_visit (s : TickerScan) (e : MDEntry) : (s.visit e).ask =
    ((entryLevel .ask e).map fun l =>
      match s.ask with
      | none => l
      | some c => if l.price < c.price then l else c).or s.ask := by
  rw [visit, entryLevel, OrderBook.entrySide]
  by_cases hbid : e.entryType = 0
  · simp only [hbid, if_true, Option.some.injEq, reduceCtorEq, if_false, Option.map_none,
      Option.none_or]
    split_ifs <;> rfl
  · by_cases hask : e.entryType = 1
    · by_cases hnone : s.hasAsk = false
      · simp [hask, hnone, ask]
      · rw [Bool.not_eq_false] at hnone
        by_cases hlt : e.price < s.bestAsk <;> simp [hask, hnone, hlt, ask]
    · simp [hbid, hask]

/-- The loop finds the first bid of the greatest price and the first ask of the least. -/
lemma scan_levels (es : List MDEntry) :
    (es.foldl visit init).bid = (entryLevels .bid es).argmax PriceLevel.price ∧
      (es.foldl visit init).ask = (entryLevels .ask es).argmin PriceLevel.price := by
  induction es using List.reverseRecOn with
  | nil => exact ⟨rfl, rfl⟩
  | append_singleton es e ih =>
    rw [List.foldl_append, List.foldl_cons, List.foldl_nil, bid_visit, ask_visit, ih.1, ih.2,
      entryLevels_concat, entryLevels_concat]
    constructor
    · cases entryLevel .bid e with
      | none => simp
      | some l =>
        rw [Option.toList_some, List.argmax_concat]
        cases (entryLevels .bid es).argmax PriceLevel.price with
        | none => rfl
        | some c =>
          dsimp only [Option.map_some, Option.some_or]
          split_ifs <;> rfl
    · cases entryLevel .ask e with
      | none => simp
      | some l =>
        rw [Option.toList_some, List.argmin_concat]
        cases (entryLevels .ask es).argmin PriceLevel.price with
        | none => rfl
        | some c =>
          dsimp only [Option.map_some, Option.some_or]
          split_ifs <;> rfl

end TickerScan

/-- The ticker of a message, by its levels. -/
lemma toTickerData_eq (nowMs : ℕ) {msg : FIXMessage} (h : msg.isMarketData = true) :
    msg.toTickerData nowMs =
      ((entryLevels .bid msg.entries).argmax PriceLevel.price).bind fun bid =>
        ((entryLevels .ask msg.entries).argmin PriceLevel.price).map fun ask =>
          ⟨msg.symbol, bytes "FIX", bid.price, ask.price, bid.quantity, ask.quantity, nowMs,
            0⟩ := by
  obtain ⟨hbid, hask⟩ := TickerScan.scan_levels msg.entries
  rw [FIXMessage.toTickerData, if_pos h, ← hbid, ← hask]
  dsimp only
  obtain ⟨bestBid, bestAsk, bestBidQty, bestAskQty, hasBid, hasAsk⟩ :=
    msg.entries.foldl TickerScan.visit .init
  cases hasBid <;> cases hasAsk <;> rfl

/-- `argmax` returns the first element of its value. -/
lemma find?_argmax {α β : Type*} [LinearOrder β] {f : α → β} {l : List α} {m : α}
    (h : m ∈ l.argmax f) : (l.find? fun x => f x = f m) = some m := by
  induction l using List.reverseRecOn generalizing m with
  | nil => cases h
  | append_singleton l a ih =>
    rw [List.argmax_concat] at h
    cases hc : l.argmax f with
    | none =>
      rw [hc] at h
      obtain rfl : a = m := Option.some.inj h
      rw [List.argmax_eq_none.mp hc]
      simp
    | some c =>
      rw [hc] at h
      dsimp only at h
      split_ifs at h with hlt
      · obtain rfl : a = m := Option.some.inj h
        have hnone : (l.find? fun x => f x = f a) = none := by
          rw [List.find?_eq_none]
          intro x hx heq
          have hle := List.le_of_mem_argmax hx hc
          rw [decide_eq_true_eq] at heq
          exact absurd hle (not_le.mpr (heq ▸ hlt))
        rw [List.find?_append, hnone]
        simp
      · obtain rfl : c = m := Option.some.inj h
        rw [List.find?_append, ih hc]
        rfl

/-! ## The book of a message -/

namespace OrderBook

lemma foldl_applySnapshotEntry (es : List MDEntry) (b : OrderBook) :
    (es.foldl applySnapshotEntry b).bids = (entryLevels .bid es).foldl Levels.insert b.bids ∧
      (es.foldl applySnapshotEntry b).asks =
        (entryLevels .ask es).foldl Levels.insert b.asks := by
  induction es generalizing b with
  | nil => exact ⟨rfl, rfl⟩
  | cons e es ih =>
    obtain ⟨hbids, hasks⟩ := ih (b.applySnapshotEntry e)
    rw [List.foldl_cons, hbids, hasks, applySnapshotEntry]
    simp only [entryLevels, List.filterMap_cons, entryLevel]
    rcases entrySide e with _ | side
    · simp
    · cases side <;> simp [putLevel]

/-- A snapshot replaces both sides by the levels of the message. -/
lemma applySnapshot_sides (now : ℕ) {msg : FIXMessage} (h : msg.msgType = .marketDataSnapshot)
    (b : OrderBook) :
    (b.applySnapshot now msg).bids =
        (entryLevels .bid msg.entries).foldl Levels.insert Levels.empty ∧
      (b.applySnapshot now msg).asks =
        (entryLevels .ask msg.entries).foldl Levels.insert Levels.empty := by
  rw [applySnapshot, if_pos h]
  dsimp only [touch]
  split_ifs <;> exact foldl_applySnapshotEntry _ _

end OrderBook

/-- The front level of the bids is a bid of the greatest price: the last one. -/
lemma front?_bids {ls : List PriceLevel} {m : PriceLevel} (h : m ∈ ls.argmax PriceLevel.price) :
    (ls.foldl Levels.insert (Levels.empty : Levels bidCmp)).front? =
      Lib.lastNaming PriceLevel.price m.price ls := by
  refine Levels.front?_inserts (List.argmax_mem h) ?_
  intro l hl
  rw [bidCmp_eq_lt]
  exact (List.le_of_mem_argmax hl h).eq_or_lt.imp Eq.symm id

/-- The front level of the asks is an ask of the least price: the last one. -/
lemma front?_asks {ls : List PriceLevel} {m : PriceLevel} (h : m ∈ ls.argmin PriceLevel.price) :
    (ls.foldl Levels.insert (Levels.empty : Levels askCmp)).front? =
      Lib.lastNaming PriceLevel.price m.price ls := by
  refine Levels.front?_inserts (List.argmin_mem h) ?_
  intro l hl
  rw [askCmp_eq_lt]
  exact (List.le_of_mem_argmin hl h).eq_or_lt

/-! ## When the ticker shows the book -/

/-- The ticker is missing exactly if the book has an empty side, and otherwise shows the front
levels of the book. -/
def ShowsFronts (ticker : Option TickerData) (b : OrderBook) : Prop :=
  (ticker = none ↔ b.bids.isEmpty = true ∨ b.asks.isEmpty = true) ∧
    ∀ t, ticker = some t →
      (b.bids.front?.map fun l => (l.price, l.quantity)) = some (t.bidPrice, t.bidQuantity) ∧
        (b.asks.front?.map fun l => (l.price, l.quantity)) = some (t.askPrice, t.askQuantity)

/-- The first and the last level at a price have the same quantity. -/
def FirstIsLast (p : ℚ) (ls : List PriceLevel) : Prop :=
  (ls.find? fun l => l.price = p).map PriceLevel.quantity =
    (Lib.lastNaming PriceLevel.price p ls).map PriceLevel.quantity

/-- If the message has bids and asks, the first and the last bid of the best bid price have the
same quantity, and so do those asks. -/
def FIXMessage.TiesAgree (msg : FIXMessage) : Prop :=
  ∀ p q, IsGreatest {x | ∃ l ∈ entryLevels .bid msg.entries, l.price = x} p →
    IsLeast {x | ∃ l ∈ entryLevels .ask msg.entries, l.price = x} q →
      FirstIsLast p (entryLevels .bid msg.entries) ∧ FirstIsLast q (entryLevels .ask msg.entries)

lemma isGreatest_argmax {ls : List PriceLevel} {m : PriceLevel}
    (h : m ∈ ls.argmax PriceLevel.price) : IsGreatest {x | ∃ l ∈ ls, l.price = x} m.price := by
  refine ⟨⟨m, List.argmax_mem h, rfl⟩, ?_⟩
  rintro x ⟨l, hl, rfl⟩
  exact List.le_of_mem_argmax hl h

lemma isLeast_argmin {ls : List PriceLevel} {m : PriceLevel}
    (h : m ∈ ls.argmin PriceLevel.price) : IsLeast {x | ∃ l ∈ ls, l.price = x} m.price := by
  refine ⟨⟨m, List.argmin_mem h, rfl⟩, ?_⟩
  rintro x ⟨l, hl, rfl⟩
  exact List.le_of_mem_argmin hl h

/-- The first level of the best price has the quantity of the front level if it has that of the
last one. -/
lemma front_shown_iff {ls : List PriceLevel} {m : PriceLevel}
    (hfirst : (ls.find? fun l => l.price = m.price) = some m) :
    ((Lib.lastNaming PriceLevel.price m.price ls).map fun l => (l.price, l.quantity)) =
      some (m.price, m.quantity) ↔ FirstIsLast m.price ls := by
  rw [FirstIsLast, hfirst]
  cases hlast : Lib.lastNaming PriceLevel.price m.price ls with
  | none => simp
  | some l =>
    have hl := (Lib.lastNaming_eq_some hlast).2
    simp [hl, eq_comm]

/-- **When the ticker shows the book.**  For every full refresh, the ticker of the message shows
the front levels of a fresh book after the message if and only if, on both sides, the first and
the last entry of the best price have the same quantity. -/
theorem toTickerData_shows_iff (symbol exchange : Bytes) (now nowMs : ℕ) (msg : FIXMessage)
    (h : msg.msgType = .marketDataSnapshot) :
    ShowsFronts (msg.toTickerData nowMs) ((OrderBook.new symbol exchange).applySnapshot now msg) ↔
      msg.TiesAgree := by
  obtain ⟨hbids, hasks⟩ := OrderBook.applySnapshot_sides now h (OrderBook.new symbol exchange)
  have hmarket : msg.isMarketData = true := by simp [FIXMessage.isMarketData, h]
  rw [ShowsFronts, ← Levels.front?_eq_none_iff, ← Levels.front?_eq_none_iff, hbids, hasks,
    toTickerData_eq nowMs hmarket, FIXMessage.TiesAgree]
  cases hbid : (entryLevels .bid msg.entries).argmax PriceLevel.price with
  -- without bids neither the ticker nor the condition says anything
  | none =>
    have hnil := List.argmax_eq_none.mp hbid
    refine iff_of_true ⟨?_, ?_⟩ ?_
    · simp [hnil, Levels.front?, Levels.toList, Levels.empty]
    · simp
    · intro p q hp
      obtain ⟨l, hl, -⟩ := hp.1
      simp [hnil] at hl
  | some bid =>
    cases hask : (entryLevels .ask msg.entries).argmin PriceLevel.price with
    | none =>
      have hnil := List.argmin_eq_none.mp hask
      refine iff_of_true ⟨?_, ?_⟩ ?_
      · simp [hnil, Levels.front?, Levels.toList, Levels.empty]
      · simp
      · intro p q _ hq
        obtain ⟨l, hl, -⟩ := hq.1
        simp [hnil] at hl
    | some ask =>
      have hfirst := find?_argmax hbid
      have hfirst' := find?_argmax (β := ℚᵒᵈ) hask
      rw [front?_bids hbid, front?_asks hask]
      constructor
      · rintro ⟨-, hshown⟩ p q hp hq
        rw [hp.unique (isGreatest_argmax hbid), hq.unique (isLeast_argmin hask)]
        obtain ⟨hb, ha⟩ := hshown _ rfl
        exact ⟨(front_shown_iff hfirst).mp hb, (front_shown_iff hfirst').mp ha⟩
      · intro hties
        obtain ⟨hb, ha⟩ := hties _ _ (isGreatest_argmax hbid) (isLeast_argmin hask)
        rw [← front_shown_iff hfirst] at hb
        rw [← front_shown_iff hfirst'] at ha
        refine ⟨iff_of_false (by simp) ?_, ?_⟩
        · rintro (hnone | hnone)
          · rw [hnone] at hb
            cases hb
          · rw [hnone] at ha
            cases ha
        · intro t ht
          obtain rfl := Option.some.inj ht
          exact ⟨hb, ha⟩

/-- A full refresh with one bid and one ask. -/
def oneBidOneAsk : FIXMessage :=
  ⟨.marketDataSnapshot, bytes "BTCUSD", [⟨0, 0, 100, 1⟩, ⟨1, 0, 101, 1⟩]⟩

/-- Without repeated prices there is nothing to agree on. -/
theorem toTickerData_shows_oneBidOneAsk :
    ShowsFronts (oneBidOneAsk.toTickerData 0)
      ((OrderBook.new [] (bytes "FIX")).applySnapshot 0 oneBidOneAsk) := by
  refine (toTickerData_shows_iff [] (bytes "FIX") 0 0 oneBidOneAsk rfl).mpr ?_
  intro p q hp hq
  have hbids : entryLevels .bid oneBidOneAsk.entries = [⟨100, 1, 0⟩] := by decide +kernel
  have hasks : entryLevels .ask oneBidOneAsk.entries = [⟨101, 1, 0⟩] := by decide +kernel
  rw [hbids] at hp ⊢
  rw [hasks] at hq ⊢
  obtain ⟨⟨l, hl, rfl⟩, -⟩ := hp
  obtain ⟨⟨l', hl', rfl⟩, -⟩ := hq
  obtain rfl := List.mem_singleton.mp hl
  obtain rfl := List.mem_singleton.mp hl'
  exact ⟨by simp [FirstIsLast, Lib.lastNaming], by simp [FirstIsLast, Lib.lastNaming]⟩

/-- A full refresh with two bids of one price. -/
def twoBids : FIXMessage :=
  ⟨.marketDataSnapshot, bytes "BTCUSD", [⟨0, 0, 100, 1⟩, ⟨0, 0, 100, 2⟩, ⟨1, 0, 101, 1⟩]⟩

/-- The ticker shows the quantity of the first of them, the book that of the second. -/
theorem two_bids_differ :
    ¬ ∀ (symbol exchange : Bytes) (now nowMs : ℕ) (msg : FIXMessage),
      msg.msgType = .marketDataSnapshot → msg.entries.length ≤ 32 →
      ShowsFronts (msg.toTickerData nowMs)
        ((OrderBook.new symbol exchange).applySnapshot now msg) := by
  intro hclaim
  obtain ⟨t, ht⟩ : ∃ t, twoBids.toTickerData 0 = some t := by
    refine Option.isSome_iff_exists.mp ?_
    decide +kernel
  have hfronts := ((hclaim [] [] 0 0 twoBids rfl (by decide)).2 t ht).1
  have hbook : (((OrderBook.new [] []).applySnapshot 0 twoBids).bids.front?.map fun l =>
      (l.price, l.quantity)) = some (100, 2) := by decide +kernel
  have hticker : (twoBids.toTickerData 0).map TickerData.bidQuantity = some 1 := by decide +kernel
  rw [ht, Option.map_some, Option.some.injEq] at hticker
  rw [hbook, Option.some.injEq, Prod.mk.injEq, hticker] at hfronts
  exact absurd hfronts.2 (by norm_num)

end TickPlant
