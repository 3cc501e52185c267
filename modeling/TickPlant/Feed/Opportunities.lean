/-
# Opportunities on the exchanges

What `calculate_arbitrage` publishes, in terms of the exchanges: an opportunity between two of
them is there exactly if the books that they have published last cross by enough, and both have
had news in the last half second.  Nothing is said about the books of the FIX simulator, which is
no exchange; an opportunity with one of them names `FIX`.
-/
import TickPlant.Feed.Replication
import TickPlant.Engine.CrossExchange

namespace TickPlant

open Lib
open ArbitrageEngine (BookId Live opportunityBetween)

/-- The best level of a side, on an exchange with recent news of the book. -/
structure Offers (published : List Publication) (nowMs : ℕ) (side : Side) (x : Exchange)
    (symbol : Bytes) (price quantity : ℚ) : Prop where
  best : ∃ m, current published x symbol = some m ∧ m.qty side price = some quantity ∧
    BestOf m side price quantity
  fresh : ∃ atMs, lastNews published x symbol = some atMs ∧ nowMs - atMs ≤ 500

/-- Buying at one exchange and selling at another. -/
def crossing (nowMs : ℕ) (x x' : Exchange) (symbol : Bytes) (ask askQty bid bidQty : ℚ) :
    ArbitrageOpportunity where
  symbol := normalizeSymbol symbol
  buyExchange := x.name
  sellExchange := x'.name
  buyPrice := ask
  sellPrice := bid
  profitBps := (bid - ask) / ask * 10000
  maxQuantity := min askQty bidQty
  timestampMs := nowMs

/-! ## Best levels -/

/-- The first level of a side. -/
def OrderBook.firstLevel (b : OrderBook) : Side → Option PriceLevel
  | .bid => b.bids.toList.head?
  | .ask => b.asks.toList.head?

lemma OrderBook.isEmpty_of_firstLevel {b : OrderBook} {side : Side} {l : PriceLevel}
    (h : b.firstLevel side = some l) : b.getSnapshot.isEmpty = false := by
  have hside : ∀ {ls : List PriceLevel}, ls.head? = some l → ls.isEmpty = false := by
    intro ls hl
    cases ls with
    | nil => cases hl
    | cons => rfl
  rw [OrderBookSnapshot.isEmpty, Bool.and_eq_false_iff]
  cases side with
  | bid => exact Or.inl (hside h)
  | ask => exact Or.inr (hside h)

/-- The best level of a market is the first level of a side that shows it. -/
lemma best_iff_front {cmp : ℚ → ℚ → Ordering} [Std.TransCmp cmp] [Std.LawfulEqCmp cmp] {m : Market}
    {side : Side} (hcmp : ∀ p p', cmp p p' = .lt →
      match side with
      | .bid => p' < p
      | .ask => p < p')
    {L : Levels cmp} (hL : L.find = m.level side) {price quantity : ℚ} :
    m.qty side price = some quantity ∧ BestOf m side price quantity ↔
      ∃ l, L.toList.head? = some l ∧ l.price = price ∧ l.quantity = quantity := by
  have hfront := bestOf_front hcmp hL
  constructor
  · rintro ⟨hqty, hbest⟩
    have hlevel : L.find price = some ⟨price, quantity, 0⟩ := by
      rw [hL]
      exact Market.level_eq_some.mpr ⟨hqty, rfl, rfl⟩
    cases hl : L.toList.head? with
    | none =>
      rw [Levels.isEmpty_iff.mp (Levels.front?_eq_none_iff.mp hl) price] at hlevel
      cases hlevel
    | some l =>
      have hfind := Levels.find_of_front? hl
      have hlqty := (Market.level_eq_some.mp (hL ▸ hfind)).1
      rcases Levels.front?_lt hl hlevel with hprice | hlt
      · refine ⟨l, rfl, hprice, ?_⟩
        rw [hprice, hqty] at hlqty
        exact (Option.some.inj hlqty).symm
      · -- a level before the best one
        rcases hbest with ⟨hnone, -⟩ | ⟨-, hbest⟩
        · rw [hnone price] at hqty
          cases hqty
        · have hle := hbest l.price (by rw [hlqty]; rfl)
          have hbefore := hcmp _ _ hlt
          cases side <;> exact absurd hle (not_le.mpr hbefore)
  · rintro ⟨l, hl, rfl, rfl⟩
    rw [hl] at hfront
    exact ⟨(Market.level_eq_some.mp (hL ▸ Levels.find_of_front? hl)).1, hfront⟩

lemma opportunityBetween_eq_some {nowMs : ℕ} {e : ArbitrageEngine} {buy sell : BookId}
    {b s : BookEntry} (hbuy : e.entryOf buy = some b)
    (hsell : e.entryOf sell = some s) {o : ArbitrageOpportunity} :
    opportunityBetween nowMs e buy sell = some o ↔
      ∃ ask bid, b.2.asks.head? = some ask ∧ s.2.bids.head? = some bid ∧
        (Live nowMs b ∧ Live nowMs s ∧ normalizeSymbol b.2.symbol = normalizeSymbol s.2.symbol ∧
          0 < ask.price ∧ ask.price < bid.price ∧
          e.minProfitBps ≤ (bid.price - ask.price) / ask.price * 10000 ∧
          0 < min ask.quantity bid.quantity) ∧
        { symbol := normalizeSymbol b.2.symbol, buyExchange := b.1, sellExchange := s.1,
          buyPrice := ask.price, sellPrice := bid.price,
          profitBps := (bid.price - ask.price) / ask.price * 10000,
          maxQuantity := min ask.quantity bid.quantity, timestampMs := nowMs } = o := by
  simp only [opportunityBetween, hbuy, hsell, Option.bind_eq_bind, Option.bind_some,
    Option.bind_eq_some_iff, Option.ite_none_right_eq_some, Option.some.injEq]
  simp only [exists_and_left]

namespace Mirrors

variable {published : List Publication} {e : ArbitrageEngine} (he : Mirrors published e)

include he

/-- A book in `ws_books_` is that of an exchange. -/
lemma exists_exchange {key : Bytes} {b : OrderBook} (hb : e.wsBooks.lookup key = some b) :
    ∃ x symbol, key = Exchange.bookName x symbol ∧ b.exchange = x.name ∧ b.symbol = symbol := by
  obtain ⟨f, hf, hid, hnames⟩ := he.named (.ws key) b hb
  obtain ⟨x, symbol, rfl⟩ | ⟨symbol, rfl⟩ := hf
  · exact ⟨x, symbol, (BookId.ws.inj hid).symm, hnames⟩
  · cases hid

/-- What the engine has of an exchange's book. -/
lemma exists_market {x : Exchange} {symbol : Bytes} {b : OrderBook}
    (hb : e.wsBooks.lookup (x.bookName symbol) = some b) :
    ∃ m, current published x symbol = some m ∧ Shows b m ∧ b.exchange = x.name ∧
      b.symbol = symbol ∧ lastNews published x symbol = some b.lastUpdateMs := by
  obtain ⟨x', symbol', hname, hnames⟩ := he.exists_exchange hb
  obtain ⟨rfl, rfl⟩ := bookName_injective hname
  have hshown := he.books x symbol
  rw [hb] at hshown
  cases hm : current published x symbol with
  | none => rw [hm] at hshown; cases hshown
  | some m =>
    rw [hm] at hshown
    cases hshown with
    | some hshows => exact ⟨m, rfl, hshows, hnames.1, hnames.2, he.dated x symbol b hb⟩

/-- What an exchange offers is the first level of its book in the engine, if that is live. -/
lemma offers_iff {x : Exchange} {symbol : Bytes} {nowMs : ℕ} {side : Side} {price quantity : ℚ} :
    Offers published nowMs side x symbol price quantity ↔
      ∃ b l, e.wsBooks.lookup (x.bookName symbol) = some b ∧ b.firstLevel side = some l ∧
        l.price = price ∧ l.quantity = quantity ∧ nowMs - b.lastUpdateMs ≤ 500 := by
  have hfirst : ∀ {b : OrderBook} {m : Market}, Shows b m →
      (m.qty side price = some quantity ∧ BestOf m side price quantity ↔
        ∃ l, b.firstLevel side = some l ∧ l.price = price ∧ l.quantity = quantity) := by
    intro b m hb
    cases side with
    | bid => exact best_iff_front (fun _ _ => bidCmp_eq_lt.mp) hb.bids
    | ask => exact best_iff_front (fun _ _ => askCmp_eq_lt.mp) hb.asks
  constructor
  · rintro ⟨⟨m, hm, hbest⟩, atMs, hat, hfresh⟩
    have hshown := he.books x symbol
    rw [hm] at hshown
    cases hlookup : e.wsBooks.lookup (x.bookName symbol) with
    | none => rw [hlookup] at hshown; cases hshown
    | some b =>
      obtain ⟨m', hm', hb, -, -, hnews⟩ := he.exists_market hlookup
      obtain rfl := Option.some.inj (hm.symm.trans hm')
      obtain rfl := Option.some.inj (hat.symm.trans hnews)
      obtain ⟨l, hl, hprice, hqty⟩ := (hfirst hb).mp hbest
      exact ⟨b, l, rfl, hl, hprice, hqty, hfresh⟩
  · rintro ⟨b, l, hlookup, hl, hprice, hqty, hfresh⟩
    obtain ⟨m, hm, hb, -, -, hnews⟩ := he.exists_market hlookup
    exact ⟨⟨m, hm, (hfirst hb).mpr ⟨l, hl, hprice, hqty⟩⟩, _, hnews, hfresh⟩

/-- A book that the loops look at, unless it is one of the simulator. -/
lemma exists_book {id : BookId} {entry : BookEntry} (hentry : e.entryOf id = some entry)
    (hfix : entry.1 ≠ bytes "FIX") :
    ∃ x symbol b, id = .ws (Exchange.bookName x symbol) ∧
      e.wsBooks.lookup (x.bookName symbol) = some b ∧ entry = (x.name, b.getSnapshot) ∧
      b.symbol = symbol := by
  cases id with
  | fix symbol =>
    obtain ⟨b, -, rfl⟩ := Option.map_eq_some_iff.mp hentry
    exact absurd rfl hfix
  | ws key =>
    obtain ⟨b, hb, rfl⟩ := Option.map_eq_some_iff.mp hentry
    obtain ⟨x, symbol, rfl, hname, hsymbol⟩ := he.exists_exchange hb
    exact ⟨x, symbol, b, rfl, hb, by rw [hname], hsymbol⟩

omit he in
lemma entryOf_book {x : Exchange} {symbol : Bytes} {b : OrderBook}
    (hb : e.wsBooks.lookup (x.bookName symbol) = some b) :
    e.entryOf (.ws (x.bookName symbol)) = some (b.exchange, b.getSnapshot) := by
  rw [ArbitrageEngine.entryOf, hb]
  rfl

/-- The opportunities of an engine that has the published books. -/
lemma mem_opportunities_iff {orders : ArbitrageEngine.MapOrders} {nowMs : ℕ}
    {o : ArbitrageOpportunity} :
    (o ∈ (e.calculateArbitrage orders nowMs).opportunities ∧ o.buyExchange ≠ bytes "FIX" ∧
        o.sellExchange ≠ bytes "FIX") ↔
      ∃ x x' symbol symbol' ask askQty bid bidQty, (x, symbol) ≠ (x', symbol') ∧
        normalizeSymbol symbol = normalizeSymbol symbol' ∧
        Offers published nowMs .ask x symbol ask askQty ∧
        Offers published nowMs .bid x' symbol' bid bidQty ∧ 0 < ask ∧ ask < bid ∧
        e.minProfitBps ≤ (bid - ask) / ask * 10000 ∧
        o = crossing nowMs x x' symbol ask askQty bid bidQty := by
  rw [ArbitrageEngine.mem_opportunities]
  constructor
  · rintro ⟨⟨buy, -, sell, -, hne, ho⟩, hbuyFix, hsellFix⟩
    obtain ⟨entry, entry', hentry, hentry', hbuy, hsell, -⟩ :=
      ArbitrageEngine.opportunityBetween_names ho
    obtain ⟨x, symbol, b, rfl, hb, rfl, rfl⟩ := he.exists_book hentry (hbuy ▸ hbuyFix)
    obtain ⟨x', symbol', b', rfl, hb', rfl, rfl⟩ := he.exists_book hentry' (hsell ▸ hsellFix)
    obtain ⟨ask, bid, hask, hbid, ⟨hlive, hlive', hbase, hpos, hcross, hprofit, -⟩, rfl⟩ :=
      (opportunityBetween_eq_some hentry hentry').mp ho
    refine ⟨x, x', b.symbol, b'.symbol, ask.price, ask.quantity, bid.price, bid.quantity, ?_, hbase,
      he.offers_iff.mpr ⟨b, ask, hb, hask, rfl, rfl, hlive.2⟩,
      he.offers_iff.mpr ⟨b', bid, hb', hbid, rfl, rfl, hlive'.2⟩, hpos, hcross, hprofit, rfl⟩
    rintro hsame
    obtain ⟨rfl, hsymbol⟩ := Prod.mk.inj hsame
    exact hne (by rw [hsymbol])
  · rintro ⟨x, x', symbol, symbol', ask, askQty, bid, bidQty, hne, hbase, hoffer, hoffer', hpos,
      hcross, hprofit, rfl⟩
    have hquantity : ∀ {side x symbol price quantity},
        Offers published nowMs side x symbol price quantity → 0 < quantity := by
      rintro side x symbol price quantity ⟨⟨m, -, hqty, -⟩, -⟩
      exact m.positive side price quantity hqty
    have hmin := lt_min (hquantity hoffer) (hquantity hoffer')
    obtain ⟨b, l, hb, hl, rfl, rfl, hfresh⟩ := he.offers_iff.mp hoffer
    obtain ⟨b', l', hb', hl', rfl, rfl, hfresh'⟩ := he.offers_iff.mp hoffer'
    obtain ⟨-, -, -, hname, rfl, -⟩ := he.exists_market hb
    obtain ⟨-, -, -, hname', rfl, -⟩ := he.exists_market hb'
    have hlive : ∀ {b : OrderBook} {side l}, b.firstLevel side = some l →
        nowMs - b.lastUpdateMs ≤ 500 → Live nowMs (b.exchange, b.getSnapshot) :=
      fun hl hfresh => ⟨OrderBook.isEmpty_of_firstLevel hl, hfresh⟩
    have hid : BookId.ws (x.bookName b.symbol) ≠ .ws (x'.bookName b'.symbol) := by
      intro hid
      obtain ⟨hx, hsymbol⟩ := bookName_injective (BookId.ws.inj hid)
      exact hne (Prod.ext hx hsymbol)
    have hmem : ∀ {x : Exchange} {b : OrderBook},
        e.wsBooks.lookup (x.bookName b.symbol) = some b →
        BookId.ws (x.bookName b.symbol) ∈ e.bookIds := by
      intro x b hb
      rw [ArbitrageEngine.mem_bookIds, ArbitrageEngine.bookOf, hb]
      rfl
    have hfix : ∀ x : Exchange, x.name ≠ bytes "FIX" := by
      intro x
      rcases x with _ | _ | _ | _ <;> decide
    refine ⟨⟨_, hmem hb, _, hmem hb', hid, ?_⟩, hfix x, hfix x'⟩
    refine (opportunityBetween_eq_some (entryOf_book hb) (entryOf_book hb')).mpr
      ⟨l, l', hl, hl', ⟨hlive hl hfresh, hlive hl' hfresh', hbase, hpos, hcross, hprofit, hmin⟩, ?_⟩
    rw [crossing, hname, hname']
    rfl

end Mirrors

/-- **Opportunities are those of the exchanges.**  After any run, an opportunity between two
exchanges is published exactly if their last books cross by enough and are recent. -/
theorem opportunities_of_exchanges (parse : Bytes → Option JsonValue) (stod : Bytes → Option ℚ)
    (sort : PriceSort) (w : World) (ls : List Arrival)
    (hrun : Run (World.Step parse stod sort) ⟨[], Feeds.start⟩ ls w)
    (orders : ArbitrageEngine.MapOrders) (nowMs : ℕ) (o : ArbitrageOpportunity) :
    (o ∈ (w.feeds.engine.calculateArbitrage orders nowMs).opportunities ∧
        o.buyExchange ≠ bytes "FIX" ∧ o.sellExchange ≠ bytes "FIX") ↔
      ∃ x x' symbol symbol' ask askQty bid bidQty, (x, symbol) ≠ (x', symbol') ∧
        normalizeSymbol symbol = normalizeSymbol symbol' ∧
        Offers w.published nowMs .ask x symbol ask askQty ∧
        Offers w.published nowMs .bid x' symbol' bid bidQty ∧ 0 < ask ∧ ask < bid ∧
        w.feeds.engine.minProfitBps ≤ (bid - ask) / ask * 10000 ∧
        o = crossing nowMs x x' symbol ask askQty bid bidQty :=
  (InStep.run hrun).engine.mem_opportunities_iff

/-- A message of Binance, where the bid is at 103. -/
def dearDoc : JsonValue :=
  .object [(bytes "stream", .string (bytes "btcusdt@depth20@100ms")),
    (bytes "data", .object [(bytes "bids", .array [pairOf (bytes "103") (bytes "1")]),
      (bytes "asks", .array [pairOf (bytes "104") (bytes "2")])])]

/-- The text of this message. -/
def dearText : Bytes :=
  bytes "\x7b\"stream\":\"btcusdt@depth20@100ms\",\"data\":\x7b" ++
    bytes "\"bids\":[[\"103\",\"1\"]],\"asks\":[[\"104\",\"2\"]]\x7d\x7d"

/-- The batch that the message carries. -/
def dearBatch : Batch := ⟨bytes "BTCUSDT", true, [(103, 1)], [(104, 2)]⟩

/-- The book that Binance shows by it. -/
def dearMarket : Market := marketAt 103 1 104 (by decide +kernel) one_pos

/-- The calls of the JSON library for the full book of Bybit and this message. -/
def parseBoth (t : Bytes) : Option JsonValue :=
  if t = dearText then some dearDoc else parseTexts t

/-- The readings of `std::stod` for their numbers. -/
def stodBoth (t : Bytes) : Option ℚ :=
  if t = bytes "103" then some 103 else if t = bytes "104" then some 104 else stodTexts t

lemma carries_dear : BinanceWebSocketClient.Carries stodBoth dearDoc dearBatch where
  symbol := by decide +kernel
  stream := rfl
  full := rfl
  data := by
    refine ⟨_, rfl, ⟨_, rfl, ?_⟩, ⟨_, rfl, ?_⟩⟩
    · exact .cons ⟨bytes "103", bytes "1", [], rfl, rfl, rfl⟩ .nil
    · exact .cons ⟨bytes "104", bytes "2", [], rfl, rfl, rfl⟩ .nil

lemma carries_cheap : BybitWebSocketClient.Carries stodBoth fullDoc fullBatch where
  op := by decide
  topic := rfl
  type := rfl
  data := by
    refine ⟨_, rfl, ⟨_, rfl, ?_⟩, ⟨_, rfl, ?_⟩⟩
    · exact .cons ⟨bytes "100", bytes "1", [], rfl, rfl, rfl⟩ .nil
    · exact .cons ⟨bytes "101", bytes "2", [], rfl, rfl, rfl⟩ .nil

lemma reports_dear : Exchange.binance.Reports dearBatch none dearMarket where
  reports := by
    refine ⟨by decide, ⟨by decide +kernel, ?_, ?_⟩, by decide +kernel, ?_, ?_⟩ <;>
      simp [dearBatch, toLevel, resting, dearMarket, marketAt, Market.level, eq_comm]
  binance _ := ⟨rfl, List.pairwise_singleton _ _, List.pairwise_singleton _ _⟩
  nonempty h := by rcases h with ⟨⟨⟩⟩ | ⟨⟨⟩⟩

/-- The bid of Binance is above the ask of Bybit, so one can buy there and sell here. -/
theorem opportunities_of_exchanges_dear :
    crossing 3 (.client .bybit) .binance (bytes "BTCUSDT") 101 2 103 1 ∈
      (((Feeds.start.onRead ⟨parseBoth, stodBoth, FeedState.mergeSorts, 1000000⟩
          (.client .bybit) fullText).onRead
        ⟨parseBoth, stodBoth, FeedState.mergeSorts, 2000000⟩ .binance dearText)
          |>.engine.calculateArbitrage ⟨⟨id, fun _ => .rfl⟩, ⟨id, fun _ => .rfl⟩,
            ⟨id, fun _ => .rfl⟩⟩ 3).opportunities := by
  have hfull : parseBoth fullText = some fullDoc :=
    (if_neg (by decide +kernel)).trans (if_pos rfl)
  have hdear : parseBoth dearText = some dearDoc := if_pos rfl
  have hrun : Run (World.Step parseBoth stodBoth FeedState.mergeSorts) ⟨[], Feeds.start⟩
      [.message (.client .bybit) 1000000 fullText, .message .binance 2000000 dearText]
      ⟨_, _⟩ :=
    .cons (.book hfull ⟨fullBatch, rfl, carries_cheap⟩ (.cons reports_full (.nil _)))
      (.single (.book hdear ⟨dearBatch, rfl, carries_dear⟩ (.cons reports_dear (.nil _))))
  have hopportunity := opportunities_of_exchanges parseBoth stodBoth FeedState.mergeSorts _ _ hrun
    ⟨⟨id, fun _ => .rfl⟩, ⟨id, fun _ => .rfl⟩, ⟨id, fun _ => .rfl⟩⟩ 3
    (crossing 3 (.client .bybit) .binance (bytes "BTCUSDT") 101 2 103 1)
  refine (hopportunity.mpr ?_).1
  have hcheap : BestOf fullMarket .ask 101 2 := by
    refine Or.inr ⟨rfl, fun p hp => ?_⟩
    simp only [fullMarket, marketAt, Option.isSome_ite] at hp
    exact hp.ge
  have hbest : BestOf dearMarket .bid 103 1 := by
    refine Or.inr ⟨rfl, fun p hp => ?_⟩
    simp only [dearMarket, marketAt, Option.isSome_ite] at hp
    exact hp.le
  refine ⟨.client .bybit, .binance, bytes "BTCUSDT", bytes "BTCUSDT", 101, 2, 103, 1, by decide,
    rfl, ⟨⟨fullMarket, rfl, rfl, hcheap⟩, 1, rfl, by decide⟩,
    ⟨⟨dearMarket, rfl, rfl, hbest⟩, 2, rfl, by decide⟩, by norm_num, by norm_num, ?_, rfl⟩
  change (5 : ℚ) ≤ _
  norm_num

end TickPlant
