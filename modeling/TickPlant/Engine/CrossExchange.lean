/-
# Opportunities within one exchange

`calculate_arbitrage` is there to find differences between exchanges, but what it compares are
books, and it does not look at the exchanges of the two.  Two books of one exchange meet in a
group when their symbols have the same base currency, as `BTC-USD` and `BTC-USDT` do; then it
may publish to buy and to sell on the same exchange.

Whether that can happen depends only on the feeds that messages come from: it cannot if no
exchange has two books with the same base currency, and otherwise one message from each of two
such feeds is enough.
-/
import TickPlant.Engine.Books

namespace TickPlant

open ArbitrageEngine (BookId)

/-! ## A message with one level -/

/-- The level at a price, on one of the sides. -/
def oneLevel (price : ℚ) (side side' : Side) : List PriceLevel :=
  if side = side' then [⟨price, 1, 0⟩] else []

/-- A message of the feed that leaves one level in its book. -/
def Feed.quote (side : Side) (price : ℚ) : Feed → EngineCall
  | ws exchange symbol =>
    .ws ⟨symbol, exchange, 0, true, oneLevel price side .bid, oneLevel price side .ask⟩
  | fix symbol =>
    .fix ⟨.marketDataSnapshot, symbol, [⟨if side = .bid then 0 else 1, 0, price, 1⟩]⟩

lemma Feed.feed?_quote (f : Feed) (side : Side) (price : ℚ) : (f.quote side price).feed? = some f := by
  cases f <;> rfl

/-- The new book of the feed after the message. -/
lemma Feed.quote_applyTo (f : Feed) (side : Side) (price : ℚ) :
    ((f.quote side price).applyTo 0 f.newBook).getSnapshot =
      ⟨f.symbol, f.exchange, 0, true, oneLevel price side .bid, oneLevel price side .ask⟩ := by
  cases f with
  | ws exchange symbol => cases side <;> rfl
  | fix symbol =>
    cases symbol <;> cases side <;> rfl

namespace ArbitrageEngine

/-! ## When there are such opportunities -/

/-- Whatever is published from the state, at any time and in any order of the maps, is an
opportunity between two exchanges. -/
def CrossExchangeOnly (e : ArbitrageEngine) : Prop :=
  ∀ orders nowMs, ∀ o ∈ (e.calculateArbitrage orders nowMs).opportunities,
    o.buyExchange ≠ o.sellExchange

/-- No exchange has two books with the same base currency. -/
def OneBookPerBase (S : Set Feed) : Prop :=
  ∀ f ∈ S, ∀ g ∈ S, f.exchange = g.exchange → f.base = g.base → f.id = g.id

/-- There is an entry for every book. -/
lemma isSome_entryOf (e : ArbitrageEngine) (id : BookId) :
    (e.entryOf id).isSome = (e.bookOf id).isSome := by
  cases id <;> exact Option.isSome_map

/-- What is published is an opportunity between two books. -/
lemma mem_opportunities {orders : MapOrders} {nowMs : ℕ} {e : ArbitrageEngine}
    {o : ArbitrageOpportunity} :
    o ∈ (e.calculateArbitrage orders nowMs).opportunities ↔
      ∃ buy ∈ e.bookIds, ∃ sell ∈ e.bookIds, buy ≠ sell ∧
        opportunityBetween nowMs e buy sell = some o := by
  rw [← Multiset.mem_coe, opportunities_eq_pairs, Multiset.mem_filterMap, comparedPairs_eq]
  constructor
  · rintro ⟨⟨buy, sell⟩, hmem, ho⟩
    obtain ⟨hpair, hlive, hlive', hbase⟩ := Finset.mem_filter.mp (Finset.mem_val.mp hmem)
    obtain ⟨hbuy, hsell, hne⟩ := Finset.mem_offDiag.mp hpair
    refine ⟨buy, hbuy, sell, hsell, hne, ?_⟩
    rw [← direction_eq hlive hlive' hbase]
    exact ho
  · rintro ⟨buy, hbuy, sell, hsell, hne, ho⟩
    have hlive : e.IsLive nowMs buy ∧ e.IsLive nowMs sell ∧ e.baseOf buy = e.baseOf sell := by
      by_contra hnot
      rw [opportunityBetween_eq_none hnot] at ho
      cases ho
    have hpair : (buy, sell) ∈ e.bookIds.offDiag := Finset.mem_offDiag.mpr ⟨hbuy, hsell, hne⟩
    refine ⟨(buy, sell), Finset.mem_val.mpr (Finset.mem_filter.mpr ⟨hpair, hlive⟩), ?_⟩
    rw [direction_eq hlive.1 hlive.2.1 hlive.2.2]
    exact ho

/-- The names in an opportunity are those of its books. -/
lemma opportunityBetween_names {nowMs : ℕ} {e : ArbitrageEngine} {buy sell : BookId}
    {o : ArbitrageOpportunity} (h : opportunityBetween nowMs e buy sell = some o) :
    ∃ b s, e.entryOf buy = some b ∧ e.entryOf sell = some s ∧ o.buyExchange = b.1 ∧
      o.sellExchange = s.1 ∧ normalizeSymbol b.2.symbol = normalizeSymbol s.2.symbol := by
  obtain ⟨b, hb, h⟩ := Option.bind_eq_some_iff.mp h
  obtain ⟨s, hs, h⟩ := Option.bind_eq_some_iff.mp h
  obtain ⟨ask, _, h⟩ := Option.bind_eq_some_iff.mp h
  obtain ⟨bid, _, h⟩ := Option.bind_eq_some_iff.mp h
  dsimp only at h
  split at h
  · rename_i hcond
    rw [← Option.some.inj h]
    exact ⟨b, s, hb, hs, rfl, rfl, hcond.2.2.1⟩
  · cases h

/-- Between books of feeds with one book for each base currency there is no opportunity within
one exchange. -/
lemma BooksFrom.crossExchangeOnly {S : Set Feed} {e : ArbitrageEngine} (h : e.BooksFrom S)
    (hS : OneBookPerBase S) : e.CrossExchangeOnly := by
  intro orders nowMs o ho hsame
  obtain ⟨buy, hbuy, sell, hsell, hne, ho⟩ := mem_opportunities.mp ho
  obtain ⟨b, hb⟩ := Option.isSome_iff_exists.mp (mem_bookIds.mp hbuy)
  obtain ⟨s, hs⟩ := Option.isSome_iff_exists.mp (mem_bookIds.mp hsell)
  obtain ⟨f, hf, rfl, hfnames⟩ := h buy b hb
  obtain ⟨g, hg, rfl, hgnames⟩ := h sell s hs
  obtain ⟨x, y, hx, hy, hbuyname, hsellname, hbase⟩ := opportunityBetween_names ho
  rw [entryOf_eq hb hfnames] at hx
  rw [entryOf_eq hs hgnames] at hy
  obtain rfl := Option.some.inj hx
  obtain rfl := Option.some.inj hy
  refine hne (hS f hf g hg ?_ ?_)
  · rw [← show o.buyExchange = f.exchange from hbuyname,
      ← show o.sellExchange = g.exchange from hsellname, hsame]
  · rwa [Feed.base, Feed.base, ← hfnames.2, ← hgnames.2]

/-- A call does not change the smallest profit. -/
lemma minProfitBps_apply (nowNs : ℕ) (e : ArbitrageEngine) (c : EngineCall) :
    (e.apply nowNs c).minProfitBps = e.minProfitBps := by
  cases c with
  | ws snap => rfl
  | fix msg =>
    rw [apply, updateFixData]
    split <;> rfl

/-- The entry of a feed that has sent one level. -/
lemma entryOf_apply_quote {e : ArbitrageEngine} {f : Feed} (hnew : e.bookOf f.id = none)
    (side : Side) (price : ℚ) :
    (e.apply 0 (f.quote side price)).entryOf f.id = some (f.exchange,
      ⟨f.symbol, f.exchange, 0, true, oneLevel price side .bid, oneLevel price side .ask⟩) := by
  have hbook : (e.apply 0 (f.quote side price)).bookOf f.id =
      some ((f.quote side price).applyTo 0 f.newBook) := by
    rw [bookOf_apply 0 e (f.feed?_quote side price), if_pos rfl, hnew]
    rfl
  have hsnap := f.quote_applyTo side price
  rw [entryOf_eq hbook ⟨congrArg (·.exchange) hsnap, congrArg (·.symbol) hsnap⟩, hsnap]

/-- A call of another feed leaves the entry as it is. -/
lemma entryOf_apply_of_ne {e : ArbitrageEngine} {c : EngineCall} {f : Feed} (hc : c.feed? = some f)
    {id : BookId} (hid : id ≠ f.id) (nowNs : ℕ) : (e.apply nowNs c).entryOf id = e.entryOf id := by
  have hbook : (e.apply nowNs c).bookOf id = e.bookOf id := by
    rw [bookOf_apply nowNs e hc, if_neg hid]
  cases id with
  | ws key => exact congrArg (Option.map _) hbook
  | fix symbol => exact congrArg (Option.map _) hbook

/-- Two feeds of one exchange with the same base currency: an ask on one book and a bid above it
on the other. -/
lemma exists_opportunity_within {e : ArbitrageEngine} (hnew : ∀ id, e.bookOf id = none)
    {f g : Feed} (hexchange : f.exchange = g.exchange) (hbase : f.base = g.base)
    (hid : f.id ≠ g.id) :
    ¬ CrossExchangeOnly (e.runCalls
      [(0, f.quote .ask 1), (0, g.quote .bid (2 + |e.minProfitBps|))]) := by
  set bid := 2 + |e.minProfitBps| with hbid
  set e₁ := e.apply 0 (f.quote .ask 1) with he₁
  set e₂ := e₁.apply 0 (g.quote .bid bid) with he₂
  have hg₁ : e₁.bookOf g.id = none := by
    rw [he₁, bookOf_apply 0 e (f.feed?_quote .ask 1), if_neg hid.symm, hnew]
  have hbuy : e₂.entryOf f.id =
      some (f.exchange, ⟨f.symbol, f.exchange, 0, true, [], [⟨1, 1, 0⟩]⟩) := by
    rw [he₂, entryOf_apply_of_ne (g.feed?_quote .bid bid) hid]
    exact entryOf_apply_quote (hnew f.id) .ask 1
  have hsell : e₂.entryOf g.id =
      some (g.exchange, ⟨g.symbol, g.exchange, 0, true, [⟨bid, 1, 0⟩], []⟩) :=
    entryOf_apply_quote hg₁ .bid bid
  have hmin : e₂.minProfitBps = e.minProfitBps := by
    rw [he₂, minProfitBps_apply, he₁, minProfitBps_apply]
  have habs := le_abs_self e.minProfitBps
  have hpos := abs_nonneg e.minProfitBps
  have hopp : opportunityBetween 0 e₂ f.id g.id = some
      { symbol := f.base, buyExchange := f.exchange, sellExchange := g.exchange, buyPrice := 1
        sellPrice := bid, profitBps := (bid - 1) / 1 * 10000, maxQuantity := min 1 1
        timestampMs := 0 } := by
    rw [opportunityBetween, hbuy, hsell]
    refine if_pos ⟨⟨rfl, Nat.zero_le 500⟩, ⟨rfl, Nat.zero_le 500⟩, hbase, one_pos, ?_, ?_, ?_⟩
    · show (1 : ℚ) < bid
      linarith
    · show e₂.minProfitBps ≤ (bid - 1) / 1 * 10000
      rw [hmin]
      linarith
    · show (0 : ℚ) < min 1 1
      simp
  have hmem : ∀ id x, e₂.entryOf id = some x → id ∈ e₂.bookIds := by
    intro id x hx
    rw [mem_bookIds, ← isSome_entryOf, hx]
    rfl
  intro honly
  have hne := honly ⟨.entries, .entries, .entries⟩ 0 _
    (mem_opportunities.mpr ⟨f.id, hmem f.id _ hbuy, g.id, hmem g.id _ hsell, hid, hopp⟩)
  exact hne hexchange

/-- **When opportunities are between exchanges.**  Whatever messages come from a set of feeds, what
is published names two exchanges, exactly if no exchange has two books with the same base
currency among them. -/
theorem crossExchangeOnly_iff (tickLogger : Bool) (minProfitBps : ℚ) (S : Set Feed) :
    (∀ calls : List (ℕ × EngineCall), (∀ c ∈ calls, ∀ f ∈ c.2.feed?, f ∈ S) →
      CrossExchangeOnly
        ({ new tickLogger with minProfitBps := minProfitBps }.runCalls calls)) ↔
    OneBookPerBase S := by
  have hnew : ∀ id,
      { new tickLogger with minProfitBps := minProfitBps }.bookOf id = none := bookOf_new tickLogger
  constructor
  · intro h f hf g hg hexchange hbase
    by_contra hid
    refine exists_opportunity_within hnew hexchange hbase hid (h _ ?_)
    intro c hc f' hf'
    rcases List.mem_pair.mp hc with rfl | rfl
    · rw [Feed.feed?_quote] at hf'
      rwa [← Option.some.inj hf']
    · rw [Feed.feed?_quote] at hf'
      rwa [← Option.some.inj hf']
  · intro hS calls hcalls
    exact ((booksFrom_of_none hnew).runCalls hcalls).crossExchangeOnly hS

/-- Coinbase has an ask at 64000 for `BTC-USD` and a bid at 64100 for `BTC-USDT`. -/
theorem coinbase_against_itself :
    ¬ ∀ calls : List (ℕ × EngineCall), CrossExchangeOnly ((new true).runCalls calls) := by
  intro hclaim
  have honly := hclaim
    [(0, .ws ⟨bytes "BTC-USD", bytes "Coinbase", 0, true, [], [⟨64000, 1, 0⟩]⟩),
      (0, .ws ⟨bytes "BTC-USDT", bytes "Coinbase", 0, true, [⟨64100, 1, 0⟩], []⟩)]
  have hpublished := honly ⟨.entries, .entries, .entries⟩ 0
  revert hpublished
  decide +kernel

end ArbitrageEngine

end TickPlant
