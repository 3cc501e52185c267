/-
# The order in which the feeds come in

The clients of the exchanges and the FIX feed call the engine from threads of their own, so the
calls come in some interleaving.  Every book is changed by the calls of its own feed only.  Two
interleavings with the same calls for every book therefore leave the same books, and what the
engine says of them, its opportunities, its snapshots and its staleness figures, is the same.
-/
import TickPlant.Engine.CrossExchange
import TickPlant.Lib.Components
import TickPlant.Report.Freshness

namespace TickPlant.ArbitrageEngine

open Lib

/-- The book that a call is for. -/
def bookCalled (c : ℕ × EngineCall) : Option BookId := c.2.feed?.map Feed.id

/-- The first call of a book creates it. -/
def callBook (book : Option OrderBook) (c : ℕ × EngineCall) : Option OrderBook :=
  match c.2.feed? with
  | some f => some (c.2.applyTo c.1 (book.getD f.newBook))
  | none => book

lemma componentwise :
    Componentwise (fun (e : ArbitrageEngine) (c : ℕ × EngineCall) => e.apply c.1 c.2)
      (fun id e => e.bookOf id) bookCalled (fun _ => callBook) where
  get_apply e c id := by
    cases hf : c.2.feed? with
    | none =>
      rw [apply_of_feed?_none c.1 e hf, bookCalled, hf]
      simp
    | some f =>
      rw [bookOf_apply c.1 e hf, bookCalled, callBook, hf]
      by_cases hid : id = f.id
      · simp [hid]
      · simp [hid, Ne.symm hid]

/-- The entry that is compared for a book. -/
lemma entryOf_eq_map (e : ArbitrageEngine) (id : BookId) :
    e.entryOf id = (e.bookOf id).map fun b =>
      (match id with
        | .ws _ => b.exchange
        | .fix _ => bytes "FIX", b.getSnapshot) := by
  cases id <;> rfl

/-- Two engines with the same books, but for the order of their tables. -/
structure SameBooks (e e' : ArbitrageEngine) : Prop where
  book : ∀ id, e.bookOf id = e'.bookOf id
  minProfitBps : e.minProfitBps = e'.minProfitBps

namespace SameBooks

variable {e e' : ArbitrageEngine}

lemma bookIds (h : SameBooks e e') : e.bookIds = e'.bookIds := by
  ext id
  rw [mem_bookIds, mem_bookIds, h.book]

lemma entryOf (h : SameBooks e e') (id : BookId) : e.entryOf id = e'.entryOf id := by
  rw [entryOf_eq_map, entryOf_eq_map, h.book]

lemma entries_perm {m m' : BookMap} (h : ∀ k, m.lookup k = m'.lookup k) :
    m.entries.Perm m'.entries :=
  List.lookup_ext m.nodupKeys m'.nodupKeys fun k b => by
    show b ∈ m.lookup k ↔ b ∈ m'.lookup k
    rw [h]

/-- The same opportunities are published, whatever order the tables are read in. -/
lemma opportunities (h : SameBooks e e') (orders orders' : MapOrders) (nowMs : ℕ) :
    ((e.calculateArbitrage orders nowMs).opportunities : Multiset ArbitrageOpportunity) =
      (e'.calculateArbitrage orders' nowMs).opportunities := by
  have hentry : e.entryD = e'.entryD := funext fun id => by rw [entryD, entryD, h.entryOf]
  have hbase : e.baseOf = e'.baseOf := funext fun id => by rw [baseOf, baseOf, hentry]
  have hlive : ∀ id, e.IsLive nowMs id ↔ e'.IsLive nowMs id := fun id => by
    rw [IsLive, IsLive, h.entryOf]
  rw [opportunities_eq_pairs, opportunities_eq_pairs, comparedPairs_eq, comparedPairs_eq, h.bookIds,
    hentry, hbase, h.minProfitBps]
  simp only [hlive]

/-- The same snapshots are served. -/
lemma getSnapshots (h : SameBooks e e')
    (ws fix ws' fix' : IterationOrder (Σ _ : Bytes, OrderBook)) (c : Bytes) :
    (e.getSnapshots ws fix c).Perm (e'.getSnapshots ws' fix' c) := by
  have hws : (ws.visit e.wsBooks.entries).Perm (ws'.visit e'.wsBooks.entries) :=
    ((ws.perm _).trans (entries_perm fun k => h.book (.ws k))).trans (ws'.perm _).symm
  have hfix : (fix.visit e.fixBooks.entries).Perm (fix'.visit e'.fixBooks.entries) :=
    ((fix.perm _).trans (entries_perm fun k => h.book (.fix k))).trans (fix'.perm _).symm
  exact (((hws.filter _).append (hfix.filter _)).map _).filter _

/-- The same staleness is reported for each of the five feeds. -/
lemma getFeedStalenessMs_of_mem (h : SameBooks e e')
    (ws fix ws' fix' : IterationOrder (Σ _ : Bytes, OrderBook)) (nowMs : ℕ) {ex : Bytes}
    (hex : ex ∈ feeds) : (e.getFeedStalenessMs ws fix nowMs).lookup ex =
      (e'.getFeedStalenessMs ws' fix' nowMs).lookup ex := by
  have hages : e.agesOf nowMs ex = e'.agesOf nowMs ex := by
    simp only [agesOf, h.book]
  obtain ⟨ms, hms, hleast⟩ : ∃ ms, (e.getFeedStalenessMs ws fix nowMs).lookup ex = some ms ∧
      IsLeast (insert uint64Max (e.agesOf nowMs ex)) ms := lookup_getFeedStalenessMs hex
  obtain ⟨ms', hms', hleast'⟩ : ∃ ms, (e'.getFeedStalenessMs ws' fix' nowMs).lookup ex = some ms ∧
      IsLeast (insert uint64Max (e'.agesOf nowMs ex)) ms := lookup_getFeedStalenessMs hex
  rw [hages] at hleast
  rw [hms, hms', hleast.unique hleast']

/-- The same staleness is reported under every name. -/
lemma getFeedStalenessMs (h : SameBooks e e')
    (ws fix ws' fix' : IterationOrder (Σ _ : Bytes, OrderBook)) (nowMs : ℕ) (ex : Bytes) :
    (e.getFeedStalenessMs ws fix nowMs).lookup ex =
      (e'.getFeedStalenessMs ws' fix' nowMs).lookup ex := by
  by_cases hex : ex ∈ feeds
  · exact h.getFeedStalenessMs_of_mem ws fix ws' fix' nowMs hex
  · have hnear := lookup_getFeedStalenessMs_of_notMem e ws fix nowMs hex
    have hfar := lookup_getFeedStalenessMs_of_notMem e' ws' fix' nowMs hex
    simp only [h.book] at hnear
    rcases hnear with ⟨hnear, hsome⟩ | ⟨hnear, hnone⟩
    · rw [hnear, (hfar.resolve_right fun hf => hf.2 hsome).1]
    · rw [hnear, (hfar.resolve_left fun hf => hnone hf.2).1]

end SameBooks

lemma minProfitBps_runCalls (e : ArbitrageEngine) (calls : List (ℕ × EngineCall)) :
    (e.runCalls calls).minProfitBps = e.minProfitBps := by
  induction calls generalizing e with
  | nil => rfl
  | cons c calls ih => exact (ih (e.apply c.1 c.2)).trans (minProfitBps_apply _ _ _)

/-- **The interleaving of the feeds does not show.**  If two sequences of calls of the engine, each
with its clock reading, have the same calls for every book in the same order, then they leave the
same books, the same opportunities are published, the same snapshots are served and the same
staleness is reported. -/
theorem interleaving_does_not_show (e : ArbitrageEngine) (calls calls' : List (ℕ × EngineCall))
    (hcalls : SameCalls bookCalled calls calls') :
    (∀ id, (e.runCalls calls).bookOf id = (e.runCalls calls').bookOf id) ∧
      (∀ orders orders' nowMs,
        (((e.runCalls calls).calculateArbitrage orders nowMs).opportunities :
            Multiset ArbitrageOpportunity) =
          ((e.runCalls calls').calculateArbitrage orders' nowMs).opportunities) ∧
      (∀ ws fix ws' fix' c, ((e.runCalls calls).getSnapshots ws fix c).Perm
        ((e.runCalls calls').getSnapshots ws' fix' c)) ∧
      ∀ ws fix ws' fix' nowMs ex,
        ((e.runCalls calls).getFeedStalenessMs ws fix nowMs).lookup ex =
          ((e.runCalls calls').getFeedStalenessMs ws' fix' nowMs).lookup ex := by
  have h : SameBooks (e.runCalls calls) (e.runCalls calls') :=
    ⟨componentwise.get_foldl_congr hcalls e, by
      rw [minProfitBps_runCalls, minProfitBps_runCalls]⟩
  exact ⟨h.book, h.opportunities, h.getSnapshots, h.getFeedStalenessMs⟩

/-- A quote of Binance and one of Kraken, in either order. -/
theorem interleaving_does_not_show_twoFeeds :
    let binance : ℕ × EngineCall := (1, (Feed.ws (bytes "Binance") (bytes "BTCUSDT")).quote .ask 100)
    let kraken : ℕ × EngineCall := (2, (Feed.ws (bytes "Kraken") (bytes "BTC/USD")).quote .bid 101)
    ∀ id, ((new true).runCalls [binance, kraken]).bookOf id =
      ((new true).runCalls [kraken, binance]).bookOf id := by
  intro binance kraken
  exact (interleaving_does_not_show (new true) _ _
    (sameCalls_swap (by decide +kernel) [] [])).1

end TickPlant.ArbitrageEngine
