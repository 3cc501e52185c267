/-
# The arbitrage calculation

`calculate_arbitrage` copies every non-empty book, drops the stale copies, groups the rest
by base currency and compares every two entries of a group in both directions.  The order
in which the hash maps are traversed is not determined by their contents; it is a parameter
of the model, an arbitrary rearrangement for each of the three maps.  The metrics and the
opportunity callback only receive what is computed here and are not represented.

What is published can be said with no reference to the loops: one opportunity for each ordered
pair of distinct live books that trade the same base currency at a profit.
-/
import TickPlant.Engine.Store
import TickPlant.Lib.Grouping

namespace TickPlant

open Lib

/-- An order of iteration: an arbitrary rearrangement of the entries of a hash map. -/
structure IterationOrder (α : Type*) where
  visit : List α → List α
  perm : ∀ l, (visit l).Perm l

/-- The order in which the entries are stored. -/
def IterationOrder.entries {α : Type*} : IterationOrder α := ⟨id, fun _ => .rfl⟩

/-- A copy of a book with the name of the exchange it is compared under. -/
abbrev BookEntry := Bytes × OrderBookSnapshot

namespace ArbitrageEngine

/-! ## The code -/

/-- `staleness_ms`; a timestamp in the future counts as fresh. -/
def stalenessMs (nowMs : ℕ) (snap : OrderBookSnapshot) : ℕ :=
  if snap.timestampMs > nowMs then 0 else nowMs - snap.timestampMs

/-- `staleness_limit_ms`, the same for every exchange. -/
def stalenessLimitMs (_exchange : Bytes) : ℕ := 500

/-- The copies of the non-empty books of a map, in its order of iteration. -/
def collectSnapshots (order : IterationOrder (Σ _ : Bytes, OrderBook)) (books : BookMap) :
    List OrderBookSnapshot :=
  ((order.visit books.entries).map fun entry => entry.2.getSnapshot).filter fun snap =>
    !snap.isEmpty

/-- One turn of the bucketing loops: `by_symbol[norm].emplace_back(exchange, snap)`. -/
def addEntry (nowMs : ℕ) (bySymbol : AList fun _ : Bytes => List BookEntry) (entry : BookEntry) :
    AList fun _ : Bytes => List BookEntry :=
  if stalenessMs nowMs entry.2 > stalenessLimitMs entry.1 then bySymbol
  else pushBucket bySymbol (normalizeSymbol entry.2.symbol) entry

/-- One direction of a comparison: buy from the first entry at its ask, sell to the second
at its bid. -/
def direction (minProfitBps : ℚ) (nowMs : ℕ) (normSym : Bytes) (buy sell : BookEntry) :
    Option ArbitrageOpportunity :=
  match buy.2.asks, sell.2.bids with
  | topAsk :: _, topBid :: _ =>
    let ask := buy.2.bestAsk
    let bid := sell.2.bestBid
    if bid > ask ∧ ask > 0 then
      let profitBps := (bid - ask) / ask * 10000
      let qty := min topAsk.quantity topBid.quantity
      if profitBps ≥ minProfitBps ∧ qty > 0 then
        some
          { symbol := normSym
            buyExchange := buy.1
            sellExchange := sell.1
            buyPrice := ask
            sellPrice := bid
            profitBps := profitBps
            maxQuantity := qty
            timestampMs := nowMs }
      else none
    else none
  | _, _ => none

/-- The double loop over the positions `i < j` of one group. -/
def pairLoop (minProfitBps : ℚ) (nowMs : ℕ) (normSym : Bytes) :
    List BookEntry → List ArbitrageOpportunity
  | [] => []
  | entry1 :: entries =>
    (entries.flatMap fun entry2 =>
      (direction minProfitBps nowMs normSym entry1 entry2).toList ++
        (direction minProfitBps nowMs normSym entry2 entry1).toList) ++
      pairLoop minProfitBps nowMs normSym entries

/-- The opportunities of one group. -/
def compareGroup (minProfitBps : ℚ) (nowMs : ℕ) (group : Σ _ : Bytes, List BookEntry) :
    List ArbitrageOpportunity :=
  if group.2.length < 2 then [] else pairLoop minProfitBps nowMs group.1 group.2

/-- The orders in which one calculation traverses its three maps. -/
structure MapOrders where
  ws : IterationOrder (Σ _ : Bytes, OrderBook)
  fix : IterationOrder (Σ _ : Bytes, OrderBook)
  bySymbol : IterationOrder (Σ _ : Bytes, List BookEntry)

/-- `ArbitrageEngine::calculate_arbitrage`. -/
def calculateArbitrage (orders : MapOrders) (nowMs : ℕ) (e : ArbitrageEngine) :
    ArbitrageEngine :=
  let wsSnaps := collectSnapshots orders.ws e.wsBooks
  let bySymbol := (wsSnaps.map fun snap => (snap.exchange, snap)).foldl (addEntry nowMs) ∅
  let fixSnaps := collectSnapshots orders.fix e.fixBooks
  let bySymbol := (fixSnaps.map fun snap => (bytes "FIX", snap)).foldl (addEntry nowMs) bySymbol
  let newOpportunities :=
    (orders.bySymbol.visit bySymbol.entries).flatMap (compareGroup e.minProfitBps nowMs)
  { e with
    opportunities := newOpportunities
    calculationCount := e.calculationCount + 1
    opportunityCount := e.opportunityCount + newOpportunities.length }

/-! ## What it is for -/

/-- The name of a book: a key of one of the two maps. -/
inductive BookId
  | ws (key : Bytes)
  | fix (symbol : Bytes)
deriving DecidableEq

/-- The books of the engine. -/
def bookIds (e : ArbitrageEngine) : Finset BookId :=
  (e.wsBooks.keys.map BookId.ws ++ e.fixBooks.keys.map BookId.fix).toFinset

/-- A book's contents, with the exchange it is traded on. -/
def entryOf (e : ArbitrageEngine) : BookId → Option BookEntry
  | .ws key => (e.wsBooks.lookup key).map fun book => (book.exchange, book.getSnapshot)
  | .fix symbol => (e.fixBooks.lookup symbol).map fun book => (bytes "FIX", book.getSnapshot)

/-- A book takes part in the calculation when it is not empty and at most 500 ms old. -/
def Live (nowMs : ℕ) (entry : BookEntry) : Prop :=
  entry.2.isEmpty = false ∧ nowMs - entry.2.timestampMs ≤ 500

instance (nowMs : ℕ) (entry : BookEntry) : Decidable (Live nowMs entry) :=
  inferInstanceAs (Decidable (_ ∧ _))

/-- The opportunity to buy on one book and sell on another, if there is one: both books are
live and trade the same base currency, there is an ask to buy at and a bid to sell at, the
bid is above the ask, and both the profit and the quantity are large enough. -/
def opportunityBetween (nowMs : ℕ) (e : ArbitrageEngine) (buy sell : BookId) :
    Option ArbitrageOpportunity := do
  let b ← e.entryOf buy
  let s ← e.entryOf sell
  let ask ← b.2.asks.head?
  let bid ← s.2.bids.head?
  let profitBps := (bid.price - ask.price) / ask.price * 10000
  if Live nowMs b ∧ Live nowMs s ∧ normalizeSymbol b.2.symbol = normalizeSymbol s.2.symbol ∧
      0 < ask.price ∧ ask.price < bid.price ∧ e.minProfitBps ≤ profitBps ∧
      0 < min ask.quantity bid.quantity then
    some
      { symbol := normalizeSymbol b.2.symbol
        buyExchange := b.1
        sellExchange := s.1
        buyPrice := ask.price
        sellPrice := bid.price
        profitBps := profitBps
        maxQuantity := min ask.quantity bid.quantity
        timestampMs := nowMs }
  else none

/-! ## The loops -/

/-- The double loop visits the pairs of its group. -/
lemma pairLoop_eq (minBps : ℚ) (nowMs : ℕ) (s : Bytes) (entries : List BookEntry) :
    pairLoop minBps nowMs s entries =
      (pairs entries).filterMap fun p => direction minBps nowMs s p.1 p.2 := by
  induction entries with
  | nil => rfl
  | cons x xs ih =>
    rw [pairLoop, pairs, ih, List.filterMap_append, List.filterMap_flatMap]
    congr 1
    refine congrArg xs.flatMap (funext fun y => ?_)
    cases h : direction minBps nowMs s x y <;> cases h' : direction minBps nowMs s y x <;>
      simp [h, h']

/-- The test for two entries only skips groups that have no pairs. -/
lemma compareGroup_eq (minBps : ℚ) (nowMs : ℕ) (s : Bytes) (entries : List BookEntry) :
    compareGroup minBps nowMs ⟨s, entries⟩ =
      (pairs entries).filterMap fun p => direction minBps nowMs s p.1 p.2 := by
  rw [compareGroup]
  split
  · match entries with
    | [] => rfl
    | [_] => rfl
    | _ :: _ :: _ => simp at *
  · exact pairLoop_eq ..

/-- The bucketing loops put the fresh entries in the buckets of their base currencies. -/
lemma foldl_addEntry (nowMs : ℕ) (entries : List BookEntry)
    (m : AList fun _ : Bytes => List BookEntry) :
    entries.foldl (addEntry nowMs) m =
      (entries.filter fun x => decide (nowMs - x.2.timestampMs ≤ 500)).foldl
        (fun m x => pushBucket m (normalizeSymbol x.2.symbol) x) m := by
  induction entries generalizing m with
  | nil => rfl
  | cons x xs ih =>
    -- the code subtracts only when the timestamp is in the past, as truncated subtraction does
    have hstale : stalenessMs nowMs x.2 > stalenessLimitMs x.1 ↔
        ¬ nowMs - x.2.timestampMs ≤ 500 := by
      rw [stalenessMs, stalenessLimitMs]
      split <;> omega
    rw [List.foldl_cons, ih, addEntry, List.filter_cons]
    by_cases h : nowMs - x.2.timestampMs ≤ 500
    · simp [hstale, h]
    · simp [hstale, h]

/-! ## From entries to books -/

/-- The book exists and takes part in the calculation. -/
def IsLive (nowMs : ℕ) (e : ArbitrageEngine) (id : BookId) : Prop :=
  ∃ x ∈ e.entryOf id, Live nowMs x

instance (nowMs : ℕ) (e : ArbitrageEngine) (id : BookId) : Decidable (e.IsLive nowMs id) :=
  inferInstanceAs (Decidable (∃ x ∈ e.entryOf id, Live nowMs x))

/-- The contents of a book, where it exists. -/
def entryD (e : ArbitrageEngine) (id : BookId) : BookEntry :=
  (e.entryOf id).getD ([], ⟨[], [], 0, true, [], []⟩)

lemma entryD_of_entryOf {e : ArbitrageEngine} {id : BookId} {x : BookEntry}
    (h : e.entryOf id = some x) : e.entryD id = x := by
  rw [entryD, h]; rfl

/-- The base currency that a book trades. -/
def baseOf (e : ArbitrageEngine) (id : BookId) : Bytes := normalizeSymbol (e.entryD id).2.symbol

lemma isLive_iff {nowMs : ℕ} {e : ArbitrageEngine} {id : BookId} {x : BookEntry}
    (h : e.entryOf id = some x) : e.IsLive nowMs id ↔ Live nowMs x := by
  simp [IsLive, h]

/-- The names of all books, in the order of a scan of the two maps. -/
def scannedIds (wsOrder fixOrder : IterationOrder (Σ _ : Bytes, OrderBook)) (e : ArbitrageEngine) :
    List BookId :=
  (wsOrder.visit e.wsBooks.entries).map (fun x => BookId.ws x.1) ++
    (fixOrder.visit e.fixBooks.entries).map fun x => BookId.fix x.1

/-- A scan meets each book once. -/
lemma nodup_scannedIds (wsOrder fixOrder : IterationOrder (Σ _ : Bytes, OrderBook))
    (e : ArbitrageEngine) : (e.scannedIds wsOrder fixOrder).Nodup := by
  have hkeys : ∀ (order : IterationOrder (Σ _ : Bytes, OrderBook)) (books : BookMap),
      ((order.visit books.entries).map Sigma.fst).Nodup := by
    intro order books
    exact ((order.perm books.entries).map Sigma.fst).nodup_iff.mpr books.nodupKeys
  have hws := (hkeys wsOrder e.wsBooks).map (f := BookId.ws) fun _ _ h => BookId.ws.inj h
  have hfix := (hkeys fixOrder e.fixBooks).map (f := BookId.fix) fun _ _ h => BookId.fix.inj h
  rw [List.map_map] at hws hfix
  refine List.Nodup.append hws hfix ?_
  intro id h h'
  obtain ⟨x, -, rfl⟩ := List.mem_map.mp h
  obtain ⟨y, -, hy⟩ := List.mem_map.mp h'
  exact absurd hy (by simp)

/-- A scan meets all books. -/
lemma mem_scannedIds {wsOrder fixOrder : IterationOrder (Σ _ : Bytes, OrderBook)}
    {e : ArbitrageEngine} {id : BookId} : id ∈ e.scannedIds wsOrder fixOrder ↔ id ∈ e.bookIds := by
  have hperm : ∀ (order : IterationOrder (Σ _ : Bytes, OrderBook)) (books : BookMap) (k : Bytes),
      (∃ x ∈ order.visit books.entries, x.1 = k) ↔ k ∈ books.keys := by
    intro order books k
    rw [AList.keys, List.keys, List.mem_map]
    simp only [(order.perm books.entries).mem_iff]
  rw [scannedIds]
  simp only [bookIds, List.mem_toFinset, List.mem_append, List.mem_map]
  cases id with
  | ws k => simp only [BookId.ws.injEq, reduceCtorEq, and_false, exists_false, or_false, hperm,
      exists_eq_right]
  | fix k => simp only [BookId.fix.injEq, reduceCtorEq, and_false, exists_false, false_or, hperm,
      exists_eq_right]

/-- The names of the live books, in the order in which a calculation meets them. -/
def visitedIds (orders : MapOrders) (nowMs : ℕ) (e : ArbitrageEngine) : List BookId :=
  ((orders.ws.visit e.wsBooks.entries).map (fun x => BookId.ws x.1) ++
    (orders.fix.visit e.fixBooks.entries).map (fun x => BookId.fix x.1)).filter fun id =>
      decide (e.IsLive nowMs id)

/-- The loops over one map, from the names of its books. -/
lemma entries_of_map {e : ArbitrageEngine} {nowMs : ℕ} (mk : Bytes → BookId)
    (label : OrderBookSnapshot → Bytes) (books : List (Σ _ : Bytes, OrderBook))
    (hbooks : ∀ x ∈ books,
      e.entryOf (mk x.1) = some (label x.2.getSnapshot, x.2.getSnapshot)) :
    ((((books.map fun x => x.2.getSnapshot).filter fun snap => !snap.isEmpty).map
        fun snap => (label snap, snap)).filter
          fun x : BookEntry => decide (nowMs - x.2.timestampMs ≤ 500)) =
      ((books.map fun x => mk x.1).filter fun id => decide (e.IsLive nowMs id)).map
        e.entryD := by
  induction books with
  | nil => rfl
  | cons x xs ih =>
    have hx := hbooks x List.mem_cons_self
    have ih := ih fun y hy => hbooks y (List.mem_cons_of_mem _ hy)
    simp only [List.map_cons, List.filter_cons, isLive_iff hx, Live]
    by_cases hempty : x.2.getSnapshot.isEmpty = true
    · simp only [hempty, Bool.not_true, Bool.false_eq_true, if_false, Bool.true_eq_false,
        false_and, decide_false, ih]
    · by_cases hfresh : nowMs - x.2.getSnapshot.timestampMs ≤ 500
      · simp only [hempty, hfresh, Bool.not_false, if_true, List.map_cons, List.filter_cons,
          decide_true, and_self, entryD_of_entryOf hx, ih]
      · simp only [hempty, hfresh, Bool.not_false, if_true, List.map_cons, List.filter_cons,
          decide_false, and_false, Bool.false_eq_true, if_false, ih]

lemma lookup_of_visit {order : IterationOrder (Σ _ : Bytes, OrderBook)} {books : BookMap}
    {x : Σ _ : Bytes, OrderBook} (h : x ∈ order.visit books.entries) :
    books.lookup x.1 = some x.2 :=
  AList.mem_lookup_iff.mpr ((order.perm _).mem_iff.mp h)

/-- The buckets of a calculation are those of the live books. -/
lemma bySymbol_eq (orders : MapOrders) (nowMs : ℕ) (e : ArbitrageEngine) :
    ((collectSnapshots orders.fix e.fixBooks).map fun snap => (bytes "FIX", snap)).foldl
        (addEntry nowMs)
        (((collectSnapshots orders.ws e.wsBooks).map fun snap => (snap.exchange, snap)).foldl
          (addEntry nowMs) ∅) =
      buckets (fun x : BookEntry => normalizeSymbol x.2.symbol)
        ((e.visitedIds orders nowMs).map e.entryD) := by
  rw [foldl_addEntry, foldl_addEntry, ← List.foldl_append, buckets, visitedIds,
    List.filter_append, List.map_append]
  congr 2
  · refine entries_of_map BookId.ws (fun snap => snap.exchange) _ ?_
    intro x hx
    rw [entryOf, lookup_of_visit hx]
    rfl
  · refine entries_of_map BookId.fix (fun _ => bytes "FIX") _ ?_
    intro x hx
    rw [entryOf, lookup_of_visit hx]
    rfl

/-- A calculation meets each live book once. -/
lemma nodup_visitedIds (orders : MapOrders) (nowMs : ℕ) (e : ArbitrageEngine) :
    (e.visitedIds orders nowMs).Nodup :=
  (nodup_scannedIds orders.ws orders.fix e).filter _

/-- The books a calculation meets are the live ones. -/
lemma mem_visitedIds {orders : MapOrders} {nowMs : ℕ} {e : ArbitrageEngine} {id : BookId} :
    id ∈ e.visitedIds orders nowMs ↔ id ∈ e.bookIds ∧ e.IsLive nowMs id := by
  have hscan : id ∈ e.scannedIds orders.ws orders.fix ↔ id ∈ e.bookIds := mem_scannedIds
  rw [← hscan, visitedIds, List.mem_filter, decide_eq_true_eq, scannedIds]

/-! ## What is published -/

/-- On live books the code's comparison is the opportunity between the books. -/
lemma direction_eq {nowMs : ℕ} {e : ArbitrageEngine} {buy sell : BookId}
    (hb : e.IsLive nowMs buy) (hs : e.IsLive nowMs sell)
    (hsym : e.baseOf buy = e.baseOf sell) :
    direction e.minProfitBps nowMs (e.baseOf buy) (e.entryD buy) (e.entryD sell) =
      opportunityBetween nowMs e buy sell := by
  obtain ⟨b, hbuy, hblive⟩ := hb
  obtain ⟨s, hsell, hslive⟩ := hs
  rw [Option.mem_def] at hbuy hsell
  rw [baseOf, baseOf, entryD_of_entryOf hbuy, entryD_of_entryOf hsell] at hsym
  rw [baseOf, entryD_of_entryOf hbuy, entryD_of_entryOf hsell]
  rw [opportunityBetween, hbuy, hsell, direction]
  rcases hasks : b.2.asks with _ | ⟨ask, asks⟩
  · simp [hasks]
  rcases hbids : s.2.bids with _ | ⟨bid, bids⟩
  · simp [hbids]
  simp only [OrderBookSnapshot.bestAsk, OrderBookSnapshot.bestBid, hasks, hbids, List.head?_cons,
    Option.map_some, Option.getD_some, Option.bind_eq_bind, Option.bind_some, hblive, hslive, hsym,
    true_and]
  split_ifs <;> grind

/-- There is no opportunity between books that are not both live or that trade different
base currencies. -/
lemma opportunityBetween_eq_none {nowMs : ℕ} {e : ArbitrageEngine} {buy sell : BookId}
    (h : ¬ (e.IsLive nowMs buy ∧ e.IsLive nowMs sell ∧ e.baseOf buy = e.baseOf sell)) :
    opportunityBetween nowMs e buy sell = none := by
  rw [opportunityBetween]
  rcases hbuy : e.entryOf buy with _ | b
  · rfl
  rcases hsell : e.entryOf sell with _ | s
  · rfl
  rw [isLive_iff hbuy, isLive_iff hsell, baseOf, baseOf, entryD_of_entryOf hbuy,
    entryD_of_entryOf hsell] at h
  rcases hask : b.2.asks.head? with _ | ask
  · simp [hask]
  rcases hbid : s.2.bids.head? with _ | bid
  · simp [hbid]
  simp only [Option.bind_eq_bind, Option.bind_some, hask, hbid]
  refine if_neg ?_
  rintro ⟨hb, hs, hsym, -⟩
  exact h ⟨hb, hs, hsym⟩

/-- What one bucket contributes. -/
lemma compareGroup_bucket {e : ArbitrageEngine} {nowMs : ℕ} {ids : List BookId} (h : ids.Nodup)
    (s : Bytes) :
    compareGroup e.minProfitBps nowMs
        ⟨s, (ids.map e.entryD).filter fun x => decide (normalizeSymbol x.2.symbol = s)⟩ =
      (pairs (ids.filter fun id => decide (e.baseOf id = s))).filterMap fun p =>
        direction e.minProfitBps nowMs (e.baseOf p.1) (e.entryD p.1) (e.entryD p.2) := by
  rw [compareGroup_eq, List.filter_map, pairs_map, List.filterMap_map]
  refine List.filterMap_congr ?_
  intro p hp
  have hmem := ((mem_pairs (h.filter _)).mp hp).1
  have hbase : e.baseOf p.1 = s := by
    simpa [baseOf] using (List.mem_filter.mp hmem).2
  rw [hbase]
  rfl

/-- The calculation compares the pairs of live books that trade the same base currency. -/
lemma opportunities_eq_pairs (orders : MapOrders) (nowMs : ℕ) (e : ArbitrageEngine) :
    ((e.calculateArbitrage orders nowMs).opportunities : Multiset ArbitrageOpportunity) =
      ((e.visitedIds orders nowMs).toFinset.offDiag.filter fun p =>
        e.baseOf p.1 = e.baseOf p.2).val.filterMap fun p =>
          direction e.minProfitBps nowMs (e.baseOf p.1) (e.entryD p.1) (e.entryD p.2) := by
  have hnodup := nodup_visitedIds orders nowMs e
  set ids := e.visitedIds orders nowMs
  set bySymbol := buckets (fun x : BookEntry => normalizeSymbol x.2.symbol) (ids.map e.entryD)
    with hby
  have hkeys : ∀ id ∈ ids, e.baseOf id ∈ bySymbol.keys := fun id hid =>
    mem_keys_buckets (k := fun x : BookEntry => normalizeSymbol x.2.symbol)
      (List.mem_map_of_mem (f := e.entryD) hid)
  have hopps : (e.calculateArbitrage orders nowMs).opportunities =
      (orders.bySymbol.visit bySymbol.entries).flatMap (compareGroup e.minProfitBps nowMs) := by
    rw [hby, ← bySymbol_eq]
    rfl
  -- first forget the order of the buckets, then read each bucket as a list of pairs of books
  calc ((e.calculateArbitrage orders nowMs).opportunities : Multiset ArbitrageOpportunity)
      = ((bySymbol.entries.flatMap (compareGroup e.minProfitBps nowMs) :
          List ArbitrageOpportunity) : Multiset ArbitrageOpportunity) := by
        rw [hopps]
        exact Multiset.coe_eq_coe.mpr ((orders.bySymbol.perm _).flatMap_right _)
    _ = ((bySymbol.keys.flatMap fun s => pairs (ids.filter fun id => decide (e.baseOf id = s)) :
          List (BookId × BookId)) : Multiset (BookId × BookId)).filterMap fun p =>
            direction e.minProfitBps nowMs (e.baseOf p.1) (e.entryD p.1) (e.entryD p.2) := by
        rw [Multiset.filterMap_coe, List.filterMap_flatMap, hby, entries_buckets, List.flatMap_map]
        simp only [compareGroup_bucket hnodup]
    _ = _ := by rw [buckets_pairs hnodup bySymbol.keys_nodup hkeys]

/-- The pairs that are compared, as pairs of books of the engine. -/
lemma comparedPairs_eq (orders : MapOrders) (nowMs : ℕ) (e : ArbitrageEngine) :
    ((e.visitedIds orders nowMs).toFinset.offDiag.filter fun p => e.baseOf p.1 = e.baseOf p.2) =
      e.bookIds.offDiag.filter fun p =>
        e.IsLive nowMs p.1 ∧ e.IsLive nowMs p.2 ∧ e.baseOf p.1 = e.baseOf p.2 := by
  ext p
  simp only [Finset.mem_filter, Finset.mem_offDiag, List.mem_toFinset, mem_visitedIds]
  tauto

/-- **What `calculate_arbitrage` publishes.**  Whatever order the maps are traversed in, the
opportunities are those between the ordered pairs of distinct books, one for each pair that
has one. -/
theorem calculateArbitrage_opportunities (orders : MapOrders) (nowMs : ℕ) (e : ArbitrageEngine) :
    ((e.calculateArbitrage orders nowMs).opportunities : Multiset ArbitrageOpportunity) =
      e.bookIds.offDiag.val.filterMap fun p => opportunityBetween nowMs e p.1 p.2 := by
  rw [opportunities_eq_pairs, comparedPairs_eq, Finset.filter_val, Multiset.filterMap_filter]
  congr 1
  funext p
  split
  · rename_i hp
    exact direction_eq hp.1 hp.2.1 hp.2.2
  · -- a book that is not live, or two base currencies: the pair contributes nothing
    rename_i hp
    exact (opportunityBetween_eq_none hp).symm

end ArbitrageEngine

end TickPlant
