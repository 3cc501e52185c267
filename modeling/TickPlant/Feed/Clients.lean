/-
# The Kraken and Coinbase clients

Both clients turn a decoded message into `OrderBookSnapshot`s, apply each of them to a book of
their own (`local_books_`, for the BBO display) and hand it to the depth callback, which
passes it to `ArbitrageEngine::update_order_book`.  So two copies of every book are kept, by
two pieces of code: the client leaves out the levels of a full snapshot whose quantity is not
positive and the engine does not, and a snapshot without levels empties the client's book but
is not handed on.

The messages are taken as decoded JSON; a field that may be missing is an `Option`.
`std::sort` is any rearrangement that is sorted by price: nothing is said about the order of
levels with equal prices.
-/
import TickPlant.Engine.Crossing

namespace TickPlant

/-! ## Messages -/

/-- The two calls of `std::sort`, with the bids descending and the asks ascending. -/
structure PriceSort where
  bids : List PriceLevel → List PriceLevel
  asks : List PriceLevel → List PriceLevel
  bids_perm : ∀ l, (bids l).Perm l
  asks_perm : ∀ l, (asks l).Perm l
  bids_sorted : ∀ l, (bids l).Pairwise fun a b => b.price ≤ a.price
  asks_sorted : ∀ l, (asks l).Pairwise fun a b => a.price ≤ b.price

/-- One level of a Kraken book message. -/
structure KrakenLevel where
  price : ℚ
  qty : ℚ
deriving DecidableEq

/-- One element of the `data` of a Kraken book message. -/
structure KrakenItem where
  symbol : Option Bytes
  bids : Option (List KrakenLevel)
  asks : Option (List KrakenLevel)
deriving DecidableEq

/-- A message of Kraken's `book` channel. -/
structure KrakenMessage where
  type : Bytes
  data : List KrakenItem
deriving DecidableEq

/-- One element of the `updates` of a Coinbase event. -/
structure CoinbaseUpdate where
  side : Option Bytes
  priceLevel : Option ℚ
  newQuantity : Option ℚ
deriving DecidableEq

/-- An event of Coinbase's `l2_data` channel. -/
structure CoinbaseEvent where
  type : Option Bytes
  productId : Option Bytes
  updates : Option (List CoinbaseUpdate)
deriving DecidableEq

/-- `is_snap`, for the two types that are processed. -/
def isSnap (type : Bytes) : Option Bool :=
  if type = bytes "snapshot" then some true
  else if type = bytes "update" then some false
  else none

/-- The snapshot built from one element of a Kraken message. -/
def krakenSnapshot (sort : PriceSort) (nowMs : ℕ) (snapshot : Bool) (item : KrakenItem) :
    Option OrderBookSnapshot :=
  item.symbol.map fun sym =>
    { symbol := sym
      exchange := bytes "Kraken"
      timestampMs := nowMs
      isSnapshot := snapshot
      bids := sort.bids ((item.bids.getD []).map fun lvl => ⟨lvl.price, lvl.qty, 0⟩)
      asks := sort.asks ((item.asks.getD []).map fun lvl => ⟨lvl.price, lvl.qty, 0⟩) }

/-- The snapshots built by `KrakenWebSocketClient::parse_depth_message`. -/
def krakenSnapshots (sort : PriceSort) (nowMs : ℕ) (msg : KrakenMessage) :
    List OrderBookSnapshot :=
  match isSnap msg.type with
  | none => []
  | some snapshot => msg.data.filterMap (krakenSnapshot sort nowMs snapshot)

/-- The levels of the updates of one side. -/
def coinbaseLevels (side : Bytes) (updates : List CoinbaseUpdate) : List PriceLevel :=
  updates.filterMap fun upd =>
    match upd.side, upd.priceLevel, upd.newQuantity with
    | some s, some price, some qty => if s = side then some ⟨price, qty, 0⟩ else none
    | _, _, _ => none

/-- The snapshot built by `CoinbaseWebSocketClient::process_event`. -/
def coinbaseSnapshot (sort : PriceSort) (nowMs : ℕ) (event : CoinbaseEvent) :
    Option OrderBookSnapshot :=
  match event.type, event.productId, event.updates with
  | some type, some productId, some updates =>
    (isSnap type).map fun snapshot =>
      { symbol := productId
        exchange := bytes "Coinbase"
        timestampMs := nowMs
        isSnapshot := snapshot
        bids := sort.bids (coinbaseLevels (bytes "bid") updates)
        asks := sort.asks (coinbaseLevels (bytes "offer") updates) }
  | _, _, _ => none

/-! ## The client's own book -/

namespace OrderBook

/-- One level of a full snapshot in a client's book. -/
def setPositiveLevel (now : ℕ) (side : Side) (b : OrderBook) (lvl : PriceLevel) : OrderBook :=
  if 0 < lvl.quantity then b.setLevel now side lvl.price lvl.quantity lvl.orderCount else b

/-- What a client does to its book. -/
def applyLocal (now : ℕ) (snap : OrderBookSnapshot) (b : OrderBook) : OrderBook :=
  if snap.isSnapshot then
    snap.asks.foldl (setPositiveLevel now .ask)
      (snap.bids.foldl (setPositiveLevel now .bid) (b.clear now))
  else b.applyDelta now snap

end OrderBook

/-! ## Clients and engine -/

/-- The clients that keep a book of their own and hand it to the engine. -/
inductive Client
  | kraken
  | coinbase
deriving DecidableEq

/-- A snapshot on its way through a client, with the reading of the clock. -/
structure Delivery where
  client : Client
  nowNs : ℕ
  snap : OrderBookSnapshot

/-- A message received by a client, with the reading of the clock. -/
inductive FeedMessage
  | kraken (nowNs : ℕ) (msg : KrakenMessage)
  | coinbase (nowNs : ℕ) (events : List CoinbaseEvent)

/-- The snapshots of a message, in order. -/
def FeedMessage.deliveries (sort : PriceSort) : FeedMessage → List Delivery
  | .kraken nowNs msg => (krakenSnapshots sort (nowNs / 1000000) msg).map (⟨.kraken, nowNs, ·⟩)
  | .coinbase nowNs events =>
    (events.filterMap (coinbaseSnapshot sort (nowNs / 1000000))).map (⟨.coinbase, nowNs, ·⟩)

/-- The `local_books_` of the clients, and the engine. -/
structure FeedState where
  books : Client → BookMap
  engine : ArbitrageEngine

namespace FeedState

/-- The client's book of a delivery. -/
def localBook (s : FeedState) (d : Delivery) : OrderBook :=
  ((s.books d.client).lookup d.snap.symbol).getD (OrderBook.new d.snap.symbol d.snap.exchange)

/-- The engine's book of a delivery; a book that does not exist yet has no levels. -/
def engineBook (s : FeedState) (d : Delivery) : OrderBook :=
  (s.engine.wsBooks.lookup (bookKey d.snap)).getD (OrderBook.new d.snap.symbol d.snap.exchange)

/-- One snapshot is applied to the client's book and, unless it is empty, handed on. -/
def deliver (s : FeedState) (d : Delivery) : FeedState where
  books := Function.update s.books d.client
    ((s.books d.client).insert d.snap.symbol
      ((s.localBook d).applyLocal (d.nowNs / 1000000) d.snap))
  engine := if d.snap.isEmpty then s.engine else (s.engine.updateOrderBook d.nowNs d.snap).1

/-- A sequence of snapshots. -/
def run (s : FeedState) (ds : List Delivery) : FeedState := ds.foldl deliver s

/-- The two books of a delivery have the same levels. -/
def Agree (s : FeedState) (d : Delivery) : Prop := (s.localBook d).SameLevels (s.engineBook d)

end FeedState

/-! ## Last levels -/

/-- `l` is the last level of its price in a list of levels. -/
def LastAt (ls : List PriceLevel) (l : PriceLevel) : Prop :=
  (ls.filter fun x => x.price = l.price).getLast? = some l

/-- For every price, the last level of the list with that price has a positive quantity. -/
def LastPositive (ls : List PriceLevel) : Prop := ∀ l, LastAt ls l → 0 < l.quantity

/-- Leaving out the elements without `q` keeps the last one if and only if it has `q`. -/
lemma getLast?_filter_iff {α : Type*} (q : α → Bool) (l : List α) :
    (l.filter q).getLast? = l.getLast? ↔ ∀ x, l.getLast? = some x → q x = true := by
  induction l using List.reverseRecOn with
  | nil => simp
  | append_singleton l x _ =>
    rw [List.filter_append, List.getLast?_concat]
    by_cases hq : q x = true
    · rw [List.filter_cons_of_pos hq, List.filter_nil, List.getLast?_concat]
      simp [hq]
    · rw [List.filter_cons_of_neg hq, List.filter_nil, List.append_nil]
      constructor
      · intro h
        have hmem := List.mem_of_getLast? h
        exact absurd (List.of_mem_filter hmem) hq
      · intro h
        exact absurd (h x rfl) hq

namespace Levels

variable {cmp : ℚ → ℚ → Ordering} [Std.TransCmp cmp] [Std.LawfulEqCmp cmp]

/-- A side built from the positive levels only is the side built from all levels if and only
if the last level of every price is positive. -/
lemma inserts_positive_iff (ls : List PriceLevel) :
    (ls.filter fun l => 0 < l.quantity).foldl insert (empty : Levels cmp) =
      ls.foldl insert empty ↔ LastPositive ls := by
  have hfind : ∀ p, ((ls.filter fun l => 0 < l.quantity).foldl insert (empty : Levels cmp)).find p =
      (ls.foldl insert (empty : Levels cmp)).find p ↔
        ∀ l, (ls.filter fun x => x.price = p).getLast? = some l → 0 < l.quantity := by
    intro p
    rw [find_inserts, find_inserts, find_empty, Option.or_none, Option.or_none, List.filter_comm]
    simpa using getLast?_filter_iff (fun l : PriceLevel => decide (0 < l.quantity))
      (ls.filter fun l => l.price = p)
  constructor
  · intro heq l hl
    exact (hfind l.price).mp (by rw [heq]) l hl
  · intro hpos
    ext1 p
    rw [hfind]
    intro l hl
    have hp : l.price = p := by
      have := List.of_mem_filter (List.mem_of_getLast? hl)
      simpa using this
    exact hpos l (by rw [LastAt, hp]; exact hl)

end Levels

/-! ## One delivery -/

namespace OrderBook

lemma foldl_setPositiveLevel_bid (now : ℕ) (ls : List PriceLevel) (b : OrderBook) :
    (ls.foldl (setPositiveLevel now .bid) b).bids =
        (ls.filter fun l => 0 < l.quantity).foldl Levels.insert b.bids ∧
      (ls.foldl (setPositiveLevel now .bid) b).asks = b.asks := by
  rw [List.foldl_filter]
  refine foldl_bids ?_ ls b
  intro b l
  by_cases hq : 0 < l.quantity
  · simp [setPositiveLevel, setLevel, putLevel, touch, hq]
  · simp [setPositiveLevel, hq]

lemma foldl_setPositiveLevel_ask (now : ℕ) (ls : List PriceLevel) (b : OrderBook) :
    (ls.foldl (setPositiveLevel now .ask) b).bids = b.bids ∧
      (ls.foldl (setPositiveLevel now .ask) b).asks =
        (ls.filter fun l => 0 < l.quantity).foldl Levels.insert b.asks := by
  rw [List.foldl_filter]
  refine foldl_asks ?_ ls b
  intro b l
  by_cases hq : 0 < l.quantity
  · simp [setPositiveLevel, setLevel, putLevel, touch, hq]
  · simp [setPositiveLevel, hq]

/-- The sides of a client's book after a full snapshot. -/
lemma applyLocal_snapshot {snap : OrderBookSnapshot} (hsnap : snap.isSnapshot = true) (now : ℕ)
    (b : OrderBook) :
    (b.applyLocal now snap).bids =
        (snap.bids.filter fun l => 0 < l.quantity).foldl Levels.insert Levels.empty ∧
      (b.applyLocal now snap).asks =
        (snap.asks.filter fun l => 0 < l.quantity).foldl Levels.insert Levels.empty := by
  rw [applyLocal, if_pos hsnap, (foldl_setPositiveLevel_ask ..).1,
    (foldl_setPositiveLevel_ask ..).2, (foldl_setPositiveLevel_bid ..).1,
    (foldl_setPositiveLevel_bid ..).2]
  exact ⟨rfl, rfl⟩

/-- The sides of the engine's book after a full snapshot. -/
lemma applyBatch_snapshot {snap : OrderBookSnapshot} (hsnap : snap.isSnapshot = true) (now : ℕ)
    (b : OrderBook) :
    (b.applyBatch now snap).bids = snap.bids.foldl Levels.insert Levels.empty ∧
      (b.applyBatch now snap).asks = snap.asks.foldl Levels.insert Levels.empty := by
  rw [applyBatch, if_pos hsnap, replaceAll, (foldl_setSnapshotLevel_ask ..).1,
    (foldl_setSnapshotLevel_ask ..).2, (foldl_setSnapshotLevel_bid ..).1,
    (foldl_setSnapshotLevel_bid ..).2]
  exact ⟨rfl, rfl⟩

end OrderBook

namespace FeedState

/-- What a full snapshot must be like for the two books to agree after it: if it has levels,
the last one of every price is positive, and if it has none, the engine's book is empty
already. -/
def Faithful (s : FeedState) (d : Delivery) : Prop :=
  if d.snap.isEmpty then (s.engineBook d).isEmpty = true
  else LastPositive d.snap.bids ∧ LastPositive d.snap.asks

lemma localBook_deliver (s : FeedState) (d : Delivery) :
    (s.deliver d).localBook d = (s.localBook d).applyLocal (d.nowNs / 1000000) d.snap := by
  simp [localBook, deliver, AList.lookup_insert]

lemma engineBook_deliver (s : FeedState) (d : Delivery) :
    (s.deliver d).engineBook d =
      if d.snap.isEmpty then s.engineBook d
      else (s.engineBook d).applyBatch (d.nowNs / 1000000) d.snap := by
  rw [engineBook, deliver]
  split
  · rfl
  · rw [ArbitrageEngine.lookup_updateOrderBook]
    rfl

/-- After a full snapshot the two books agree if and only if the snapshot is as above. -/
lemma agree_deliver_iff (s : FeedState) {d : Delivery} (hsnap : d.snap.isSnapshot = true) :
    (s.deliver d).Agree d ↔ s.Faithful d := by
  obtain ⟨hbids, hasks⟩ :=
    OrderBook.applyLocal_snapshot hsnap (d.nowNs / 1000000) (s.localBook d)
  rw [Agree, localBook_deliver, engineBook_deliver, Faithful, OrderBook.SameLevels, hbids, hasks]
  by_cases hempty : d.snap.isEmpty = true
  · -- the client's book is empty and the engine's is as it was
    have hnil : d.snap.bids = [] ∧ d.snap.asks = [] := by
      simpa [OrderBookSnapshot.isEmpty] using hempty
    rw [if_pos hempty, if_pos hempty, hnil.1, hnil.2, OrderBook.isEmpty, Bool.and_eq_true,
      Levels.isEmpty_iff, Levels.isEmpty_iff]
    constructor
    · rintro ⟨hb, ha⟩
      rw [← hb, ← ha]
      exact ⟨Levels.find_empty, Levels.find_empty⟩
    · rintro ⟨hb, ha⟩
      refine ⟨Levels.ext fun p => ?_, Levels.ext fun p => ?_⟩
      · rw [hb p]
        exact Levels.find_empty p
      · rw [ha p]
        exact Levels.find_empty p
  · obtain ⟨hb, ha⟩ := OrderBook.applyBatch_snapshot hsnap (d.nowNs / 1000000) (s.engineBook d)
    rw [if_neg hempty, if_neg hempty, hb, ha, Levels.inserts_positive_iff,
      Levels.inserts_positive_iff]

/-! ## Every sequence of messages -/

/-- **Two copies of one book.**  Over any sequence of Kraken and Coinbase messages, from any
state: after every full snapshot the engine's book has the levels of the client's book, if and
only if every full snapshot that has levels gives every price a positive last level, and every
full snapshot without levels finds the engine's book empty. -/
theorem copies_agree_iff (sort : PriceSort) (s : FeedState) (msgs : List FeedMessage) :
    (∀ before d after, msgs.flatMap (FeedMessage.deliveries sort) = before ++ d :: after →
        d.snap.isSnapshot = true → (s.run (before ++ [d])).Agree d) ↔
      ∀ before d after, msgs.flatMap (FeedMessage.deliveries sort) = before ++ d :: after →
        d.snap.isSnapshot = true → (s.run before).Faithful d := by
  have hstep : ∀ before d, s.run (before ++ [d]) = (s.run before).deliver d := by
    intro before d
    rw [run, run, List.foldl_append]
    rfl
  constructor
  · intro h before d after heq hsnap
    rw [← agree_deliver_iff _ hsnap, ← hstep]
    exact h before d after heq hsnap
  · intro h before d after heq hsnap
    rw [hstep, agree_deliver_iff _ hsnap]
    exact h before d after heq hsnap

/-- `std::sort` as a merge sort. -/
def mergeSorts : PriceSort where
  bids l := l.mergeSort fun a b => decide (b.price ≤ a.price)
  asks l := l.mergeSort fun a b => decide (a.price ≤ b.price)
  bids_perm := fun l => List.mergeSort_perm l _
  asks_perm := fun l => List.mergeSort_perm l _
  bids_sorted := by
    intro l
    refine (List.pairwise_mergeSort ?_ ?_ l).imp (by simp)
    · intro a b c hab hbc
      simp only [decide_eq_true_eq] at *
      exact hbc.trans hab
    · intro a b
      simpa using le_total b.price a.price
  asks_sorted := by
    intro l
    refine (List.pairwise_mergeSort ?_ ?_ l).imp (by simp)
    · intro a b c hab hbc
      simp only [decide_eq_true_eq] at *
      exact hab.trans hbc
    · intro a b
      simpa using le_total a.price b.price

/-- The clients and the engine at the start. -/
def start : FeedState := ⟨fun _ => ∅, .new false⟩

/-- A full snapshot of Kraken whose only level has quantity `0`. -/
def zeroLevel : FeedMessage :=
  .kraken 0 ⟨bytes "snapshot", [⟨some (bytes "BTC/USD"), some [⟨100, 0⟩], none⟩]⟩

/-- The delivery of `zeroLevel`. -/
def zeroDelivery : Delivery :=
  ⟨.kraken, 0, ⟨bytes "BTC/USD", bytes "Kraken", 0, true, [⟨100, 0, 0⟩], []⟩⟩

lemma deliveries_zeroLevel : zeroLevel.deliveries mergeSorts = [zeroDelivery] := by
  have hsnap : isSnap (bytes "snapshot") = some true := by decide
  simp [zeroLevel, FeedMessage.deliveries, krakenSnapshots, hsnap, krakenSnapshot, mergeSorts,
    zeroDelivery]

/-- The engine keeps the level with quantity `0`, which the client leaves out. -/
theorem zero_level_disagrees :
    ¬ ∀ (sort : PriceSort) (msgs : List FeedMessage) (before after : List Delivery)
      (d : Delivery), msgs.flatMap (FeedMessage.deliveries sort) = before ++ d :: after →
      d.snap.isSnapshot = true → (start.run (before ++ [d])).Agree d := by
  intro hclaim
  have hagree : (start.deliver zeroDelivery).Agree zeroDelivery :=
    hclaim mergeSorts [zeroLevel] [] [] zeroDelivery (by simp [deliveries_zeroLevel]) rfl
  rw [agree_deliver_iff start rfl] at hagree
  have hpos : (0 : ℚ) < 0 := hagree.1 ⟨100, 0, 0⟩ (by simp [LastAt, zeroDelivery])
  exact absurd hpos (lt_irrefl 0)

end FeedState

end TickPlant
