/-
# The books of the Coinbase client

`process_event` looks up the book of the event's product in `local_books_` and creates it if it
is not there, before it distinguishes snapshots from updates.  A comment in the branch for the
updates relies on the opposite: that entries are only created while a snapshot is processed, so
that an update that gets there finds a valid baseline.

The events are taken as decoded, in the form of the Kraken and Coinbase clients, each with the
reading of the clock.  What the two callbacks are called with is the output of an event.
-/
import TickPlant.Feed.Clients
import TickPlant.Queue.SharedQueue

namespace TickPlant.CoinbaseWebSocketClient

/-! ## The code -/

/-- A call of one of the two callbacks. -/
inductive Callback
  | depth (snap : OrderBookSnapshot)
  | message (ticker : TickerData)
deriving DecidableEq

/-- The ticker of a book that is not empty. -/
def bboTicker (productId : Bytes) (nowMs : ℕ) (bbo : OrderBookSnapshot) : TickerData where
  symbol := productId
  exchange := bytes "Coinbase"
  bidPrice := bbo.bestBid
  askPrice := bbo.bestAsk
  bidQuantity := (bbo.bids.head?.map PriceLevel.quantity).getD 0
  askQuantity := (bbo.asks.head?.map PriceLevel.quantity).getD 0
  timestampMs := nowMs
  enqueueTsc := 0

/-- `CoinbaseWebSocketClient::fire_callbacks`, with both callbacks set. -/
def fireCallbacks (productId : Bytes) (snap : OrderBookSnapshot) (book : OrderBook) (nowMs : ℕ) :
    List Callback :=
  (if snap.isEmpty then [] else [.depth snap]) ++
    let bbo := book.getSnapshot
    if bbo.isEmpty then [] else [.message (bboTicker productId nowMs bbo)]

/-- `CoinbaseWebSocketClient::process_event`: the new `local_books_` and the calls made. -/
def processEvent (sort : PriceSort) (nowMs : ℕ) (event : CoinbaseEvent) (localBooks : BookMap) :
    BookMap × List Callback :=
  match coinbaseSnapshot sort nowMs event with
  | none => (localBooks, [])
  | some snap =>
    -- the entry is created here, whatever the type of the event
    let book := (localBooks.lookup snap.symbol).getD (OrderBook.new snap.symbol (bytes "Coinbase"))
    let book := book.applyLocal nowMs snap
    (localBooks.insert snap.symbol book, fireCallbacks snap.symbol snap book nowMs)

/-- `local_books_` after a sequence of events, each with the reading of the clock. -/
def processEvents (sort : PriceSort) (events : List (ℕ × CoinbaseEvent)) : BookMap :=
  events.foldl (fun localBooks e => (processEvent sort e.1 e.2 localBooks).1) ∅

/-! ## What an event is about -/

/-- The event is one that is processed, for this product; `snapshot` tells its type. -/
def IsFor (snapshot : Bool) (productId : Bytes) (event : CoinbaseEvent) : Prop :=
  event.type.bind isSnap = some snapshot ∧ event.productId = some productId ∧
    event.updates.isSome

instance (snapshot : Bool) (productId : Bytes) (event : CoinbaseEvent) :
    Decidable (IsFor snapshot productId event) := inferInstanceAs (Decidable (_ ∧ _ ∧ _))

lemma isFor_of_snapshot {sort : PriceSort} {nowMs : ℕ} {event : CoinbaseEvent}
    {snap : OrderBookSnapshot} (h : coinbaseSnapshot sort nowMs event = some snap) :
    IsFor snap.isSnapshot snap.symbol event := by
  obtain ⟨type, productId, updates⟩ := event
  cases type with
  | none => cases h
  | some type =>
    cases productId with
    | none => cases h
    | some productId =>
      cases updates with
      | none => cases h
      | some updates =>
        obtain ⟨b, hb, rfl⟩ := Option.map_eq_some_iff.mp h
        exact ⟨hb, rfl, rfl⟩

lemma exists_snapshot_of_isFor {snapshot : Bool} {productId : Bytes} {event : CoinbaseEvent}
    (h : IsFor snapshot productId event) (sort : PriceSort) (nowMs : ℕ) :
    ∃ snap, coinbaseSnapshot sort nowMs event = some snap ∧ snap.symbol = productId := by
  obtain ⟨type, product, updates⟩ := event
  obtain ⟨htype, rfl, hupdates⟩ := h
  obtain ⟨type, rfl, hsnap⟩ := Option.bind_eq_some_iff.mp htype
  obtain ⟨updates, rfl⟩ := Option.isSome_iff_exists.mp hupdates
  simp only [coinbaseSnapshot, hsnap, Option.map_some]
  exact ⟨_, rfl, rfl⟩

/-- An event is of one type and for one product. -/
lemma IsFor.type_unique {b b' : Bool} {p p' : Bytes} {event : CoinbaseEvent}
    (h : IsFor b p event) (h' : IsFor b' p' event) : b = b' :=
  Option.some.inj (h.1.symm.trans h'.1)

/-! ## The entries -/

/-- The entries of one event more: those that were there, and that of the event. -/
lemma mem_keys_processEvent (sort : PriceSort) (nowMs : ℕ) (event : CoinbaseEvent)
    (localBooks : BookMap) (p : Bytes) :
    p ∈ (processEvent sort nowMs event localBooks).1 ↔
      p ∈ localBooks ∨ ∃ snapshot, IsFor snapshot p event := by
  rw [processEvent]
  cases hsnap : coinbaseSnapshot sort nowMs event with
  | none =>
    refine ⟨Or.inl, ?_⟩
    rintro (h | ⟨snapshot, h⟩)
    · exact h
    · obtain ⟨snap, hsome, -⟩ := exists_snapshot_of_isFor h sort nowMs
      rw [hsnap] at hsome
      cases hsome
  | some snap =>
    rw [AList.mem_insert]
    constructor
    · rintro (rfl | h)
      · exact Or.inr ⟨snap.isSnapshot, isFor_of_snapshot hsnap⟩
      · exact Or.inl h
    · rintro (h | ⟨snapshot, h⟩)
      · exact Or.inr h
      · obtain ⟨snap', hsome, hp⟩ := exists_snapshot_of_isFor h sort nowMs
        rw [hsnap, Option.some.injEq] at hsome
        exact Or.inl (by rw [hsome, hp])

/-- The entries of a run are those of the products that an event was for, of either type. -/
lemma mem_keys_processEvents (sort : PriceSort) (events : List (ℕ × CoinbaseEvent)) (p : Bytes) :
    p ∈ processEvents sort events ↔ ∃ e ∈ events, ∃ snapshot, IsFor snapshot p e.2 := by
  induction events using List.reverseRecOn with
  | nil => simp [processEvents, AList.notMem_empty]
  | append_singleton events e ih =>
    rw [processEvents, List.foldl_append, List.foldl_cons, List.foldl_nil, mem_keys_processEvent]
    rw [← processEvents, ih]
    simp [or_and_right, exists_or]

/-- A snapshot event for the product has been processed. -/
def Snapshotted (events : List (ℕ × CoinbaseEvent)) (p : Bytes) : Prop :=
  ∃ e ∈ events, IsFor true p e.2

instance (events : List (ℕ × CoinbaseEvent)) (p : Bytes) : Decidable (Snapshotted events p) :=
  inferInstanceAs (Decidable (∃ e ∈ events, _))

/-- What the comment promises of a sequence of events: at every point of it, all entries are of
products with a snapshot, and an update for any other product changes no book and calls no
BBO callback. -/
def BaselinesOnly (sort : PriceSort) (events : List (ℕ × CoinbaseEvent)) : Prop :=
  ∀ before after, events = before ++ after →
    (∀ p ∈ processEvents sort before, Snapshotted before p) ∧
      ∀ e rest p, after = e :: rest → IsFor false p e.2 → ¬ Snapshotted before p →
        (processEvent sort e.1 e.2 (processEvents sort before)).1 = processEvents sort before ∧
          ∀ ticker, .message ticker ∉
            (processEvent sort e.1 e.2 (processEvents sort before)).2

/-- **When the entries have a baseline.**  The promise is kept by exactly those sequences of
events in which every update comes after a snapshot of its product. -/
theorem baselinesOnly_iff (sort : PriceSort) (events : List (ℕ × CoinbaseEvent)) :
    BaselinesOnly sort events ↔
      ∀ before e after p, events = before ++ e :: after → IsFor false p e.2 →
        Snapshotted before p := by
  constructor
  · -- an update without a snapshot leaves an entry, which the next state does not account for
    intro h before e after p heq hfor
    have hnext := (h (before ++ [e]) after (by simpa using heq)).1 p
    rw [mem_keys_processEvents] at hnext
    obtain ⟨e', he', hsnap⟩ := hnext ⟨e, by simp, false, hfor⟩
    rcases List.mem_append.mp he' with he' | he'
    · exact ⟨e', he', hsnap⟩
    · obtain rfl := List.mem_singleton.mp he'
      exact absurd (hsnap.type_unique hfor) (by decide)
  · intro h before after heq
    refine ⟨?_, ?_⟩
    · intro p hp
      obtain ⟨e, he, snapshot, hfor⟩ := (mem_keys_processEvents sort before p).mp hp
      cases snapshot with
      | true => exact ⟨e, he, hfor⟩
      | false =>
        obtain ⟨s, t, rfl⟩ := List.append_of_mem he
        obtain ⟨e', he', hsnap⟩ := h s e (t ++ after) p (by simp [heq]) hfor
        exact ⟨e', List.mem_append_left _ he', hsnap⟩
    · rintro e rest p rfl hfor hnot
      exact absurd (h before e rest p heq hfor) hnot

/-- An update for `BTC-USD` with one bid. -/
def firstUpdate : CoinbaseEvent where
  type := some (bytes "update")
  productId := some (bytes "BTC-USD")
  updates := some [⟨some (bytes "bid"), some 65000, some 1⟩]

/-- An update that comes first creates the book of its product. -/
theorem update_creates_book : ¬ ∀ sort events, BaselinesOnly sort events := by
  intro hclaim
  have hentry : bytes "BTC-USD" ∈ processEvents FeedState.mergeSorts [(0, firstUpdate)] :=
    (mem_keys_processEvents ..).mpr ⟨_, List.mem_singleton.mpr rfl, false, by decide⟩
  have hsnapshotted := (hclaim FeedState.mergeSorts _ [(0, firstUpdate)] [] rfl).1 _ hentry
  exact absurd hsnapshotted (by decide)

end TickPlant.CoinbaseWebSocketClient
