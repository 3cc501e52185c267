/-
# The books of the arbitrage engine

`ArbitrageEngine` keeps one book per `exchange:symbol` key for the WebSocket feeds and one
per symbol for the FIX feed.  The two hash maps are association lists without repeated
keys; nothing here depends on the order of their entries.

`update_order_book` either replaces a book by a full snapshot or applies a batch of level
changes and prunes the bids that cross the asks; when a tick logger is attached it then
reads the best prices back and logs them.  The clock is an argument, in nanoseconds: all
the readings made during one call are that one.
-/
import TickPlant.OrderBook.Book

namespace TickPlant

/-- `std::unordered_map<std::string, std::unique_ptr<OrderBook>>`. -/
abbrev BookMap := AList fun _ : Bytes => OrderBook

/-- An arbitrage opportunity, as published by the engine. -/
structure ArbitrageOpportunity where
  symbol : Bytes
  buyExchange : Bytes
  sellExchange : Bytes
  buyPrice : ℚ
  sellPrice : ℚ
  profitBps : ℚ
  maxQuantity : ℚ
  timestampMs : ℕ
deriving DecidableEq, Repr

/-- The arguments of one call of `TickLogger::log_bbo`. -/
structure BboTick where
  exchange : Bytes
  symbol : Bytes
  bidPx : ℚ
  askPx : ℚ
  midPx : ℚ
  spreadBps : ℚ
  timestampNs : ℕ
deriving DecidableEq, Repr

/-- The state of the engine that its updates and calculations read and write. -/
structure ArbitrageEngine where
  /-- `ws_books_`, keyed by `exchange:symbol`. -/
  wsBooks : BookMap
  /-- `fix_books_`, keyed by symbol. -/
  fixBooks : BookMap
  /-- The result of the last calculation. -/
  opportunities : List ArbitrageOpportunity
  calculationCount : ℕ
  opportunityCount : ℕ
  minProfitBps : ℚ
  /-- Whether a `TickLogger` is attached. -/
  tickLogger : Bool

/-- `ArbitrageEngine::normalize_symbol`: the base currency of an exchange's symbol. -/
def normalizeSymbol (symbol : Bytes) : Bytes :=
  let norm := upper symbol
  match norm.findIdx? (· = 45) with  -- '-'
  | some pos => norm.take pos
  | none =>
    match norm.findIdx? (· = 47) with  -- '/'
    | some pos => norm.take pos
    | none =>
      if norm.length > 4 ∧ norm.drop (norm.length - 4) = bytes "USDT" then
        norm.take (norm.length - 4)
      else if norm.length > 3 ∧ norm.drop (norm.length - 3) = bytes "USD" then
        norm.take (norm.length - 3)
      else norm

/-- The key `exchange:symbol` of a WebSocket book. -/
def bookKey (snap : OrderBookSnapshot) : Bytes := snap.exchange ++ bytes ":" ++ snap.symbol

/-! ## One batch applied to one book -/

namespace OrderBook

/-- One level of a full snapshot. -/
def setSnapshotLevel (now : ℕ) (side : Side) (b : OrderBook) (lvl : PriceLevel) : OrderBook :=
  b.setLevel now side lvl.price lvl.quantity lvl.orderCount

/-- One level of a delta: quantity `0` deletes the level. -/
def applyDeltaLevel (now : ℕ) (side : Side) (b : OrderBook) (lvl : PriceLevel) : OrderBook :=
  if lvl.quantity = 0 then b.deleteLevel now side lvl.price
  else b.setLevel now side lvl.price lvl.quantity lvl.orderCount

/-- The full-replace path of `update_order_book`. -/
def replaceAll (now : ℕ) (snap : OrderBookSnapshot) (b : OrderBook) : OrderBook :=
  snap.asks.foldl (setSnapshotLevel now .ask)
    (snap.bids.foldl (setSnapshotLevel now .bid) (b.clear now))

/-- The two loops of the delta path of `update_order_book`, before the pruning. -/
def applyDelta (now : ℕ) (snap : OrderBookSnapshot) (b : OrderBook) : OrderBook :=
  snap.asks.foldl (applyDeltaLevel now .ask) (snap.bids.foldl (applyDeltaLevel now .bid) b)

/-- What `update_order_book` does to the book it has found. -/
def applyBatch (now : ℕ) (snap : OrderBookSnapshot) (b : OrderBook) : OrderBook :=
  if snap.isSnapshot then b.replaceAll now snap else (b.applyDelta now snap).pruneCrossed

end OrderBook

/-! ## The engine's entry points -/

namespace ArbitrageEngine

/-- The engine as constructed, with or without a tick logger attached. -/
def new (tickLogger : Bool) : ArbitrageEngine where
  wsBooks := ∅
  fixBooks := ∅
  opportunities := []
  calculationCount := 0
  opportunityCount := 0
  minProfitBps := 5
  tickLogger := tickLogger

/-- The tick that `update_order_book` hands to `log_bbo` after a call, if any. -/
def bboTick (nowNs : ℕ) (snap : OrderBookSnapshot) (e : ArbitrageEngine) : Option BboTick :=
  if e.tickLogger then
    match e.wsBooks.lookup (bookKey snap) with
    | none => none
    | some book =>
      if book.bestBid > 0 ∧ book.bestAsk > 0 then
        some ⟨snap.exchange, normalizeSymbol snap.symbol, book.bestBid, book.bestAsk,
          book.midPrice, book.spreadBps, nowNs⟩
      else none
  else none

/-- `ArbitrageEngine::update_order_book`: the new state and the tick logged. -/
def updateOrderBook (nowNs : ℕ) (snap : OrderBookSnapshot) (e : ArbitrageEngine) :
    ArbitrageEngine × Option BboTick :=
  let key := bookKey snap
  let book := (e.wsBooks.lookup key).getD (OrderBook.new snap.symbol snap.exchange)
  let e := { e with wsBooks := e.wsBooks.insert key (book.applyBatch (nowNs / 1000000) snap) }
  (e, e.bboTick nowNs snap)

/-- `ArbitrageEngine::update_fix_data`. -/
def updateFixData (nowNs : ℕ) (msg : FIXMessage) (e : ArbitrageEngine) : ArbitrageEngine :=
  if msg.isMarketData then
    let book := (e.fixBooks.lookup msg.symbol).getD (OrderBook.new msg.symbol (bytes "FIX"))
    let book :=
      if msg.msgType = .marketDataSnapshot then book.applySnapshot (nowNs / 1000000) msg
      else book.applyUpdate (nowNs / 1000000) msg
    { e with fixBooks := e.fixBooks.insert msg.symbol book }
  else e

/-- A sequence of `update_order_book` calls, each with its clock reading. -/
def runUpdates (calls : List (ℕ × OrderBookSnapshot)) (e : ArbitrageEngine) : ArbitrageEngine :=
  calls.foldl (fun e c => (e.updateOrderBook c.1 c.2).1) e

/-- The book a call has updated. -/
lemma lookup_updateOrderBook (nowNs : ℕ) (snap : OrderBookSnapshot) (e : ArbitrageEngine) :
    (e.updateOrderBook nowNs snap).1.wsBooks.lookup (bookKey snap) =
      some (((e.wsBooks.lookup (bookKey snap)).getD
        (OrderBook.new snap.symbol snap.exchange)).applyBatch (nowNs / 1000000) snap) := by
  simp [updateOrderBook, AList.lookup_insert]

/-- A logged tick carries the spread of the book the call has updated. -/
lemma tick_spread {nowNs : ℕ} {snap : OrderBookSnapshot} {e : ArbitrageEngine} {tick : BboTick}
    {book : OrderBook} (ht : (e.updateOrderBook nowNs snap).2 = some tick)
    (hb : (e.updateOrderBook nowNs snap).1.wsBooks.lookup (bookKey snap) = some book) :
    tick.spreadBps = book.spreadBps := by
  change bboTick nowNs snap (e.updateOrderBook nowNs snap).1 = some tick at ht
  rw [bboTick, hb] at ht
  split at ht
  · dsimp only at ht
    split at ht
    · rw [← Option.some.inj ht]
    · exact absurd ht (by simp)
  · exact absurd ht (by simp)

end ArbitrageEngine

end TickPlant
