/-
# The parsers of the depth messages

The clients of Bybit, Kraken and Coinbase receive texts.  A text may fail to parse, a value may
be of another type than expected, and a number that is sent as a string may not be a number: the
JSON library and `std::stod` then throw, at any level of any side.  The handlers only print.

Each parser reads a message of Bybit, an item of Kraken or an event of Coinbase to its end before
it touches the books and the callbacks, so it is a commit or a sequence of commits
(`parseDepthMessage_eq`, once for each of the three).

`json::parse` and `std::stod` are parameters without a result when they throw.  Both callbacks
are set, and the depth callback is that of the engine.  The clock is read once for a message.
-/
import TickPlant.Feed.Coinbase
import TickPlant.Feed.Sorting
import TickPlant.JsonValue
import TickPlant.Lib.Commit

namespace TickPlant

open Lib

/-! ## The code -/

/-- What the parsers get from outside. -/
structure ParserEnv where
  /-- `json::parse`. -/
  parse : Bytes → Option JsonValue
  /-- `std::stod`. -/
  stod : Bytes → Option ℚ
  /-- `std::sort`. -/
  sort : PriceSort
  nowNs : ℕ

/-- The clients whose parsers these are. -/
inductive Venue
  | bybit
  | kraken
  | coinbase
deriving DecidableEq

namespace Venue

/-- The name of the exchange. -/
def name : Venue → Bytes
  | bybit => bytes "Bybit"
  | kraken => bytes "Kraken"
  | coinbase => bytes "Coinbase"

/-- What the client does to its book: Bybit's sets all levels of a full snapshot. -/
def apply (venue : Venue) (now : ℕ) (snap : OrderBookSnapshot) (b : OrderBook) : OrderBook :=
  match venue with
  | bybit => if snap.isSnapshot then b.replaceAll now snap else b.applyDelta now snap
  | kraken => b.applyLocal now snap
  | coinbase => b.applyLocal now snap

/-- Whether the depth callback is called: Bybit's client calls it for an empty batch too. -/
def handsOn (venue : Venue) (snap : OrderBookSnapshot) : Bool :=
  match venue with
  | bybit => true
  | kraken => !snap.isEmpty
  | coinbase => !snap.isEmpty

end Venue

/-- `local_books_` of a client, the engine behind its depth callback, and the calls made. -/
structure ClientState where
  localBooks : BookMap
  engine : ArbitrageEngine
  calls : List CoinbaseWebSocketClient.Callback

namespace ClientState

/-- The book of a symbol is created if there is none. -/
def emplaceBook (venue : Venue) (sym : Bytes) (s : ClientState) : ClientState :=
  match s.localBooks.lookup sym with
  | some _ => s
  | none => { s with localBooks := s.localBooks.insert sym (OrderBook.new sym venue.name) }

/-- The book of a symbol is changed. -/
def changeBook (sym : Bytes) (f : OrderBook → OrderBook) (s : ClientState) : ClientState :=
  match s.localBooks.lookup sym with
  | some book => { s with localBooks := s.localBooks.insert sym (f book) }
  | none => s

/-- `depth_callback_(snap)`. -/
def callDepth (nowNs : ℕ) (snap : OrderBookSnapshot) (s : ClientState) : ClientState :=
  { s with engine := (s.engine.updateOrderBook nowNs snap).1, calls := s.calls ++ [.depth snap] }

/-- `message_callback_`, with the ticker of the book unless it is empty. -/
def callMessage (venue : Venue) (nowMs : ℕ) (sym : Bytes) (s : ClientState) : ClientState :=
  match s.localBooks.lookup sym with
  | none => s
  | some book =>
    let bbo := book.getSnapshot
    if bbo.isEmpty then s
    else
      let ticker := { CoinbaseWebSocketClient.bboTicker sym nowMs bbo with exchange := venue.name }
      { s with calls := s.calls ++ [.message ticker] }

/-- A batch is applied to its book and handed to the callbacks. -/
def deliver (venue : Venue) (nowNs : ℕ) (snap : OrderBookSnapshot) (s : ClientState) :
    ClientState :=
  let s := s.emplaceBook venue snap.symbol
  let s := s.changeBook snap.symbol (venue.apply (nowNs / 1000000) snap)
  let s := if venue.handsOn snap then s.callDepth nowNs snap else s
  s.callMessage venue (nowNs / 1000000) snap.symbol

/-- A sequence of batches. -/
def deliverAll (venue : Venue) (nowNs : ℕ) (snaps : List OrderBookSnapshot) (s : ClientState) :
    ClientState := snaps.foldl (fun s snap => s.deliver venue nowNs snap) s

end ClientState

/-- `v.contains(key) && v[key] == s`. -/
def memberIs (v : JsonValue) (key s : Bytes) : Bool :=
  v.contains key &&
    match v.atKey key with
    | .ok w => w.equals s
    | .error _ => false

/-- The string at a key, if the key is there. -/
def stringMember (v : JsonValue) (key : Bytes) : Except Stop (Option Bytes) :=
  if v.contains key then do
    let s ← orThrow (← v.atKey key).getString
    return some s
  else .ok none

/-- The second half of the parsers, one step after the other. -/
def publish (venue : Venue) (nowNs : ℕ) (snap : OrderBookSnapshot) : Program ClientState Unit := do
  modify (ClientState.emplaceBook venue snap.symbol)
  modify (ClientState.changeBook snap.symbol (venue.apply (nowNs / 1000000) snap))
  if venue.handsOn snap then modify (ClientState.callDepth nowNs snap)
  modify (ClientState.callMessage venue (nowNs / 1000000) snap.symbol)

namespace BybitWebSocketClient

/-- One level: `["65000","0.5"]`. -/
def readLevel (env : ParserEnv) (level : JsonValue) : Except Stop PriceLevel := do
  let price ← orThrow (env.stod (← orThrow (← level.atIndex 0).getString))
  let qty ← orThrow (env.stod (← orThrow (← level.atIndex 1).getString))
  return ⟨price, qty, 0⟩

/-- The loop over the levels of one side. -/
def readLevels (env : ParserEnv) (side : JsonValue) : Except Stop (List PriceLevel) :=
  side.elements.mapM (readLevel env)

/-- `BybitWebSocketClient::parse_depth_message`. -/
def parseDepthMessage (env : ParserEnv) (message : Bytes) : Program ClientState Unit := do
  let j ← orThrow (env.parse message)
  let op ← stringMember j (bytes "op")
  if op = some (bytes "subscribe") ∨ op = some (bytes "pong") then return
  else
    match ← stringMember j (bytes "topic") with
    | none => return
    | some topic =>
      if ¬ bytes "orderbook.50." <:+: topic then return
      else if ¬ j.contains (bytes "data") ∨ ¬ j.contains (bytes "type") then return
      else
        let msgType ← orThrow (← j.atKey (bytes "type")).getString
        let data ← j.atKey (bytes "data")
        if ¬ data.contains (bytes "b") ∨ ¬ data.contains (bytes "a") then return
        else
          let bids ← readLevels env (← data.atKey (bytes "b"))
          let asks ← readLevels env (← data.atKey (bytes "a"))
          publish .bybit env.nowNs
            { symbol := topic.drop (bytes "orderbook.50.").length
              exchange := bytes "Bybit"
              timestampMs := env.nowNs / 1000000
              isSnapshot := msgType = bytes "snapshot"
              bids := bids
              asks := asks }

end BybitWebSocketClient

namespace KrakenWebSocketClient

/-- One level: `{"price":65000.0,"qty":0.5}`. -/
def readLevel (lvl : JsonValue) : Except Stop PriceLevel := do
  let price ← orThrow (← lvl.atKey (bytes "price")).getDouble
  let qty ← orThrow (← lvl.atKey (bytes "qty")).getDouble
  return ⟨price, qty, 0⟩

/-- The levels of one side; a side may be missing. -/
def readSide (item : JsonValue) (key : Bytes) : Except Stop (List PriceLevel) :=
  if item.contains key then do (← item.atKey key).elements.mapM readLevel
  else .ok []

/-- The body of the loop over the items. -/
def processItem (env : ParserEnv) (snapshot : Bool) (item : JsonValue) :
    Program ClientState Unit := do
  match ← stringMember item (bytes "symbol") with
  | none => return
  | some sym =>
    let bids ← readSide item (bytes "bids")
    let asks ← readSide item (bytes "asks")
    publish .kraken env.nowNs
      { symbol := sym
        exchange := bytes "Kraken"
        timestampMs := env.nowNs / 1000000
        isSnapshot := snapshot
        bids := env.sort.bids bids
        asks := env.sort.asks asks }

/-- `KrakenWebSocketClient::parse_depth_message`. -/
def parseDepthMessage (env : ParserEnv) (message : Bytes) : Program ClientState Unit := do
  let j ← orThrow (env.parse message)
  if memberIs j (bytes "method") (bytes "subscribe") then return
  else if memberIs j (bytes "channel") (bytes "status") then return
  else if memberIs j (bytes "method") (bytes "pong") then return
  else if ¬ memberIs j (bytes "channel") (bytes "book") then return
  else if ¬ j.contains (bytes "type") ∨ ¬ j.contains (bytes "data") then return
  else
    let msgType ← orThrow (← j.atKey (bytes "type")).getString
    match isSnap msgType with
    | none => return
    | some snapshot =>
      let data ← j.atKey (bytes "data")
      if data.isEmpty then return
      else data.elements.forM (processItem env snapshot)

end KrakenWebSocketClient

namespace CoinbaseWebSocketClient

/-- One element of `updates`; it is left out if one of its members is missing. -/
def readUpdate (env : ParserEnv) (upd : JsonValue) : Except Stop (Option (Side × PriceLevel)) :=
  if ¬ upd.contains (bytes "side") ∨ ¬ upd.contains (bytes "price_level") ∨
      ¬ upd.contains (bytes "new_quantity") then .ok none
  else do
    let price ← orThrow (env.stod (← orThrow (← upd.atKey (bytes "price_level")).getString))
    let qty ← orThrow (env.stod (← orThrow (← upd.atKey (bytes "new_quantity")).getString))
    let side ← orThrow (← upd.atKey (bytes "side")).getString
    if side = bytes "bid" then return some (.bid, ⟨price, qty, 0⟩)
    else if side = bytes "offer" then return some (.ask, ⟨price, qty, 0⟩)
    else return none

/-- The loop over the updates. -/
def readUpdates (env : ParserEnv) (updates : JsonValue) :
    Except Stop (List (Side × PriceLevel)) := do
  let changes ← updates.elements.mapM (readUpdate env)
  return changes.reduceOption

/-- `CoinbaseWebSocketClient::process_event`, from the text of the event. -/
def processEventJson (env : ParserEnv) (event : JsonValue) : Program ClientState Unit := do
  if ¬ event.contains (bytes "type") ∨ ¬ event.contains (bytes "product_id") then return
  else
    let eventType ← orThrow (← event.atKey (bytes "type")).getString
    match isSnap eventType with
    | none => return
    | some snapshot =>
      if ¬ event.contains (bytes "updates") then return
      else
        let productId ← orThrow (← event.atKey (bytes "product_id")).getString
        let changes ← readUpdates env (← event.atKey (bytes "updates"))
        publish .coinbase env.nowNs
          { symbol := productId
            exchange := bytes "Coinbase"
            timestampMs := env.nowNs / 1000000
            isSnapshot := snapshot
            bids := env.sort.bids (onSide .bid changes)
            asks := env.sort.asks (onSide .ask changes) }

/-- `CoinbaseWebSocketClient::parse_depth_message`. -/
def parseDepthMessage (env : ParserEnv) (message : Bytes) : Program ClientState Unit := do
  let j ← orThrow (env.parse message)
  match ← stringMember j (bytes "channel") with
  | none => return
  | some channel =>
    if channel = bytes "subscriptions" then return
    else if channel = bytes "heartbeats" then return
    else if channel = bytes "error" ∨ memberIs j (bytes "type") (bytes "error") then return
    else if channel ≠ bytes "l2_data" then return
    else if ¬ j.contains (bytes "events") then return
    else
      let events ← j.atKey (bytes "events")
      events.elements.forM (processEventJson env)

end CoinbaseWebSocketClient

/-! ## Readings and changes -/

lemma publish_eq (venue : Venue) (nowNs : ℕ) (snap : OrderBookSnapshot) :
    publish venue nowNs snap = modify (ClientState.deliver venue nowNs snap) := by
  have hdeliver : ClientState.deliver venue nowNs snap = fun s =>
      ((if venue.handsOn snap then
        ((s.emplaceBook venue snap.symbol).changeBook snap.symbol
          (venue.apply (nowNs / 1000000) snap)).callDepth nowNs snap
      else
        (s.emplaceBook venue snap.symbol).changeBook snap.symbol
          (venue.apply (nowNs / 1000000) snap)).callMessage venue (nowNs / 1000000) snap.symbol) :=
    rfl
  rw [publish, hdeliver]
  cases venue.handsOn snap <;> rfl

namespace ClientState

/-- The book of a symbol; one that does not exist yet has no levels. -/
def bookOf (s : ClientState) (venue : Venue) (sym : Bytes) : OrderBook :=
  (s.localBooks.lookup sym).getD (OrderBook.new sym venue.name)

/-- The calls made for a batch, with the book it has left. -/
def callsFor (venue : Venue) (nowMs : ℕ) (snap : OrderBookSnapshot) (book : OrderBook) :
    List CoinbaseWebSocketClient.Callback :=
  (if venue.handsOn snap then [.depth snap] else []) ++
    let bbo := book.getSnapshot
    if bbo.isEmpty then []
    else [.message { CoinbaseWebSocketClient.bboTicker snap.symbol nowMs bbo with
      exchange := venue.name }]

/-- All levels of a batch are applied to one book, and each callback is called at most once. -/
theorem deliver_eq (venue : Venue) (nowNs : ℕ) (snap : OrderBookSnapshot) (s : ClientState) :
    s.deliver venue nowNs snap =
      let book := venue.apply (nowNs / 1000000) snap (s.bookOf venue snap.symbol)
      { localBooks := s.localBooks.insert snap.symbol book
        engine :=
          if venue.handsOn snap then (s.engine.updateOrderBook nowNs snap).1 else s.engine
        calls := s.calls ++ callsFor venue (nowNs / 1000000) snap book } := by
  let book := venue.apply (nowNs / 1000000) snap (s.bookOf venue snap.symbol)
  have hbook : (s.emplaceBook venue snap.symbol).changeBook snap.symbol
      (venue.apply (nowNs / 1000000) snap) =
        { s with localBooks := s.localBooks.insert snap.symbol book } := by
    simp only [emplaceBook, book, bookOf]
    cases hlookup : s.localBooks.lookup snap.symbol with
    | none => simp [changeBook, AList.lookup_insert, AList.insert_insert]
    | some book => simp [changeBook, hlookup]
  have hlookup : (s.localBooks.insert snap.symbol book).lookup snap.symbol = some book :=
    AList.lookup_insert s.localBooks
  rw [deliver]
  simp only [hbook, callsFor]
  cases venue.handsOn snap <;> cases hempty : book.getSnapshot.isEmpty <;>
    simp [callDepth, callMessage, hlookup, hempty, book]

/-- A delivery of Coinbase is what `process_event` does with the decoded event. -/
theorem deliver_coinbase {sort : PriceSort} {nowNs : ℕ} {event : CoinbaseEvent}
    {snap : OrderBookSnapshot} (h : coinbaseSnapshot sort (nowNs / 1000000) event = some snap)
    (s : ClientState) :
    ((s.deliver .coinbase nowNs snap).localBooks, (s.deliver .coinbase nowNs snap).calls) =
      let r := CoinbaseWebSocketClient.processEvent sort (nowNs / 1000000) event s.localBooks
      (r.1, s.calls ++ r.2) := by
  rw [deliver_eq, CoinbaseWebSocketClient.processEvent, h]
  have hdepth : (if Venue.coinbase.handsOn snap then
      [CoinbaseWebSocketClient.Callback.depth snap] else []) =
        if snap.isEmpty then [] else [CoinbaseWebSocketClient.Callback.depth snap] := by
    by_cases hempty : snap.isEmpty <;> simp [Venue.handsOn, hempty]
  simp only [callsFor, hdepth]
  rfl

end ClientState

namespace BybitWebSocketClient

/-- What a message is read as, before anything is changed. -/
def readMessage (env : ParserEnv) (j : JsonValue) : Except Stop (Option OrderBookSnapshot) := do
  let op ← stringMember j (bytes "op")
  if op = some (bytes "subscribe") ∨ op = some (bytes "pong") then return none
  else
    match ← stringMember j (bytes "topic") with
    | none => return none
    | some topic =>
      if ¬ bytes "orderbook.50." <:+: topic then return none
      else if ¬ j.contains (bytes "data") ∨ ¬ j.contains (bytes "type") then return none
      else
        let msgType ← orThrow (← j.atKey (bytes "type")).getString
        let data ← j.atKey (bytes "data")
        if ¬ data.contains (bytes "b") ∨ ¬ data.contains (bytes "a") then return none
        else
          let bids ← readLevels env (← data.atKey (bytes "b"))
          let asks ← readLevels env (← data.atKey (bytes "a"))
          return some
            { symbol := topic.drop (bytes "orderbook.50.").length
              exchange := bytes "Bybit"
              timestampMs := env.nowNs / 1000000
              isSnapshot := msgType = bytes "snapshot"
              bids := bids
              asks := asks }

/-- The one part of a message. -/
def parts (env : ParserEnv) (message : Bytes) : Except Stop (List JsonValue) := do
  let j ← orThrow (env.parse message)
  return [j]

theorem parseDepthMessage_eq (env : ParserEnv) (message : Bytes) :
    parseDepthMessage env message =
      commits (parts env message) (readMessage env) (ClientState.deliver .bybit env.nowNs) := by
  rw [parseDepthMessage, parts, commits_bind]
  refine bind_congr fun j => ?_
  have hone : commits (pure [j]) (readMessage env) (ClientState.deliver .bybit env.nowNs) =
      commit (readMessage env j) (ClientState.deliver .bybit env.nowNs) >>= pure := rfl
  rw [hone, bind_pure, readMessage, commit_bind]
  refine bind_congr fun op => ?_
  rw [commit_ite]
  refine ite_congr rfl (fun _ => rfl) fun _ => ?_
  rw [commit_bind]
  refine bind_congr fun topic => ?_
  cases topic with
  | none => rfl
  | some topic =>
    simp only [commit_ite, commit_bind, publish_eq]
    rfl

end BybitWebSocketClient

namespace KrakenWebSocketClient

/-- What an item is read as. -/
def readItem (env : ParserEnv) (x : Bool × JsonValue) : Except Stop (Option OrderBookSnapshot) := do
  match ← stringMember x.2 (bytes "symbol") with
  | none => return none
  | some sym =>
    let bids ← readSide x.2 (bytes "bids")
    let asks ← readSide x.2 (bytes "asks")
    return some
      { symbol := sym
        exchange := bytes "Kraken"
        timestampMs := env.nowNs / 1000000
        isSnapshot := x.1
        bids := env.sort.bids bids
        asks := env.sort.asks asks }

lemma processItem_eq (env : ParserEnv) (snapshot : Bool) (item : JsonValue) :
    processItem env snapshot item =
      commit (readItem env (snapshot, item)) (ClientState.deliver .kraken env.nowNs) := by
  rw [processItem, readItem, commit_bind]
  refine bind_congr fun o => ?_
  cases o with
  | none => rfl
  | some sym =>
    simp only [commit_bind, publish_eq]
    rfl

/-- The items of a message with `is_snap`, none if it is not one of the book channel. -/
def parts (env : ParserEnv) (message : Bytes) : Except Stop (List (Bool × JsonValue)) := do
  let j ← orThrow (env.parse message)
  if memberIs j (bytes "method") (bytes "subscribe") then return []
  else if memberIs j (bytes "channel") (bytes "status") then return []
  else if memberIs j (bytes "method") (bytes "pong") then return []
  else if ¬ memberIs j (bytes "channel") (bytes "book") then return []
  else if ¬ j.contains (bytes "type") ∨ ¬ j.contains (bytes "data") then return []
  else
    let msgType ← orThrow (← j.atKey (bytes "type")).getString
    match isSnap msgType with
    | none => return []
    | some snapshot =>
      let data ← j.atKey (bytes "data")
      if data.isEmpty then return []
      else return data.elements.map fun item => (snapshot, item)

theorem parseDepthMessage_eq (env : ParserEnv) (message : Bytes) :
    parseDepthMessage env message =
      commits (parts env message) (readItem env) (ClientState.deliver .kraken env.nowNs) := by
  rw [parseDepthMessage, parts, commits_bind]
  refine bind_congr fun j => ?_
  simp only [commits_ite]
  refine ite_congr rfl (fun _ => rfl) fun _ => ite_congr rfl (fun _ => rfl) fun _ =>
    ite_congr rfl (fun _ => rfl) fun _ => ite_congr rfl (fun _ => rfl) fun _ =>
    ite_congr rfl (fun _ => rfl) fun _ => ?_
  simp only [commits_bind]
  refine bind_congr fun type => bind_congr fun msgType => ?_
  cases isSnap msgType with
  | none => rfl
  | some snapshot =>
    simp only [commits_bind, commits_ite]
    refine bind_congr fun data => ite_congr rfl (fun _ => rfl) fun _ => ?_
    rw [funext (processItem_eq env snapshot)]
    exact (List.forM_map (m := Program ClientState) (l := data.elements)
      (g := fun item => (snapshot, item))
      (f := fun x => commit (readItem env x) (ClientState.deliver .kraken env.nowNs))).symm

end KrakenWebSocketClient

namespace CoinbaseWebSocketClient

/-- What an event is read as: the first half of `process_event`. -/
def readEvent (env : ParserEnv) (event : JsonValue) : Except Stop (Option OrderBookSnapshot) := do
  if ¬ event.contains (bytes "type") ∨ ¬ event.contains (bytes "product_id") then return none
  else
    let eventType ← orThrow (← event.atKey (bytes "type")).getString
    match isSnap eventType with
    | none => return none
    | some snapshot =>
      if ¬ event.contains (bytes "updates") then return none
      else
        let productId ← orThrow (← event.atKey (bytes "product_id")).getString
        let changes ← readUpdates env (← event.atKey (bytes "updates"))
        return some
          { symbol := productId
            exchange := bytes "Coinbase"
            timestampMs := env.nowNs / 1000000
            isSnapshot := snapshot
            bids := env.sort.bids (onSide .bid changes)
            asks := env.sort.asks (onSide .ask changes) }

lemma processEventJson_eq (env : ParserEnv) (event : JsonValue) :
    processEventJson env event =
      commit (readEvent env event) (ClientState.deliver .coinbase env.nowNs) := by
  rw [processEventJson, readEvent, commit_ite]
  refine ite_congr rfl (fun _ => rfl) fun _ => ?_
  simp only [commit_bind]
  refine bind_congr fun type => bind_congr fun eventType => ?_
  cases isSnap eventType with
  | none => rfl
  | some snapshot =>
    simp only [commit_ite, commit_bind, publish_eq]
    rfl

/-- The events of a message, none if it is not one of the level 2 channel. -/
def parts (env : ParserEnv) (message : Bytes) : Except Stop (List JsonValue) := do
  let j ← orThrow (env.parse message)
  match ← stringMember j (bytes "channel") with
  | none => return []
  | some channel =>
    if channel = bytes "subscriptions" then return []
    else if channel = bytes "heartbeats" then return []
    else if channel = bytes "error" ∨ memberIs j (bytes "type") (bytes "error") then return []
    else if channel ≠ bytes "l2_data" then return []
    else if ¬ j.contains (bytes "events") then return []
    else
      let events ← j.atKey (bytes "events")
      return events.elements

theorem parseDepthMessage_eq (env : ParserEnv) (message : Bytes) :
    parseDepthMessage env message =
      commits (parts env message) (readEvent env) (ClientState.deliver .coinbase env.nowNs) := by
  rw [parseDepthMessage, parts, commits_bind]
  refine bind_congr fun j => ?_
  rw [commits_bind]
  refine bind_congr fun channel => ?_
  cases channel with
  | none => rfl
  | some channel =>
    simp only [commits_ite, commits_bind, funext (processEventJson_eq env)]
    rfl

end CoinbaseWebSocketClient

end TickPlant
