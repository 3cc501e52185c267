/-
# The messages of the exchanges

What the four exchanges send, in the form that the comments of the clients give: a message carries
batches of levels, each for one symbol, as a full book or as the changes since the last message.
Bybit and Binance send one batch, as pairs of texts; Kraken sends objects with numbers, and leaves
out a side without changes; Coinbase sends one list for both sides.  Members that no client looks
at may be there, in any order.

A message that carries batches is read to its end and delivered batch by batch (`exec_parse`);
other messages (confirmations, heartbeats, texts that do not parse) change nothing
(`exec_parse_silent`).
-/
import TickPlant.Feed.Binance
import TickPlant.Feed.Atomic

namespace TickPlant

open Lib

/-- A report of an exchange on one of its books, with prices and quantities. -/
structure Batch where
  symbol : Bytes
  isSnapshot : Bool
  bids : List (ℚ × ℚ)
  asks : List (ℚ × ℚ)

/-- A level as the clients build it. -/
def toLevel (l : ℚ × ℚ) : PriceLevel := ⟨l.1, l.2, 0⟩

/-- The exchanges with a client. -/
inductive Exchange
  | binance
  | client (venue : Venue)
deriving DecidableEq

namespace Exchange

/-- The name of the exchange. -/
def name : Exchange → Bytes
  | binance => bytes "Binance"
  | client venue => venue.name

/-- `parse_depth_message` of the exchange's client. -/
def parseDepthMessage (env : ParserEnv) (text : Bytes) : Exchange → Program ClientState Unit
  | binance => BinanceWebSocketClient.parseDepthMessage env text
  | client .bybit => BybitWebSocketClient.parseDepthMessage env text
  | client .kraken => KrakenWebSocketClient.parseDepthMessage env text
  | client .coinbase => CoinbaseWebSocketClient.parseDepthMessage env text

/-- What a client does with a batch that it has read. -/
def deliver (nowNs : ℕ) (snap : OrderBookSnapshot) : Exchange → ClientState → ClientState
  | binance => BinanceWebSocketClient.deliver nowNs snap
  | client venue => ClientState.deliver venue nowNs snap

/-- The levels of a side, as the client passes them on. -/
def arrange (sort : List PriceLevel → List PriceLevel) (ls : List (ℚ × ℚ)) :
    Exchange → List PriceLevel
  | binance => (ls.map toLevel).filter fun l => 0 < l.quantity
  | client .bybit => ls.map toLevel
  | client _ => sort (ls.map toLevel)

/-- The snapshot that the client builds from a batch. -/
def snapshot (env : ParserEnv) (x : Exchange) (batch : Batch) : OrderBookSnapshot where
  symbol := batch.symbol
  exchange := x.name
  timestampMs := env.nowNs / 1000000
  isSnapshot := batch.isSnapshot
  bids := x.arrange env.sort.bids batch.bids
  asks := x.arrange env.sort.asks batch.asks

end Exchange

/-! ## Formats -/

/-- A level as a pair of texts. -/
def TextLevel (stod : Bytes → Option ℚ) (item : JsonValue) (l : ℚ × ℚ) : Prop :=
  ∃ price qty rest, item = .array (.string price :: .string qty :: rest) ∧
    stod price = some l.1 ∧ stod qty = some l.2

/-- A side as a list of pairs of texts. -/
def TextSide (stod : Bytes → Option ℚ) (data : JsonValue) (key : Bytes) (ls : List (ℚ × ℚ)) :
    Prop :=
  ∃ items, data.atKey key = .ok (.array items) ∧ List.Forall₂ (TextLevel stod) items ls

namespace BinanceWebSocketClient

/-- `{"stream":"btcusdt@depth20@100ms","data":{"bids":[["65000","0.5"]],"asks":[]}}` -/
structure Carries (stod : Bytes → Option ℚ) (j : JsonValue) (batch : Batch) : Prop where
  symbol : (64 : UInt8) ∉ batch.symbol ∧ upper batch.symbol = batch.symbol
  stream : j.atKey (bytes "stream") = .ok (.string (symbolToStream batch.symbol))
  full : batch.isSnapshot = true
  data : ∃ data, j.atKey (bytes "data") = .ok data ∧
    TextSide stod data (bytes "bids") batch.bids ∧ TextSide stod data (bytes "asks") batch.asks

/-- A message without a stream, such as a confirmation. -/
def Silent (j : JsonValue) : Prop := ¬ j.contains (bytes "stream")

end BinanceWebSocketClient

namespace BybitWebSocketClient

/-- `BybitWebSocketClient::binance_to_bybit_topic`. -/
def binanceToBybitTopic (symbol : Bytes) : Bytes := bytes "orderbook.50." ++ symbol

/-- `{"topic":"orderbook.50.BTCUSDT","type":"delta","data":{"b":[["65000","0"]],"a":[]}}` -/
structure Carries (stod : Bytes → Option ℚ) (j : JsonValue) (batch : Batch) : Prop where
  op : ¬ j.contains (bytes "op")
  topic : j.atKey (bytes "topic") = .ok (.string (binanceToBybitTopic batch.symbol))
  type : j.atKey (bytes "type") =
    .ok (.string (if batch.isSnapshot then bytes "snapshot" else bytes "delta"))
  data : ∃ data, j.atKey (bytes "data") = .ok data ∧
    TextSide stod data (bytes "b") batch.bids ∧ TextSide stod data (bytes "a") batch.asks

/-- A confirmation or a pong. -/
def Silent (j : JsonValue) : Prop :=
  ∃ op, j.atKey (bytes "op") = .ok (.string op) ∧ (op = bytes "subscribe" ∨ op = bytes "pong")

end BybitWebSocketClient

namespace KrakenWebSocketClient

/-- `{"price":65000.0,"qty":0.5}` -/
def NumberLevel (item : JsonValue) (l : ℚ × ℚ) : Prop :=
  ∃ price qty, item.atKey (bytes "price") = .ok price ∧ item.atKey (bytes "qty") = .ok qty ∧
    price.getDouble = some l.1 ∧ qty.getDouble = some l.2

/-- A side of an item; a side without levels may be left out. -/
def NumberSide (item : JsonValue) (key : Bytes) (ls : List (ℚ × ℚ)) : Prop :=
  (¬ item.contains key ∧ ls = []) ∨
    ∃ items, item.atKey key = .ok (.array items) ∧ List.Forall₂ NumberLevel items ls

/-- `{"symbol":"BTC/USD","bids":[{"price":65000.0,"qty":0.5}]}` -/
structure CarriesItem (snapshot : Bool) (item : JsonValue) (batch : Batch) : Prop where
  symbol : item.atKey (bytes "symbol") = .ok (.string batch.symbol)
  isSnapshot : batch.isSnapshot = snapshot
  bids : NumberSide item (bytes "bids") batch.bids
  asks : NumberSide item (bytes "asks") batch.asks

/-- `{"channel":"book","type":"update","data":[...]}` -/
structure Carries (j : JsonValue) (batches : List Batch) : Prop where
  method : ¬ j.contains (bytes "method")
  channel : j.atKey (bytes "channel") = .ok (.string (bytes "book"))
  data : ∃ snapshot items,
    j.atKey (bytes "type") =
      .ok (.string (if snapshot then bytes "snapshot" else bytes "update")) ∧
    j.atKey (bytes "data") = .ok (.array items) ∧
    List.Forall₂ (CarriesItem snapshot) items batches

/-- A message of another channel, or without one. -/
def Silent (j : JsonValue) : Prop := ¬ memberIs j (bytes "channel") (bytes "book")

end KrakenWebSocketClient

namespace CoinbaseWebSocketClient

/-- `{"side":"bid","price_level":"65000","new_quantity":"1.5"}` -/
def ChangeOf (stod : Bytes → Option ℚ) (upd : JsonValue) (c : Side × ℚ × ℚ) : Prop :=
  ∃ price qty, upd.atKey (bytes "side") =
      .ok (.string (if c.1 = .bid then bytes "bid" else bytes "offer")) ∧
    upd.atKey (bytes "price_level") = .ok (.string price) ∧
    upd.atKey (bytes "new_quantity") = .ok (.string qty) ∧
    stod price = some c.2.1 ∧ stod qty = some c.2.2

/-- The levels of one side of a list of changes. -/
def sideOf (side : Side) (changes : List (Side × ℚ × ℚ)) : List (ℚ × ℚ) :=
  (changes.filter fun c => c.1 = side).map Prod.snd

/-- `{"type":"update","product_id":"BTC-USD","updates":[...]}` -/
structure CarriesEvent (stod : Bytes → Option ℚ) (event : JsonValue) (batch : Batch) : Prop where
  type : event.atKey (bytes "type") =
    .ok (.string (if batch.isSnapshot then bytes "snapshot" else bytes "update"))
  productId : event.atKey (bytes "product_id") = .ok (.string batch.symbol)
  updates : ∃ items changes, event.atKey (bytes "updates") = .ok (.array items) ∧
    List.Forall₂ (ChangeOf stod) items changes ∧
    batch.bids = sideOf .bid changes ∧ batch.asks = sideOf .ask changes

/-- `{"channel":"l2_data","events":[...]}` -/
structure Carries (stod : Bytes → Option ℚ) (j : JsonValue) (batches : List Batch) : Prop where
  type : ¬ j.contains (bytes "type")
  channel : j.atKey (bytes "channel") = .ok (.string (bytes "l2_data"))
  events : ∃ items, j.atKey (bytes "events") = .ok (.array items) ∧
    List.Forall₂ (CarriesEvent stod) items batches

/-- A message without a channel, or of another one. -/
def Silent (j : JsonValue) : Prop :=
  ¬ j.contains (bytes "channel") ∨
    ∃ channel, j.atKey (bytes "channel") = .ok (.string channel) ∧ channel ≠ bytes "l2_data"

end CoinbaseWebSocketClient

namespace Exchange

/-- The message carries the batches. -/
def Carries (stod : Bytes → Option ℚ) (j : JsonValue) (batches : List Batch) : Exchange → Prop
  | binance => ∃ batch, batches = [batch] ∧ BinanceWebSocketClient.Carries stod j batch
  | client .bybit => ∃ batch, batches = [batch] ∧ BybitWebSocketClient.Carries stod j batch
  | client .kraken => KrakenWebSocketClient.Carries j batches
  | client .coinbase => CoinbaseWebSocketClient.Carries stod j batches

/-- The message has nothing to do with the books. -/
def Silent (j : JsonValue) : Exchange → Prop
  | binance => BinanceWebSocketClient.Silent j
  | client .bybit => BybitWebSocketClient.Silent j
  | client .kraken => KrakenWebSocketClient.Silent j
  | client .coinbase => CoinbaseWebSocketClient.Silent j

end Exchange

/-! ## Reading what a message carries -/

lemma mapM_of_forall₂ {α β γ : Type} {read : α → Except Stop γ} {R : α → β → Prop} {f : β → γ}
    (hread : ∀ a b, R a b → read a = .ok (f b)) {as : List α} {bs : List β}
    (h : List.Forall₂ R as bs) : as.mapM read = .ok (bs.map f) := by
  rw [mapM_eq_ok, List.forall₂_map_right_iff]
  exact h.imp hread

lemma stringMember_of_atKey {j : JsonValue} {key s : Bytes} (h : j.atKey key = .ok (.string s)) :
    stringMember j key = .ok (some s) := stringMember_eq_some.mpr h

lemma stringMember_of_not_contains {j : JsonValue} {key : Bytes} (h : ¬ j.contains key) :
    stringMember j key = .ok none := stringMember_eq_none.mpr h

lemma memberIs_of_atKey {j : JsonValue} {key s t : Bytes} (h : j.atKey key = .ok (.string s)) :
    memberIs j key t = decide (s = t) := by
  simp [memberIs, h, JsonValue.contains_of_atKey h, JsonValue.equals]

lemma memberIs_of_not_contains {j : JsonValue} {key t : Bytes} (h : ¬ j.contains key) :
    memberIs j key t = false := by
  simp [memberIs, h]

section

variable {env : ParserEnv}

lemma readLevel_of_textLevel {item : JsonValue} {l : ℚ × ℚ} (h : TextLevel env.stod item l) :
    BybitWebSocketClient.readLevel env item = .ok (toLevel l) := by
  obtain ⟨price, qty, rest, rfl, hprice, hqty⟩ := h
  simp only [BybitWebSocketClient.readLevel, JsonValue.atIndex, List.getElem?_cons_zero,
    List.getElem?_cons_succ, JsonValue.getString]
  simp only [orThrow, bind, Except.bind, hprice, hqty]
  rfl

lemma mapM_of_textSide {data : JsonValue} {key : Bytes} {ls : List (ℚ × ℚ)}
    (h : TextSide env.stod data key ls) :
    ∃ side, data.atKey key = .ok side ∧
      side.elements.mapM (BybitWebSocketClient.readLevel env) = .ok (ls.map toLevel) := by
  obtain ⟨items, hitems, hls⟩ := h
  refine ⟨.array items, hitems, ?_⟩
  exact mapM_of_forall₂ (fun _ _ h => readLevel_of_textLevel h) hls

namespace BinanceWebSocketClient

lemma readSide_of_textSide {data : JsonValue} {key : Bytes} {ls : List (ℚ × ℚ)}
    (h : TextSide env.stod data key ls) :
    ∃ side, data.atKey key = .ok side ∧
      readSide env side = .ok ((ls.map toLevel).filter fun l => 0 < l.quantity) := by
  obtain ⟨side, hside, hread⟩ := mapM_of_textSide h
  refine ⟨side, hside, ?_⟩
  rw [readSide, hread]
  rfl

lemma readMessage_of_carries {j : JsonValue} {batch : Batch} (h : Carries env.stod j batch) :
    readMessage env j = .ok (some (Exchange.binance.snapshot env batch)) := by
  obtain ⟨⟨hat, hupper⟩, hstream, hfull, data, hdata, hbids, hasks⟩ := h
  obtain ⟨bids, hb, hbids⟩ := readSide_of_textSide hbids
  obtain ⟨asks, ha, hasks⟩ := readSide_of_textSide hasks
  have hdepth : bytes "@depth" <:+: symbolToStream batch.symbol := by
    refine List.IsInfix.trans ?_ (List.suffix_append _ (bytes "@depth20@100ms")).isInfix
    decide +kernel
  have hmembers : ¬ (¬ j.contains (bytes "data") ∨ ¬ j.contains (bytes "stream")) := by
    simp [JsonValue.contains_of_atKey hdata, JsonValue.contains_of_atKey hstream]
  have hsides : ¬ (¬ data.contains (bytes "bids") ∨ ¬ data.contains (bytes "asks")) := by
    simp [JsonValue.contains_of_atKey hb, JsonValue.contains_of_atKey ha]
  rw [readMessage, if_neg hmembers]
  refine bind_eq_ok.mpr ⟨_, hstream, bind_eq_ok.mpr ⟨_, rfl, ?_⟩⟩
  rw [if_neg (not_not.mpr hdepth)]
  refine bind_eq_ok.mpr ⟨data, hdata, ?_⟩
  rw [if_neg hsides]
  refine bind_eq_ok.mpr ⟨bids, hb, bind_eq_ok.mpr ⟨_, hbids, ?_⟩⟩
  refine bind_eq_ok.mpr ⟨asks, ha, bind_eq_ok.mpr ⟨_, hasks, ?_⟩⟩
  rw [symbol_of_stream hat hupper, Exchange.snapshot, hfull]
  rfl

lemma readMessage_of_silent {j : JsonValue} (h : Silent j) : readMessage env j = .ok none :=
  if_pos (Or.inr h)

end BinanceWebSocketClient

namespace BybitWebSocketClient

lemma readMessage_of_carries {j : JsonValue} {batch : Batch} (h : Carries env.stod j batch) :
    readMessage env j = .ok (some ((Exchange.client .bybit).snapshot env batch)) := by
  obtain ⟨hop, htopic, htype, data, hdata, hbids, hasks⟩ := h
  obtain ⟨bids, hb, hbids⟩ := mapM_of_textSide hbids
  obtain ⟨asks, ha, hasks⟩ := mapM_of_textSide hasks
  have hbook : bytes "orderbook.50." <:+: binanceToBybitTopic batch.symbol :=
    (List.prefix_append _ _).isInfix
  have hmembers : ¬ (¬ j.contains (bytes "data") ∨ ¬ j.contains (bytes "type")) := by
    simp [JsonValue.contains_of_atKey hdata, JsonValue.contains_of_atKey htype]
  have hsides : ¬ (¬ data.contains (bytes "b") ∨ ¬ data.contains (bytes "a")) := by
    simp [JsonValue.contains_of_atKey hb, JsonValue.contains_of_atKey ha]
  have hkind : decide ((if batch.isSnapshot then bytes "snapshot" else bytes "delta") =
      bytes "snapshot") = batch.isSnapshot := by
    cases batch.isSnapshot <;> decide
  rw [readMessage]
  refine bind_eq_ok.mpr ⟨none, stringMember_of_not_contains hop, ?_⟩
  rw [if_neg (by simp)]
  refine bind_eq_ok.mpr ⟨_, stringMember_of_atKey htopic, ?_⟩
  simp only []
  rw [if_neg (not_not.mpr hbook), if_neg hmembers]
  refine bind_eq_ok.mpr ⟨_, htype, bind_eq_ok.mpr ⟨_, rfl, ?_⟩⟩
  refine bind_eq_ok.mpr ⟨data, hdata, ?_⟩
  rw [if_neg hsides]
  refine bind_eq_ok.mpr ⟨bids, hb, bind_eq_ok.mpr ⟨_, hbids, ?_⟩⟩
  refine bind_eq_ok.mpr ⟨asks, ha, bind_eq_ok.mpr ⟨_, hasks, ?_⟩⟩
  rw [hkind, binanceToBybitTopic, List.drop_left]
  rfl

lemma readMessage_of_silent {j : JsonValue} (h : Silent j) : readMessage env j = .ok none := by
  obtain ⟨op, hop, hquiet⟩ := h
  refine bind_eq_ok.mpr ⟨some op, stringMember_of_atKey hop, if_pos ?_⟩
  simpa using hquiet

end BybitWebSocketClient

namespace KrakenWebSocketClient

lemma readLevel_of_numberLevel {item : JsonValue} {l : ℚ × ℚ} (h : NumberLevel item l) :
    readLevel item = .ok (toLevel l) := by
  obtain ⟨price, qty, hprice, hqty, hp, hq⟩ := h
  refine bind_eq_ok.mpr ⟨price, hprice, bind_eq_ok.mpr ⟨l.1, orThrow_eq_ok.mpr hp, ?_⟩⟩
  exact bind_eq_ok.mpr ⟨qty, hqty, bind_eq_ok.mpr ⟨l.2, orThrow_eq_ok.mpr hq, rfl⟩⟩

lemma readSide_of_numberSide {item : JsonValue} {key : Bytes} {ls : List (ℚ × ℚ)}
    (h : NumberSide item key ls) : readSide item key = .ok (ls.map toLevel) := by
  obtain ⟨hkey, rfl⟩ | ⟨items, hitems, hls⟩ := h
  · exact if_neg hkey
  · rw [readSide, if_pos (JsonValue.contains_of_atKey hitems)]
    exact bind_eq_ok.mpr ⟨_, hitems, mapM_of_forall₂ (fun _ _ h => readLevel_of_numberLevel h) hls⟩

lemma readItem_of_carriesItem {snapshot : Bool} {item : JsonValue} {batch : Batch}
    (h : CarriesItem snapshot item batch) :
    readItem env (snapshot, item) = .ok (some ((Exchange.client .kraken).snapshot env batch)) := by
  obtain ⟨hsymbol, rfl, hbids, hasks⟩ := h
  refine bind_eq_ok.mpr ⟨_, stringMember_of_atKey hsymbol, ?_⟩
  refine bind_eq_ok.mpr ⟨_, readSide_of_numberSide hbids, ?_⟩
  exact bind_eq_ok.mpr ⟨_, readSide_of_numberSide hasks, rfl⟩

lemma parts_of_carries {message : Bytes} {j : JsonValue} {batches : List Batch}
    (hparse : env.parse message = some j) (h : Carries j batches) :
    ∃ xs, parts env message = .ok xs ∧
      List.Forall₂ (fun x batch => CarriesItem x.1 x.2 batch) xs batches := by
  obtain ⟨hmethod, hchannel, snapshot, items, htype, hdata, hitems⟩ := h
  have hsnap : isSnap (if snapshot then bytes "snapshot" else bytes "update") = some snapshot := by
    cases snapshot <;> decide
  have hmembers : ¬ (¬ j.contains (bytes "type") ∨ ¬ j.contains (bytes "data")) := by
    simp [JsonValue.contains_of_atKey hdata, JsonValue.contains_of_atKey htype]
  have hbook : memberIs j (bytes "channel") (bytes "book") = true := by
    rw [memberIs_of_atKey hchannel]
    decide
  have hstatus : memberIs j (bytes "channel") (bytes "status") = false := by
    rw [memberIs_of_atKey hchannel]
    decide
  refine ⟨items.map fun item => (snapshot, item), ?_, ?_⟩
  · refine bind_eq_ok.mpr ⟨j, orThrow_eq_ok.mpr hparse, ?_⟩
    rw [memberIs_of_not_contains hmethod, memberIs_of_not_contains hmethod, hstatus, hbook,
      if_neg (by simp), if_neg (by simp), if_neg (by simp), if_neg (by simp), if_neg hmembers]
    refine bind_eq_ok.mpr ⟨_, htype, bind_eq_ok.mpr ⟨_, rfl, ?_⟩⟩
    rw [hsnap]
    refine bind_eq_ok.mpr ⟨_, hdata, ?_⟩
    cases items with
    | nil => rfl
    | cons item items => rfl
  · rw [List.forall₂_map_left_iff]
    exact hitems

lemma parts_of_silent {message : Bytes} {j : JsonValue} (hparse : env.parse message = some j)
    (h : Silent j) : parts env message = .ok [] := by
  refine bind_eq_ok.mpr ⟨j, orThrow_eq_ok.mpr hparse, ?_⟩
  -- each way out before the test for the channel leaves nothing either
  split_ifs <;> first | rfl | contradiction

end KrakenWebSocketClient

namespace CoinbaseWebSocketClient

lemma readUpdate_of_changeOf {upd : JsonValue} {c : Side × ℚ × ℚ}
    (h : ChangeOf env.stod upd c) : readUpdate env upd = .ok (some (c.1, toLevel c.2)) := by
  obtain ⟨price, qty, hside, hprice, hqty, hp, hq⟩ := h
  have hmembers : ¬ (¬ upd.contains (bytes "side") ∨ ¬ upd.contains (bytes "price_level") ∨
      ¬ upd.contains (bytes "new_quantity")) := by
    simp [JsonValue.contains_of_atKey hside, JsonValue.contains_of_atKey hprice,
      JsonValue.contains_of_atKey hqty]
  rw [readUpdate, if_neg hmembers]
  refine bind_eq_ok.mpr ⟨_, hprice, bind_eq_ok.mpr ⟨_, rfl, ?_⟩⟩
  refine bind_eq_ok.mpr ⟨_, orThrow_eq_ok.mpr hp, ?_⟩
  refine bind_eq_ok.mpr ⟨_, hqty, bind_eq_ok.mpr ⟨_, rfl, ?_⟩⟩
  refine bind_eq_ok.mpr ⟨_, orThrow_eq_ok.mpr hq, ?_⟩
  refine bind_eq_ok.mpr ⟨_, hside, bind_eq_ok.mpr ⟨_, rfl, ?_⟩⟩
  obtain ⟨side, l⟩ := c
  cases side with
  | bid => exact if_pos rfl
  | ask =>
    have hoffer : bytes "offer" ≠ bytes "bid" := by decide
    exact (if_neg hoffer).trans (if_pos rfl)

lemma onSide_changes (side : Side) (changes : List (Side × ℚ × ℚ)) :
    onSide side (changes.map fun c => (c.1, toLevel c.2)) = (sideOf side changes).map toLevel := by
  induction changes with
  | nil => rfl
  | cons c changes ih =>
    rw [onSide, sideOf] at *
    by_cases hc : c.1 = side <;> simp_all

lemma readEvent_of_carriesEvent {event : JsonValue} {batch : Batch}
    (h : CarriesEvent env.stod event batch) :
    readEvent env event = .ok (some ((Exchange.client .coinbase).snapshot env batch)) := by
  obtain ⟨htype, hproduct, items, changes, hitems, hchanges, hbids, hasks⟩ := h
  have hsnap : isSnap (if batch.isSnapshot then bytes "snapshot" else bytes "update") =
      some batch.isSnapshot := by
    cases batch.isSnapshot <;> decide
  have hmembers : ¬ (¬ event.contains (bytes "type") ∨ ¬ event.contains (bytes "product_id")) := by
    simp [JsonValue.contains_of_atKey htype, JsonValue.contains_of_atKey hproduct]
  have hupdates : readUpdates env (.array items) =
      .ok (changes.map fun c => (c.1, toLevel c.2)) := by
    have hread := mapM_of_forall₂ (fun _ _ h => readUpdate_of_changeOf h) hchanges
    have hall : (changes.map fun c => some (c.1, toLevel c.2)).reduceOption =
        changes.map fun c => (c.1, toLevel c.2) := by
      simp [List.reduceOption, List.filterMap_map]
    exact bind_eq_ok.mpr ⟨_, hread, congrArg Except.ok hall⟩
  rw [readEvent, if_neg hmembers]
  refine bind_eq_ok.mpr ⟨_, htype, bind_eq_ok.mpr ⟨_, rfl, ?_⟩⟩
  rw [hsnap]
  simp only []
  rw [if_neg (not_not.mpr (JsonValue.contains_of_atKey hitems))]
  refine bind_eq_ok.mpr ⟨_, hproduct, bind_eq_ok.mpr ⟨_, rfl, ?_⟩⟩
  refine bind_eq_ok.mpr ⟨_, hitems, bind_eq_ok.mpr ⟨_, hupdates, ?_⟩⟩
  rw [onSide_changes, onSide_changes, ← hbids, ← hasks]
  rfl

lemma parts_of_carries {message : Bytes} {j : JsonValue} {batches : List Batch}
    (hparse : env.parse message = some j) (h : Carries env.stod j batches) :
    ∃ xs, parts env message = .ok xs ∧ List.Forall₂ (CarriesEvent env.stod) xs batches := by
  obtain ⟨htype, hchannel, items, hitems, hevents⟩ := h
  refine ⟨items, ?_, hevents⟩
  refine bind_eq_ok.mpr ⟨j, orThrow_eq_ok.mpr hparse, ?_⟩
  refine bind_eq_ok.mpr ⟨_, stringMember_of_atKey hchannel, ?_⟩
  simp only []
  rw [if_neg (by decide), if_neg (by decide), memberIs_of_not_contains htype,
    if_neg (by decide), if_neg (by simp),
    if_neg (not_not.mpr (JsonValue.contains_of_atKey hitems))]
  exact bind_eq_ok.mpr ⟨_, hitems, rfl⟩

lemma parts_of_silent {message : Bytes} {j : JsonValue} (hparse : env.parse message = some j)
    (h : Silent j) : parts env message = .ok [] := by
  refine bind_eq_ok.mpr ⟨j, orThrow_eq_ok.mpr hparse, ?_⟩
  obtain hnone | ⟨channel, hchannel, hne⟩ := h
  · exact bind_eq_ok.mpr ⟨none, stringMember_of_not_contains hnone, rfl⟩
  · refine bind_eq_ok.mpr ⟨some channel, stringMember_of_atKey hchannel, ?_⟩
    simp only []
    split_ifs <;> rfl

end CoinbaseWebSocketClient

end

/-! ## What a message does -/

/-- Parts that are all read are all delivered. -/
lemma exec_commits_ok {σ α β : Type} {parts : Except Stop (List α)} {xs : List α} {bs : List β}
    {read : α → Except Stop (Option β)} (apply : β → σ → σ) (hparts : parts = .ok xs)
    (hread : List.Forall₂ (fun x b => read x = .ok (some b)) xs bs) (s : σ) :
    exec (commits parts read apply) s = (.ok (), bs.foldl (fun s b => apply b s) s) := by
  have hreads : List.Forall₂ (fun x b => read x = .ok b) xs (bs.map some) :=
    List.forall₂_map_right_iff.mpr hread
  have hbs : (bs.map some).reduceOption = bs := by simp [List.reduceOption]
  rw [hparts, ← hbs]
  exact exec_forM_ok hreads s

/-- Parts in which there is nothing to do. -/
lemma exec_commits_none {σ α β : Type} {parts : Except Stop (List α)} {xs : List α}
    {read : α → Except Stop (Option β)} (apply : β → σ → σ) (hparts : parts = .ok xs)
    (hread : ∀ x ∈ xs, read x = .ok none) (s : σ) :
    exec (commits parts read apply) s = (.ok (), s) := by
  have hreads : List.Forall₂ (fun x b => read x = .ok b) xs (xs.map fun _ => none) := by
    rw [List.forall₂_map_right_iff, List.forall₂_same]
    exact hread
  have hnone : (xs.map fun _ => (none : Option β)).reduceOption = [] := by
    simp [List.reduceOption]
  have hexec : exec (commits parts read apply) s =
      (.ok (), ([] : List β).foldl (fun s b => apply b s) s) := by
    rw [hparts, ← hnone]
    exact exec_forM_ok hreads s
  exact hexec

namespace Exchange

variable {env : ParserEnv} {text : Bytes} {j : JsonValue}

/-- **A message is delivered batch by batch.** -/
theorem exec_parse (x : Exchange) {batches : List Batch} (hparse : env.parse text = some j)
    (h : x.Carries env.stod j batches) (s : ClientState) :
    exec (x.parseDepthMessage env text) s =
      (.ok (), (batches.map (x.snapshot env)).foldl
        (fun s snap => x.deliver env.nowNs snap s) s) := by
  cases x with
  | binance =>
    obtain ⟨batch, rfl, h⟩ := h
    rw [parseDepthMessage, BinanceWebSocketClient.parseDepthMessage_eq]
    refine exec_commits_ok _ (bind_eq_ok.mpr ⟨j, orThrow_eq_ok.mpr hparse, rfl⟩) ?_ s
    exact .cons (BinanceWebSocketClient.readMessage_of_carries h) .nil
  | client venue =>
    cases venue with
    | bybit =>
      obtain ⟨batch, rfl, h⟩ := h
      rw [parseDepthMessage, BybitWebSocketClient.parseDepthMessage_eq]
      refine exec_commits_ok _ (bind_eq_ok.mpr ⟨j, orThrow_eq_ok.mpr hparse, rfl⟩) ?_ s
      exact .cons (BybitWebSocketClient.readMessage_of_carries h) .nil
    | kraken =>
      obtain ⟨xs, hparts, hxs⟩ := KrakenWebSocketClient.parts_of_carries hparse h
      rw [parseDepthMessage, KrakenWebSocketClient.parseDepthMessage_eq]
      refine exec_commits_ok _ hparts (List.forall₂_map_right_iff.mpr ?_) s
      exact hxs.imp fun _ _ h => KrakenWebSocketClient.readItem_of_carriesItem h
    | coinbase =>
      obtain ⟨xs, hparts, hxs⟩ := CoinbaseWebSocketClient.parts_of_carries hparse h
      rw [parseDepthMessage, CoinbaseWebSocketClient.parseDepthMessage_eq]
      refine exec_commits_ok _ hparts (List.forall₂_map_right_iff.mpr ?_) s
      exact hxs.imp fun _ _ h => CoinbaseWebSocketClient.readEvent_of_carriesEvent h

lemma exec_parse_malformed (x : Exchange) (hparse : env.parse text = none) (s : ClientState) :
    exec (x.parseDepthMessage env text) s = (.error .exception, s) := by
  have hthrow : orThrow (env.parse text) = .error .exception := by rw [hparse]; rfl
  cases x with
  | binance =>
    rw [parseDepthMessage, BinanceWebSocketClient.parseDepthMessage, hthrow]
    rfl
  | client venue =>
    cases venue with
    | bybit =>
      rw [parseDepthMessage, BybitWebSocketClient.parseDepthMessage, hthrow]
      rfl
    | kraken =>
      rw [parseDepthMessage, KrakenWebSocketClient.parseDepthMessage, hthrow]
      rfl
    | coinbase =>
      rw [parseDepthMessage, CoinbaseWebSocketClient.parseDepthMessage, hthrow]
      rfl

/-- **Other messages change nothing.** -/
theorem exec_parse_silent (x : Exchange) (hparse : env.parse text = some j) (h : x.Silent j)
    (s : ClientState) : exec (x.parseDepthMessage env text) s = (.ok (), s) := by
  have hj : orThrow (env.parse text) = .ok j := orThrow_eq_ok.mpr hparse
  cases x with
  | binance =>
    rw [parseDepthMessage, BinanceWebSocketClient.parseDepthMessage_eq]
    refine exec_commits_none _ (bind_eq_ok.mpr ⟨j, hj, rfl⟩) ?_ s
    simp [BinanceWebSocketClient.readMessage_of_silent h]
  | client venue =>
    cases venue with
    | bybit =>
      rw [parseDepthMessage, BybitWebSocketClient.parseDepthMessage_eq]
      refine exec_commits_none _ (bind_eq_ok.mpr ⟨j, hj, rfl⟩) ?_ s
      simp [BybitWebSocketClient.readMessage_of_silent h]
    | kraken =>
      rw [parseDepthMessage, KrakenWebSocketClient.parseDepthMessage_eq]
      exact exec_commits_none _ (KrakenWebSocketClient.parts_of_silent hparse h) (by simp) s
    | coinbase =>
      rw [parseDepthMessage, CoinbaseWebSocketClient.parseDepthMessage_eq]
      exact exec_commits_none _ (CoinbaseWebSocketClient.parts_of_silent hparse h) (by simp) s

end Exchange

end TickPlant
