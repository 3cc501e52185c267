/-
# The Binance client

Binance sends the best 20 levels of both sides, again and again: every message is a full book.
The client keeps no books of its own.  It leaves out the levels without quantity, takes the symbol
from the name of the stream, and hands the rest to the depth callback; the ticker is made from the
first levels of the message, which come best first.
-/
import TickPlant.Feed.Parsers
import TickPlant.Report.Chunked

namespace TickPlant.BinanceWebSocketClient

open Lib
open QuestDbDataSource (toLower)

/-! ## The code -/

/-- The two callbacks; `local_books_` is that of the other clients and stays as it is. -/
def deliver (nowNs : ℕ) (snap : OrderBookSnapshot) (s : ClientState) : ClientState :=
  let s := s.callDepth nowNs snap
  if snap.bids ≠ [] ∧ snap.asks ≠ [] then
    let ticker := { CoinbaseWebSocketClient.bboTicker snap.symbol (nowNs / 1000000) snap with
      exchange := bytes "Binance" }
    { s with calls := s.calls ++ [.message ticker] }
  else s

/-- The loop over the levels of one side: a level is read as Bybit's are, and is left out unless it
has a quantity. -/
def readSide (env : ParserEnv) (side : JsonValue) : Except Stop (List PriceLevel) := do
  let levels ← side.elements.mapM (BybitWebSocketClient.readLevel env)
  return levels.filter fun l => 0 < l.quantity

/-- `BinanceWebSocketClient::parse_depth_message`. -/
def parseDepthMessage (env : ParserEnv) (message : Bytes) : Program ClientState Unit := do
  let j ← orThrow (env.parse message)
  if ¬ j.contains (bytes "data") ∨ ¬ j.contains (bytes "stream") then return
  else
    let stream ← orThrow (← j.atKey (bytes "stream")).getString
    if ¬ bytes "@depth" <:+: stream then return
    else
      let sym := upper (stream.takeWhile (· ≠ 64))  -- '@'
      let data ← j.atKey (bytes "data")
      if ¬ data.contains (bytes "bids") ∨ ¬ data.contains (bytes "asks") then return
      else
        let bids ← readSide env (← data.atKey (bytes "bids"))
        let asks ← readSide env (← data.atKey (bytes "asks"))
        modify (deliver env.nowNs
          { symbol := sym
            exchange := bytes "Binance"
            timestampMs := env.nowNs / 1000000
            isSnapshot := true
            bids := bids
            asks := asks })

/-- `BinanceWebSocketClient::symbol_to_stream`. -/
def symbolToStream (symbol : Bytes) : Bytes := symbol.map toLower ++ bytes "@depth20@100ms"

/-! ## The stream of a symbol -/

lemma toUpper_toLower : ∀ c : UInt8, toUpper (toLower c) = toUpper c := by decide +kernel

lemma toLower_eq_at : ∀ c : UInt8, toLower c = 64 ↔ c = 64 := by decide +kernel

/-- The parser finds the symbol of a stream again. -/
lemma symbol_of_stream {symbol : Bytes} (hat : (64 : UInt8) ∉ symbol)
    (hupper : upper symbol = symbol) :
    upper ((symbolToStream symbol).takeWhile (· ≠ 64)) = symbol := by
  have hname : (symbolToStream symbol).takeWhile (· ≠ 64) = symbol.map toLower := by
    rw [symbolToStream, List.takeWhile_append_of_pos]
    · have hsuffix : (bytes "@depth20@100ms").takeWhile (· ≠ 64) = [] := by decide +kernel
      rw [hsuffix, List.append_nil]
    · intro c hc
      obtain ⟨d, hd, rfl⟩ := List.mem_map.mp hc
      simp only [ne_eq, toLower_eq_at, decide_eq_true_eq]
      rintro rfl
      exact hat hd
  rw [hname, upper, List.map_map]
  conv_rhs => rw [← hupper, upper]
  exact List.map_congr_left fun c _ => toUpper_toLower c

/-! ## Reading and callbacks -/

/-- What a message is read as, before the callbacks. -/
def readMessage (env : ParserEnv) (j : JsonValue) : Except Stop (Option OrderBookSnapshot) := do
  if ¬ j.contains (bytes "data") ∨ ¬ j.contains (bytes "stream") then return none
  else
    let stream ← orThrow (← j.atKey (bytes "stream")).getString
    if ¬ bytes "@depth" <:+: stream then return none
    else
      let data ← j.atKey (bytes "data")
      if ¬ data.contains (bytes "bids") ∨ ¬ data.contains (bytes "asks") then return none
      else
        let bids ← readSide env (← data.atKey (bytes "bids"))
        let asks ← readSide env (← data.atKey (bytes "asks"))
        return some
          { symbol := upper (stream.takeWhile (· ≠ 64))
            exchange := bytes "Binance"
            timestampMs := env.nowNs / 1000000
            isSnapshot := true
            bids := bids
            asks := asks }

/-- The one part of a message. -/
def parts (env : ParserEnv) (message : Bytes) : Except Stop (List JsonValue) := do
  let j ← orThrow (env.parse message)
  return [j]

theorem parseDepthMessage_eq (env : ParserEnv) (message : Bytes) :
    parseDepthMessage env message =
      commits (parts env message) (readMessage env) (deliver env.nowNs) := by
  rw [parseDepthMessage, parts, commits_bind]
  refine bind_congr fun j => ?_
  have hone : commits (pure [j]) (readMessage env) (deliver env.nowNs) =
      commit (readMessage env j) (deliver env.nowNs) >>= pure := rfl
  rw [hone, bind_pure, readMessage, commit_ite]
  refine ite_congr rfl (fun _ => rfl) fun _ => ?_
  simp only [commit_ite, commit_bind]
  rfl

/-- The engine gets the batch, and each callback is called at most once. -/
theorem deliver_eq (nowNs : ℕ) (snap : OrderBookSnapshot) (s : ClientState) :
    deliver nowNs snap s =
      { localBooks := s.localBooks
        engine := (s.engine.updateOrderBook nowNs snap).1
        calls := s.calls ++ [.depth snap] ++
          if snap.bids ≠ [] ∧ snap.asks ≠ [] then
            [.message { CoinbaseWebSocketClient.bboTicker snap.symbol (nowNs / 1000000) snap with
              exchange := bytes "Binance" }]
          else [] } := by
  rw [deliver]
  split_ifs
  · rfl
  · rw [List.append_nil]
    rfl

end TickPlant.BinanceWebSocketClient
