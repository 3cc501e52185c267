/-
# The query protocol

Requests and replies of the query servers: the parsing of a request line, the reads of the
engine that answer it, and the JSON texts.  The three servers have the same `handle_line`;
what it depends on besides the line is collected in `QueryEnv`.  The formatting of a
floating-point number (`%.8g`) and the reports are parameters.

All a server needs to know about `handle_line` is that a reply is never empty; `Service`
packages a handler with this fact, and `queryService` is the one of the code.
-/
import TickPlant.Engine.Arbitrage

namespace TickPlant

/-! ## Requests -/

/-- `RequestType`. -/
inductive RequestType
  | snapshot
  | health
  | report
  | listReports
  | unknown
deriving DecidableEq, Repr

/-- `ParsedRequest`: a request with its arguments. -/
structure ParsedRequest where
  type : RequestType
  symbol : Bytes
  reportName : Bytes
deriving DecidableEq, Repr

/-- Drops the trailing spaces and carriage returns. -/
def stripTrailing (s : Bytes) : Bytes :=
  (s.reverse.dropWhile fun c => c = 13 || c = 32).reverse

/-- `parse_request`. -/
def parseRequest (line : Bytes) : ParsedRequest :=
  let line := stripTrailing line
  let upperLine := upper line
  if upperLine = bytes "HEALTH" then ⟨.health, [], []⟩
  else if upperLine = bytes "LISTREPORTS" then ⟨.listReports, [], []⟩
  else if upperLine.length > 9 ∧ upperLine.take 9 = bytes "SNAPSHOT " then
    ⟨.snapshot, upper (line.drop 9), []⟩
  else if upperLine.length > 7 ∧ upperLine.take 7 = bytes "REPORT " then
    ⟨.report, [], stripTrailing (line.drop 7)⟩
  else ⟨.unknown, [], []⟩

/-! ## Reading the engine -/

namespace ArbitrageEngine

/-- The symbol part of an `exchange:symbol` key. -/
def keySymbol (key : Bytes) : Bytes :=
  match key.findIdx? (· = 58) with
  | some colon => key.drop (colon + 1)
  | none => key

/-- The exchange part of an `exchange:symbol` key. -/
def keyExchange (key : Bytes) : Bytes :=
  match key.findIdx? (· = 58) with
  | some colon => key.take colon
  | none => key

/-- `ArbitrageEngine::get_snapshots`. -/
def getSnapshots (wsOrder fixOrder : IterationOrder (Σ _ : Bytes, OrderBook))
    (canonicalSym : Bytes) (e : ArbitrageEngine) : List OrderBookSnapshot :=
  let ws := (wsOrder.visit e.wsBooks.entries).filter fun x =>
    normalizeSymbol (keySymbol x.1) = canonicalSym
  let fix := (fixOrder.visit e.fixBooks.entries).filter fun x => normalizeSymbol x.1 = canonicalSym
  ((ws ++ fix).map fun x => x.2.getSnapshot).filter fun snap => !snap.isEmpty

/-- `UINT64_MAX`. -/
def uint64Max : ℕ := 2 ^ 64 - 1

/-- One turn of the loops of `get_feed_staleness_ms`. -/
def addStaleness (nowMs : ℕ) (exch : Bytes) (result : AList fun _ : Bytes => ℕ)
    (book : OrderBook) : AList fun _ : Bytes => ℕ :=
  let lu := book.lastUpdateMs
  if lu = 0 then result
  else
    let staleness := if nowMs ≥ lu then nowMs - lu else 0
    -- `result[exch]` creates the entry with value 0
    let cur := (result.lookup exch).getD 0
    result.insert exch (if staleness < cur then staleness else cur)

/-- The exchanges that `get_feed_staleness_ms` always reports, in the order of the reply. -/
def feeds : List Bytes :=
  [bytes "Binance", bytes "Coinbase", bytes "Kraken", bytes "Bybit", bytes "FIX"]

/-- `ArbitrageEngine::get_feed_staleness_ms`. -/
def getFeedStalenessMs (wsOrder fixOrder : IterationOrder (Σ _ : Bytes, OrderBook)) (nowMs : ℕ)
    (e : ArbitrageEngine) : AList fun _ : Bytes => ℕ :=
  let result := feeds.foldl (fun m ex => m.insert ex uint64Max) (∅ : AList fun _ : Bytes => ℕ)
  let result := (wsOrder.visit e.wsBooks.entries).foldl
    (fun m x => addStaleness nowMs (keyExchange x.1) m x.2) result
  (fixOrder.visit e.fixBooks.entries).foldl
    (fun m x => addStaleness nowMs (bytes "FIX") m x.2) result

end ArbitrageEngine

/-! ## Replies -/

/-- `jstr`. -/
def jstr (s : Bytes) : Bytes := bytes "\"" ++ s ++ bytes "\""

/-- `level_pair`. -/
def levelPair (fmtDbl : ℚ → Bytes) (lvl : PriceLevel) : Bytes :=
  bytes "[" ++ fmtDbl lvl.price ++ bytes "," ++ fmtDbl lvl.quantity ++ bytes "]"

/-- The items of a JSON list, separated by commas. -/
def commaList (items : List Bytes) : Bytes := (items.intersperse (bytes ",")).flatten

/-- One book of a `SNAPSHOT` reply. -/
def bookJson (fmtDbl : ℚ → Bytes) (maxLevels : ℕ) (b : OrderBookSnapshot) : Bytes :=
  bytes "\x7b\"exchange\":" ++ jstr b.exchange ++ bytes ",\"symbol\":" ++ jstr b.symbol ++
    bytes ",\"bids\":[" ++ commaList ((b.bids.take maxLevels).map (levelPair fmtDbl)) ++
    bytes "],\"asks\":[" ++ commaList ((b.asks.take maxLevels).map (levelPair fmtDbl)) ++
    bytes "],\"timestamp_ms\":" ++ toText b.timestampMs ++ bytes "\x7d"

/-- `error_response`: double quotes in the message become single ones. -/
def errorResponse (message : Bytes) : Bytes :=
  bytes "\x7b\"status\":\"error\",\"message\":\"" ++
    (message.map fun c => if c = 34 then 39 else c) ++ bytes "\"\x7d\n"

/-- `snapshot_response`. -/
def snapshotResponse (fmtDbl : ℚ → Bytes) (canonicalSym : Bytes)
    (books : List OrderBookSnapshot) : Bytes :=
  if books.isEmpty then errorResponse (bytes "symbol not found: " ++ canonicalSym)
  else
    bytes "\x7b\"status\":\"ok\",\"symbol\":" ++ jstr canonicalSym ++ bytes ",\"books\":[" ++
      commaList (books.map (bookJson fmtDbl 5)) ++ bytes "]\x7d\n"

/-- One feed of a `HEALTH` reply. -/
def feedJson (liveThresholdMs : ℕ) (ex : Bytes) (ms : ℕ) : Bytes :=
  let live := ms ≠ ArbitrageEngine.uint64Max ∧ ms < liveThresholdMs
  bytes "\x7b\"exchange\":" ++ jstr ex ++ bytes ",\"staleness_ms\":" ++
    (if ms = ArbitrageEngine.uint64Max then bytes "-1" else toText ms) ++ bytes ",\"live\":" ++
    (if live then bytes "true" else bytes "false") ++ bytes "\x7d"

/-- `health_response`. -/
def healthResponse (stalenessMs : AList fun _ : Bytes => ℕ) : Bytes :=
  bytes "\x7b\"status\":\"ok\",\"feeds\":[" ++
    commaList (ArbitrageEngine.feeds.filterMap fun ex =>
      (stalenessMs.lookup ex).map (feedJson 2000 ex)) ++ bytes "]\x7d\n"

/-! ## The handler -/

/-- The reports of an attached pipeline.  Every text it returns ends in a newline. -/
structure Reports where
  run : Bytes → Bytes
  listReports : Bytes
  run_ends : ∀ name, bytes "\n" <:+ run name
  listReports_ends : bytes "\n" <:+ listReports

/-- What the reply to a line depends on, at the moment of the call. -/
structure QueryEnv where
  engine : ArbitrageEngine
  nowMs : ℕ
  wsOrder : IterationOrder (Σ _ : Bytes, OrderBook)
  fixOrder : IterationOrder (Σ _ : Bytes, OrderBook)
  fmtDbl : ℚ → Bytes
  pipeline : Option Reports

/-- `handle_line`. -/
def handleLine (env : QueryEnv) (line : Bytes) : Bytes :=
  let req := parseRequest line
  match req.type with
  | .snapshot =>
    snapshotResponse env.fmtDbl req.symbol
      (env.engine.getSnapshots env.wsOrder env.fixOrder req.symbol)
  | .health =>
    healthResponse (env.engine.getFeedStalenessMs env.wsOrder env.fixOrder env.nowMs)
  | .report =>
    match env.pipeline with
    | none => errorResponse (bytes "reporting pipeline not configured")
    | some reports => reports.run req.reportName
  | .listReports =>
    match env.pipeline with
    | none => errorResponse (bytes "reporting pipeline not configured")
    | some reports => reports.listReports
  | .unknown =>
    errorResponse
      (bytes "unknown command — use SNAPSHOT <SYM>, HEALTH, REPORT <name>, or LISTREPORTS")

lemma errorResponse_ends (message : Bytes) : bytes "\n" <:+ errorResponse message :=
  List.suffix_append_of_suffix (by decide)

lemma snapshotResponse_ends (fmtDbl : ℚ → Bytes) (sym : Bytes) (books : List OrderBookSnapshot) :
    bytes "\n" <:+ snapshotResponse fmtDbl sym books := by
  rw [snapshotResponse]
  split
  · exact errorResponse_ends _
  · exact List.suffix_append_of_suffix (by decide)

lemma healthResponse_ends (stalenessMs : AList fun _ : Bytes => ℕ) :
    bytes "\n" <:+ healthResponse stalenessMs :=
  List.suffix_append_of_suffix (by decide)

/-- **Every reply ends in a newline**, whatever the line and the state of the engine. -/
lemma handleLine_ends (env : QueryEnv) (line : Bytes) : bytes "\n" <:+ handleLine env line := by
  rw [handleLine]
  split
  · exact snapshotResponse_ends ..
  · exact healthResponse_ends _
  · split
    · exact errorResponse_ends _
    · rename_i reports _
      exact reports.run_ends _
  · split
    · exact errorResponse_ends _
    · rename_i reports _
      exact reports.listReports_ends
  · exact errorResponse_ends _

/-- A request handler whose replies are never empty.  `E` is what it depends on besides the
line: the state of the world at the moment of the call. -/
structure Service (E : Type*) where
  reply : E → Bytes → Bytes
  reply_ne : ∀ e line, reply e line ≠ []

/-- The handler of the three servers. -/
def queryService : Service QueryEnv where
  reply := handleLine
  reply_ne := by
    intro env line h
    have hends := handleLine_ends env line
    rw [h] at hends
    exact absurd hends (by decide)

/-- A server whose engine has no books and that has no reports. -/
def bareEnv : QueryEnv where
  engine := .new false
  nowMs := 0
  wsOrder := .entries
  fixOrder := .entries
  fmtDbl := fun _ => []
  pipeline := none

end TickPlant
