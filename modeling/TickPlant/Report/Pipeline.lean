/-
# The report pipeline

`ReportPipeline::run` executes a named report in three phases: every source of the report is
asked whether it can serve fresh data (`resolve`), those that can are asked for it (`fetch`),
and the answers are merged into one JSON text.  A required source that does not resolve ends
the report with an error.

The calls of a phase run concurrently and independently; the call for the `i`-th source of the
report is identified by `i`, so that two calls to one source may be answered differently.  The
hash maps are association lists, read in an arbitrary order of iteration where the code
iterates over them.
-/
import TickPlant.Server.Protocol

namespace TickPlant

/-! ## Types -/

/-- `BboData`: the best bid and offer of one symbol on one exchange. -/
structure BboData where
  bid : ℚ
  ask : ℚ
  mid : ℚ
  spreadBps : ℚ
  timestampMs : ℕ
deriving DecidableEq

/-- `HistoricalStats`: the aggregates of one symbol. -/
structure HistoricalStats where
  avgSpreadBps : ℚ
  minBid : ℚ
  maxAsk : ℚ
  sampleCount : ℕ
deriving DecidableEq

/-- `ResolutionStatus`. -/
inductive ResolutionStatus
  | ok
  | stale
  | unreachable
deriving DecidableEq, Repr

/-- `ResolutionResult`: the outcome of a source's `resolve`. -/
structure ResolutionResult where
  status : ResolutionStatus
  message : Bytes
deriving DecidableEq, Repr

/-- One source's contribution to a report: `live[symbol][exchange]` and
`historical[symbol]`. -/
structure SourceData where
  sourceName : Bytes
  live : AList fun _ : Bytes => AList fun _ : Bytes => BboData
  historical : AList fun _ : Bytes => HistoricalStats

/-- `SourceConfig`: a source as a report names it. -/
structure SourceConfig where
  name : Bytes
  required : Bool
  maxStalenessMs : ℕ
deriving DecidableEq, Repr

/-- `ReportConfig`: a report of `reports.json`. -/
structure ReportConfig where
  name : Bytes
  symbols : List Bytes
  sources : List SourceConfig
deriving DecidableEq, Repr

/-- `DataSource`.  The first argument of its functions identifies the call. -/
structure DataSource where
  resolve : ℕ → List Bytes → ℕ → ResolutionResult
  fetch : ℕ → List Bytes → SourceData

/-- The pipeline at the moment of a call. -/
structure ReportPipeline where
  /-- The reports of `reports.json`, as decoded. -/
  reports : List ReportConfig
  /-- `DataSourceRegistry::get`. -/
  registry : Bytes → Option DataSource
  nowMs : ℕ
  fmtDbl : ℚ → Bytes
  configOrder : IterationOrder (Σ _ : Bytes, ReportConfig)
  exchangeOrder : IterationOrder (Σ _ : Bytes, BboData)

/-! ## Configuration -/

/-- `load_config`: entries without a name are skipped, and a later report replaces an earlier
one of the same name. -/
def loadConfig (reports : List ReportConfig) : AList fun _ : Bytes => ReportConfig :=
  reports.foldl (fun configs cfg =>
    if cfg.name = [] then configs
    else configs.insert cfg.name
      { cfg with sources := cfg.sources.filter fun sc => sc.name ≠ [] }) ∅

/-! ## Rendering -/

/-- Double quotes become single ones. -/
def replaceQuotes (s : Bytes) : Bytes := s.map fun c => if c = 34 then 39 else c

/-- `status_str`. -/
def statusStr : ResolutionStatus → Bytes
  | .ok => bytes "ok"
  | .stale => bytes "stale"
  | .unreachable => bytes "unreachable"

/-- One entry of the resolution summary. -/
def resolutionJson (resolution : AList fun _ : Bytes => ResolutionResult) (sc : SourceConfig) :
    Bytes :=
  bytes "\"" ++ sc.name ++ bytes "\":\x7b\"status\":\"" ++
    (match resolution.lookup sc.name with
      | some r =>
        statusStr r.status ++ bytes "\"" ++
          if r.message = [] then []
          else bytes ",\"message\":\"" ++ replaceQuotes r.message ++ bytes "\""
      | none => bytes "unreachable\"") ++
    bytes "\x7d"

/-- One exchange of the `live` section. -/
def bboJson (fmtDbl : ℚ → Bytes) (ex : Bytes) (bbo : BboData) : Bytes :=
  bytes "\"" ++ ex ++ bytes "\":\x7b" ++ bytes "\"bid\":" ++ fmtDbl bbo.bid ++
    bytes ",\"ask\":" ++ fmtDbl bbo.ask ++ bytes ",\"mid\":" ++ fmtDbl bbo.mid ++
    bytes ",\"spread_bps\":" ++ fmtDbl bbo.spreadBps ++
    bytes ",\"timestamp_ms\":" ++ toText bbo.timestampMs ++ bytes "\x7d"

/-- The entries of the `live` section of a symbol, over all sources. -/
def liveEntries (order : IterationOrder (Σ _ : Bytes, BboData)) (data : List SourceData)
    (sym : Bytes) : List (Σ _ : Bytes, BboData) :=
  data.flatMap fun sd =>
    match sd.live.lookup sym with
    | none => []
    | some m => order.visit m.entries

/-- The historical statistics of a symbol: those of the first source that has some. -/
def historicalOf (data : List SourceData) (sym : Bytes) : Option HistoricalStats :=
  data.findSome? fun sd => sd.historical.lookup sym

/-- The `historical` section. -/
def historicalJson (fmtDbl : ℚ → Bytes) (hs : HistoricalStats) : Bytes :=
  bytes ",\"historical\":\x7b" ++ bytes "\"avg_spread_bps\":" ++ fmtDbl hs.avgSpreadBps ++
    bytes ",\"min_bid\":" ++ fmtDbl hs.minBid ++ bytes ",\"max_ask\":" ++ fmtDbl hs.maxAsk ++
    bytes ",\"sample_count\":" ++ toText hs.sampleCount ++ bytes "\x7d"

/-- One symbol of a report. -/
def symbolJson (fmtDbl : ℚ → Bytes) (order : IterationOrder (Σ _ : Bytes, BboData))
    (data : List SourceData) (sym : Bytes) : Bytes :=
  bytes "\"" ++ sym ++ bytes "\":\x7b" ++ bytes "\"live\":\x7b" ++
    commaList ((liveEntries order data sym).map fun e => bboJson fmtDbl e.1 e.2) ++
    bytes "\x7d" ++
    (match historicalOf data sym with
      | none => []
      | some hs => historicalJson fmtDbl hs) ++
    bytes "\x7d"

namespace ReportPipeline

variable (p : ReportPipeline)

/-- `ReportPipeline::generate_phase`. -/
def generatePhase (cfg : ReportConfig) (resolution : AList fun _ : Bytes => ResolutionResult)
    (data : List SourceData) : Bytes :=
  bytes "\x7b\"status\":\"ok\"" ++ bytes ",\"report\":\"" ++ cfg.name ++ bytes "\"" ++
    bytes ",\"generated_at_ms\":" ++ toText p.nowMs ++
    bytes ",\"resolution\":\x7b" ++ commaList (cfg.sources.map (resolutionJson resolution)) ++
    bytes "\x7d" ++
    bytes ",\"symbols\":\x7b" ++
    commaList (cfg.symbols.map (symbolJson p.fmtDbl p.exchangeOrder data)) ++ bytes "\x7d" ++
    bytes "\x7d\n"

/-! ## The phases -/

/-- The outcome of one source in `resolve_phase`. -/
def resolveSource (cfg : ReportConfig) (sc : SourceConfig) (i : ℕ) : ResolutionResult :=
  match p.registry sc.name with
  | none => ⟨.unreachable, sc.name ++ bytes ": not registered"⟩
  | some src => src.resolve i cfg.symbols sc.maxStalenessMs

/-- `ReportPipeline::resolve_phase`: the outcomes by name, a later one replacing an earlier
one. -/
def resolvePhase (cfg : ReportConfig) : AList fun _ : Bytes => ResolutionResult :=
  cfg.sources.zipIdx.foldl (fun results sc =>
    results.insert sc.1.name (p.resolveSource cfg sc.1 sc.2)) ∅

/-- `ReportPipeline::pipeline_phase`. -/
def pipelinePhase (cfg : ReportConfig) (resolution : AList fun _ : Bytes => ResolutionResult) :
    List SourceData :=
  cfg.sources.zipIdx.filterMap fun sc =>
    match resolution.lookup sc.1.name with
    | none => none
    | some r =>
      if r.status ≠ .ok then none
      else (p.registry sc.1.name).map fun src => src.fetch sc.2 cfg.symbols

/-- What `run` says of a required source that did not resolve. -/
def unavailable (resolution : AList fun _ : Bytes => ResolutionResult) (sc : SourceConfig) :
    Option Bytes :=
  if sc.required = false then none
  else
    let msg := bytes "required source '" ++ sc.name ++ bytes "' unavailable"
    match resolution.lookup sc.name with
    | none => some msg
    | some r =>
      if r.status = .ok then none
      else if r.message = [] then some msg
      else some (msg ++ bytes ": " ++ r.message)

/-- The text `{"status":"error","message":"..."}` of `run`, in which nothing is escaped. -/
def errorText (msg : Bytes) : Bytes :=
  bytes "\x7b\"status\":\"error\",\"message\":\"" ++ msg ++ bytes "\"\x7d\n"

/-- `run`, for a report that is configured. -/
def runConfig (cfg : ReportConfig) : Bytes :=
  let resolution := p.resolvePhase cfg
  match cfg.sources.findSome? (unavailable resolution) with
  | some msg => errorText msg
  | none => p.generatePhase cfg resolution (p.pipelinePhase cfg resolution)

/-- `ReportPipeline::run`. -/
def run (reportName : Bytes) : Bytes :=
  match (loadConfig p.reports).lookup reportName with
  | none => errorText (bytes "unknown report: " ++ reportName)
  | some cfg => p.runConfig cfg

/-- `ReportPipeline::list_reports`. -/
def listReports : Bytes :=
  bytes "\x7b\"status\":\"ok\",\"reports\":[" ++
    commaList ((p.configOrder.visit (loadConfig p.reports).entries).map fun e => jstr e.1) ++
    bytes "]\x7d\n"

lemma errorText_ends (msg : Bytes) : bytes "\n" <:+ errorText msg :=
  List.suffix_append_of_suffix (by decide)

lemma run_ends (reportName : Bytes) : bytes "\n" <:+ p.run reportName := by
  rw [run]
  split
  · exact errorText_ends _
  · rw [runConfig]
    split
    · exact errorText_ends _
    · exact List.suffix_append_of_suffix (by decide)

/-- The pipeline as the query servers use it. -/
def toReports : Reports where
  run := p.run
  listReports := p.listReports
  run_ends := p.run_ends
  listReports_ends := List.suffix_append_of_suffix (by decide)

end ReportPipeline

end TickPlant
