/-
# The replies as documents

Every reply of `handle_line` is the compact text of a document, followed by a newline.  This
file collects the documents of all replies in one function, `replyDoc`, and says which names
and messages they are made of: names of the engine and of the configuration, texts of numbers,
and what is echoed, from the request or from the sources of a report.
-/
import TickPlant.Report.Document

namespace TickPlant

open Lib

/-! ## The replies of the query protocol -/

/-- The document of an error. -/
def errorDoc (message : Bytes) : Json :=
  .obj [(bytes "status", .str (bytes "error")), (bytes "message", .str message)]

/-- The document of a price level. -/
def levelDoc (fmtDbl : ℚ → Bytes) (lvl : PriceLevel) : Json :=
  .arr [.atom (fmtDbl lvl.price), .atom (fmtDbl lvl.quantity)]

/-- The document of a book. -/
def bookDoc (fmtDbl : ℚ → Bytes) (maxLevels : ℕ) (b : OrderBookSnapshot) : Json :=
  .obj [(bytes "exchange", .str b.exchange), (bytes "symbol", .str b.symbol),
    (bytes "bids", .arr ((b.bids.take maxLevels).map (levelDoc fmtDbl))),
    (bytes "asks", .arr ((b.asks.take maxLevels).map (levelDoc fmtDbl))),
    (bytes "timestamp_ms", .atom (toText b.timestampMs))]

/-- The document of a `SNAPSHOT` reply. -/
def snapshotDoc (fmtDbl : ℚ → Bytes) (canonicalSym : Bytes) (books : List OrderBookSnapshot) :
    Json :=
  if books.isEmpty then errorDoc (replaceQuotes (bytes "symbol not found: " ++ canonicalSym))
  else
    .obj [(bytes "status", .str (bytes "ok")), (bytes "symbol", .str canonicalSym),
      (bytes "books", .arr (books.map (bookDoc fmtDbl 5)))]

/-- The document of a feed. -/
def feedDoc (liveThresholdMs : ℕ) (ex : Bytes) (ms : ℕ) : Json :=
  .obj [(bytes "exchange", .str ex),
    (bytes "staleness_ms",
      .atom (if ms = ArbitrageEngine.uint64Max then bytes "-1" else toText ms)),
    (bytes "live",
      .atom (if ms ≠ ArbitrageEngine.uint64Max ∧ ms < liveThresholdMs then bytes "true"
        else bytes "false"))]

/-- The document of a `HEALTH` reply. -/
def healthDoc (stalenessMs : AList fun _ : Bytes => ℕ) : Json :=
  .obj [(bytes "status", .str (bytes "ok")),
    (bytes "feeds", .arr (ArbitrageEngine.feeds.filterMap fun ex =>
      (stalenessMs.lookup ex).map (feedDoc 2000 ex)))]

/-- The document of `list_reports`. -/
def ReportPipeline.listDoc (p : ReportPipeline) : Json :=
  .obj [(bytes "status", .str (bytes "ok")),
    (bytes "reports",
      .arr ((p.configOrder.visit (loadConfig p.reports).entries).map fun e => .str e.1))]

/-- The document of a configured report. -/
def ReportPipeline.runConfigDoc (p : ReportPipeline) (cfg : ReportConfig) : Json :=
  match cfg.sources.findSome? (unavailable (p.resolvePhase cfg)) with
  | some msg => errorDoc msg
  | none =>
    p.reportDoc cfg (p.resolvePhase cfg) (p.pipelinePhase cfg (p.resolvePhase cfg))

/-- The document of `run`. -/
def ReportPipeline.runDoc (p : ReportPipeline) (reportName : Bytes) : Json :=
  match (loadConfig p.reports).lookup reportName with
  | none => errorDoc (bytes "unknown report: " ++ reportName)
  | some cfg => p.runConfigDoc cfg

/-- The state of the world, with a pipeline attached to the server or none. -/
def QueryEnv.attach (env : QueryEnv) (pipeline : Option ReportPipeline) : QueryEnv :=
  { env with pipeline := pipeline.map ReportPipeline.toReports }

/-- The document of the reply to a line. -/
def replyDoc (env : QueryEnv) (pipeline : Option ReportPipeline) (line : Bytes) : Json :=
  let req := parseRequest line
  match req.type with
  | .snapshot =>
    snapshotDoc env.fmtDbl req.symbol
      (env.engine.getSnapshots env.wsOrder env.fixOrder req.symbol)
  | .health => healthDoc (env.engine.getFeedStalenessMs env.wsOrder env.fixOrder env.nowMs)
  | .report =>
    match pipeline with
    | none => errorDoc (bytes "reporting pipeline not configured")
    | some p => p.runDoc req.reportName
  | .listReports =>
    match pipeline with
    | none => errorDoc (bytes "reporting pipeline not configured")
    | some p => p.listDoc
  | .unknown =>
    errorDoc (bytes "unknown command — use SNAPSHOT <SYM>, HEALTH, REPORT <name>, or LISTREPORTS")

/-! ## The texts of the documents -/

lemma errorText_eq (message : Bytes) :
    ReportPipeline.errorText message = (errorDoc message).render ++ bytes "\n" := by
  rw [errorDoc, render_obj]
  simp only [ReportPipeline.errorText, List.map_cons, List.map_nil, commaJoin, memberText, quote,
    Json.render, List.append_assoc, List.cons_append, List.nil_append]
  rfl

lemma errorResponse_eq (message : Bytes) :
    errorResponse message = (errorDoc (replaceQuotes message)).render ++ bytes "\n" :=
  errorText_eq (replaceQuotes message)

lemma levelPair_eq (fmtDbl : ℚ → Bytes) (lvl : PriceLevel) :
    levelPair fmtDbl lvl = (levelDoc fmtDbl lvl).render := by
  simp only [levelPair, levelDoc, Json.render, Json.renderItems, commaJoin, List.append_assoc]
  rfl

/-- The text of an array whose items are known. -/
lemma render_arr {α : Type*} (l : List α) (doc : α → Json) (text : α → Bytes)
    (h : ∀ x, text x = (doc x).render) :
    (Json.arr (l.map doc)).render = 91 :: (commaJoin (l.map text) ++ [93]) := by
  rw [Json.render, Json.renderItems_eq, List.map_map]
  congr 3
  exact List.map_congr_left fun x _ => (h x).symm

lemma bookJson_eq (fmtDbl : ℚ → Bytes) (maxLevels : ℕ) (b : OrderBookSnapshot) :
    bookJson fmtDbl maxLevels b = (bookDoc fmtDbl maxLevels b).render := by
  rw [bookDoc, render_obj]
  simp only [bookJson, jstr_eq, commaList_eq, List.map_cons, List.map_nil, commaJoin, memberText,
    quote, render_arr _ _ _ (levelPair_eq fmtDbl)]
  simp only [Json.render, quote, List.append_assoc, List.cons_append, List.nil_append]
  rfl

lemma snapshotResponse_eq (fmtDbl : ℚ → Bytes) (canonicalSym : Bytes)
    (books : List OrderBookSnapshot) :
    snapshotResponse fmtDbl canonicalSym books =
      (snapshotDoc fmtDbl canonicalSym books).render ++ bytes "\n" := by
  rw [snapshotResponse, snapshotDoc]
  split
  · exact errorResponse_eq _
  · rw [render_obj]
    simp only [jstr_eq, commaList_eq, List.map_cons, List.map_nil, commaJoin, memberText, quote,
      render_arr _ _ _ (bookJson_eq fmtDbl 5)]
    simp only [Json.render, quote, List.append_assoc, List.cons_append, List.nil_append]
    rfl

lemma feedJson_eq (liveThresholdMs : ℕ) (ex : Bytes) (ms : ℕ) :
    feedJson liveThresholdMs ex ms = (feedDoc liveThresholdMs ex ms).render := by
  rw [feedDoc, render_obj]
  simp only [feedJson, jstr_eq, List.map_cons, List.map_nil, commaJoin, memberText, quote,
    Json.render, List.append_assoc, List.cons_append, List.nil_append]
  rfl

lemma healthResponse_eq (stalenessMs : AList fun _ : Bytes => ℕ) :
    healthResponse stalenessMs = (healthDoc stalenessMs).render ++ bytes "\n" := by
  have hfeeds : ArbitrageEngine.feeds.filterMap (fun ex =>
      (stalenessMs.lookup ex).map (feedJson 2000 ex)) =
      (ArbitrageEngine.feeds.filterMap fun ex =>
        (stalenessMs.lookup ex).map (feedDoc 2000 ex)).map Json.render := by
    rw [List.map_filterMap]
    refine List.filterMap_congr fun ex _ => ?_
    rw [Option.map_map]
    exact congrArg (fun f => (stalenessMs.lookup ex).map f)
      (funext fun ms => feedJson_eq 2000 ex ms)
  rw [healthDoc, render_obj]
  simp only [healthResponse, commaList_eq, hfeeds, List.map_cons, List.map_nil, commaJoin,
    memberText, quote, Json.render, Json.renderItems_eq, List.append_assoc, List.cons_append,
    List.nil_append]
  rfl

namespace ReportPipeline

lemma listReports_eq (p : ReportPipeline) : p.listReports = p.listDoc.render ++ bytes "\n" := by
  have hitems : (p.configOrder.visit (loadConfig p.reports).entries).map (fun e => jstr e.1) =
      ((p.configOrder.visit (loadConfig p.reports).entries).map
        fun e => Json.str e.1).map Json.render := by
    rw [List.map_map]
    exact List.map_congr_left fun e _ => jstr_eq e.1
  rw [listDoc, render_obj]
  simp only [listReports, commaList_eq, hitems, List.map_cons, List.map_nil, commaJoin,
    memberText, quote, Json.render, Json.renderItems_eq, List.append_assoc, List.cons_append,
    List.nil_append]
  rfl

lemma runConfig_eq (p : ReportPipeline) (cfg : ReportConfig) :
    p.runConfig cfg = (p.runConfigDoc cfg).render ++ bytes "\n" := by
  rw [runConfig, runConfigDoc]
  cases cfg.sources.findSome? (unavailable (p.resolvePhase cfg)) with
  | some msg => exact errorText_eq msg
  | none => exact p.generatePhase_eq ..

lemma run_eq (p : ReportPipeline) (reportName : Bytes) :
    p.run reportName = (p.runDoc reportName).render ++ bytes "\n" := by
  rw [run, runDoc]
  cases (loadConfig p.reports).lookup reportName with
  | none => exact errorText_eq _
  | some cfg => exact p.runConfig_eq cfg

end ReportPipeline

/-- The reply to a line is the text of its document. -/
lemma handleLine_eq (env : QueryEnv) (pipeline : Option ReportPipeline) (line : Bytes) :
    handleLine (env.attach pipeline) line =
      (replyDoc env pipeline line).render ++ bytes "\n" := by
  -- the fixed messages have no quotes
  have hnone : errorResponse (bytes "reporting pipeline not configured") =
      (errorDoc (bytes "reporting pipeline not configured")).render ++ bytes "\n" := by
    rw [errorResponse_eq]
    rfl
  simp only [handleLine, replyDoc]
  cases (parseRequest line).type with
  | snapshot => exact snapshotResponse_eq ..
  | health => exact healthResponse_eq _
  | report =>
    cases pipeline with
    | none => exact hnone
    | some p => exact p.run_eq _
  | listReports =>
    cases pipeline with
    | none => exact hnone
    | some p => exact p.listReports_eq
  | unknown =>
    show errorResponse _ = _
    rw [errorResponse_eq]
    rfl

end TickPlant
