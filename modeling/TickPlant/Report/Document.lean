/-
# The documents behind the replies

The replies are built as strings, piece by piece.  This file says of each of them which JSON
document it is meant to be: the text is the compact text of that document, with the names and
messages put between the quotes as they are.
-/
import TickPlant.Lib.Json
import TickPlant.Report.Pipeline

namespace TickPlant

open Lib

/-- A comma-separated list. -/
lemma commaList_eq (items : List Bytes) : commaList items = commaJoin items := by
  have hcomma : bytes "," = [44] := by decide
  rw [commaList, hcomma]
  induction items with
  | nil => rfl
  | cons t rest ih =>
    cases rest with
    | nil => simp [commaJoin]
    | cons u rest => simp [commaJoin, ← ih]

lemma jstr_eq (s : Bytes) : jstr s = quote s := by
  have hq : bytes "\"" = [34] := by decide
  simp [jstr, quote, hq]

/-! ## Reports -/

/-- The document of a BBO. -/
def bboDoc (fmtDbl : ℚ → Bytes) (bbo : BboData) : Json :=
  .obj [(bytes "bid", .atom (fmtDbl bbo.bid)), (bytes "ask", .atom (fmtDbl bbo.ask)),
    (bytes "mid", .atom (fmtDbl bbo.mid)), (bytes "spread_bps", .atom (fmtDbl bbo.spreadBps)),
    (bytes "timestamp_ms", .atom (toText bbo.timestampMs))]

/-- The document of the historical statistics. -/
def historicalDoc (fmtDbl : ℚ → Bytes) (hs : HistoricalStats) : Json :=
  .obj [(bytes "avg_spread_bps", .atom (fmtDbl hs.avgSpreadBps)),
    (bytes "min_bid", .atom (fmtDbl hs.minBid)), (bytes "max_ask", .atom (fmtDbl hs.maxAsk)),
    (bytes "sample_count", .atom (toText hs.sampleCount))]

/-- The document of one symbol. -/
def symbolDoc (fmtDbl : ℚ → Bytes) (order : IterationOrder (Σ _ : Bytes, BboData))
    (data : List SourceData) (sym : Bytes) : Json :=
  .obj ((bytes "live", .obj ((liveEntries order data sym).map fun e => (e.1, bboDoc fmtDbl e.2))) ::
    ((historicalOf data sym).map fun hs =>
      (bytes "historical", historicalDoc fmtDbl hs)).toList)

/-- The document of one entry of the resolution summary. -/
def resolutionDoc (resolution : AList fun _ : Bytes => ResolutionResult) (sc : SourceConfig) :
    Json :=
  .obj (match resolution.lookup sc.name with
    | some r => (bytes "status", .str (statusStr r.status)) ::
        if r.message = [] then [] else [(bytes "message", .str (replaceQuotes r.message))]
    | none => [(bytes "status", .str (bytes "unreachable"))])

/-- The document of a report. -/
def ReportPipeline.reportDoc (p : ReportPipeline) (cfg : ReportConfig)
    (resolution : AList fun _ : Bytes => ResolutionResult) (data : List SourceData) : Json :=
  .obj [(bytes "status", .str (bytes "ok")), (bytes "report", .str cfg.name),
    (bytes "generated_at_ms", .atom (toText p.nowMs)),
    (bytes "resolution",
      .obj (cfg.sources.map fun sc => (sc.name, resolutionDoc resolution sc))),
    (bytes "symbols",
      .obj (cfg.symbols.map fun sym => (sym, symbolDoc p.fmtDbl p.exchangeOrder data sym)))]

/-- The text of a member. -/
def memberText (k v : Bytes) : Bytes := quote k ++ 58 :: v

lemma render_obj (ms : List (Bytes × Json)) :
    (Json.obj ms).render =
      123 :: (commaJoin (ms.map fun m => memberText m.1 m.2.render) ++ [125]) := by
  rw [Json.render, Json.renderMembers_eq]
  rfl

lemma bboJson_eq (fmtDbl : ℚ → Bytes) (ex : Bytes) (bbo : BboData) :
    bboJson fmtDbl ex bbo = memberText ex (bboDoc fmtDbl bbo).render := by
  rw [bboDoc, render_obj]
  simp only [bboJson, List.map_cons, List.map_nil, commaJoin, memberText, quote, Json.render,
    List.append_assoc, List.cons_append, List.nil_append]
  rfl

lemma historicalJson_eq (fmtDbl : ℚ → Bytes) (hs : HistoricalStats) :
    historicalJson fmtDbl hs =
      44 :: memberText (bytes "historical") (historicalDoc fmtDbl hs).render := by
  rw [historicalDoc, render_obj]
  simp only [historicalJson, List.map_cons, List.map_nil, commaJoin, memberText, quote,
    Json.render, List.append_assoc, List.cons_append, List.nil_append]
  rfl

lemma symbolJson_eq (fmtDbl : ℚ → Bytes) (order : IterationOrder (Σ _ : Bytes, BboData))
    (data : List SourceData) (sym : Bytes) :
    symbolJson fmtDbl order data sym =
      memberText sym (symbolDoc fmtDbl order data sym).render := by
  have hlive : ((liveEntries order data sym).map fun e => (e.1, bboDoc fmtDbl e.2)).map
      (fun m => memberText m.1 m.2.render) =
      (liveEntries order data sym).map fun e => bboJson fmtDbl e.1 e.2 := by
    rw [List.map_map]
    exact List.map_congr_left fun e _ => (bboJson_eq fmtDbl e.1 e.2).symm
  rw [symbolDoc, render_obj]
  cases hhist : historicalOf data sym with
  | none =>
    simp only [symbolJson, hhist, commaList_eq, ← hlive, Option.map_none, Option.toList_none,
      List.map_cons, List.map_nil, commaJoin, render_obj]
    simp only [memberText, quote, List.append_assoc, List.cons_append, List.nil_append]
    rfl
  | some hs =>
    simp only [symbolJson, hhist, commaList_eq, historicalJson_eq, ← hlive, Option.map_some,
      Option.toList_some, List.map_cons, List.map_nil, commaJoin, render_obj]
    simp only [memberText, quote, List.append_assoc, List.cons_append, List.nil_append]
    rfl

lemma resolutionJson_eq (resolution : AList fun _ : Bytes => ResolutionResult)
    (sc : SourceConfig) :
    resolutionJson resolution sc = memberText sc.name (resolutionDoc resolution sc).render := by
  rw [resolutionDoc, render_obj]
  cases hres : resolution.lookup sc.name with
  | none =>
    simp only [resolutionJson, hres, List.map_cons, List.map_nil, commaJoin, memberText, quote,
      Json.render, List.append_assoc, List.cons_append, List.nil_append]
    rfl
  | some r =>
    by_cases hmsg : r.message = []
    · simp only [resolutionJson, hres, if_pos hmsg, List.map_cons, List.map_nil, commaJoin,
        memberText, quote, Json.render, List.append_assoc, List.cons_append, List.nil_append]
      rfl
    · simp only [resolutionJson, hres, if_neg hmsg, List.map_cons, List.map_nil, commaJoin,
        memberText, quote, Json.render, List.append_assoc, List.cons_append, List.nil_append]
      rfl

/-- The text of `generate_phase` is the text of the document. -/
lemma ReportPipeline.generatePhase_eq (p : ReportPipeline) (cfg : ReportConfig)
    (resolution : AList fun _ : Bytes => ResolutionResult) (data : List SourceData) :
    p.generatePhase cfg resolution data =
      (p.reportDoc cfg resolution data).render ++ bytes "\n" := by
  have hres : (cfg.sources.map fun sc => (sc.name, resolutionDoc resolution sc)).map
      (fun m => memberText m.1 m.2.render) = cfg.sources.map (resolutionJson resolution) := by
    rw [List.map_map]
    exact List.map_congr_left fun sc _ => (resolutionJson_eq resolution sc).symm
  have hsym : (cfg.symbols.map fun sym =>
      (sym, symbolDoc p.fmtDbl p.exchangeOrder data sym)).map
      (fun m => memberText m.1 m.2.render) =
      cfg.symbols.map (symbolJson p.fmtDbl p.exchangeOrder data) := by
    rw [List.map_map]
    exact List.map_congr_left fun sym _ =>
      (symbolJson_eq p.fmtDbl p.exchangeOrder data sym).symm
  rw [reportDoc, render_obj]
  simp only [generatePhase, commaList_eq, ← hres, ← hsym, List.map_cons, List.map_nil, commaJoin,
    render_obj]
  simp only [memberText, quote, Json.render, List.append_assoc, List.cons_append,
    List.nil_append]
  rfl

end TickPlant
