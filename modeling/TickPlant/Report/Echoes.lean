/-
# What the replies echo

The strings of a reply are of three kinds: fixed texts, names of the engine and of the
configuration, and texts that are echoed, from the request (an unknown symbol or report) or
from the sources of a report (the messages of their outcomes).  Its atoms are fixed literals,
integers, and the prices, quantities and spreads that it shows.  For a property `P` of byte
strings that is shared by the contents of JSON strings and that depends on the parts of a
text, and a property `Q` that numbers and literals have, `replyDoc_all_iff` says that the whole
reply has them exactly if what is echoed has `P` and what is shown has `Q`.

The model has rationals for the doubles of the program.  A value beyond the range of `double`
stands for an infinity there, and the program prints it as one; so what `%.8g` writes for a
rational is a number or one of the texts for a double that is not finite (`Numeric`).
-/
import TickPlant.Report.Replies

namespace TickPlant

open Lib

/-! ## Names and echoes -/

/-- All names of the engine, of the configuration and of the fetched data satisfy `P`. -/
structure Named (P : Bytes → Prop) (env : QueryEnv) (pipeline : Option ReportPipeline) : Prop where
  wsSymbol : ∀ x ∈ env.engine.wsBooks.entries, P (ArbitrageEngine.keySymbol x.1)
  wsBook : ∀ x ∈ env.engine.wsBooks.entries, P x.2.exchange ∧ P x.2.symbol
  fixSymbol : ∀ x ∈ env.engine.fixBooks.entries, P x.1
  fixBook : ∀ x ∈ env.engine.fixBooks.entries, P x.2.exchange ∧ P x.2.symbol
  report : ∀ p ∈ pipeline, ∀ cfg ∈ p.reports, P cfg.name
  symbol : ∀ p ∈ pipeline, ∀ cfg ∈ p.reports, ∀ sym ∈ cfg.symbols, P sym
  source : ∀ p ∈ pipeline, ∀ cfg ∈ p.reports, ∀ sc ∈ cfg.sources, P sc.name
  fetched : ∀ p ∈ pipeline, ∀ name src, p.registry name = some src →
    ∀ call symbols sym m, (src.fetch call symbols).live.lookup sym = some m →
      ∀ ex ∈ m.keys, P ex

/-- `%.8g` writes a number, or what stands for a double that is not finite. -/
structure Numeric (env : QueryEnv) (pipeline : Option ReportPipeline) : Prop where
  server : ∀ q, IsNumber (env.fmtDbl q) ∨ IsNonFinite (env.fmtDbl q)
  report : ∀ p ∈ pipeline, ∀ q, IsNumber (p.fmtDbl q) ∨ IsNonFinite (p.fmtDbl q)

/-- A property `P` of strings that the contents of JSON strings have and that is decided by the
parts of a text, and a property `Q` of atoms that numbers and literals have. -/
structure Textual (P Q : Bytes → Prop) : Prop where
  body : ∀ s, StringBody s → P s
  append_iff : ∀ s t, P s → (P (s ++ t) ↔ P t)
  atom : ∀ t, Json.IsAtom t → Q t

/-- A property `P` of strings that the fixed texts have, and a property `Q` of atoms that numbers
and literals have. -/
structure Admits (P Q : Bytes → Prop) : Prop where
  lit : ∀ s, Verbatim s → P s
  atom : ∀ t, Json.IsAtom t → Q t

lemma Textual.admits {P Q : Bytes → Prop} (h : Textual P Q) : Admits P Q :=
  ⟨fun s hs => h.body s hs.1, h.atom⟩

/-- The fixed texts have the property. -/
lemma Textual.lit {P Q : Bytes → Prop} (h : Textual P Q) (s : String)
    (hs : StringBody (bytes s)) : P (bytes s) := h.body _ hs

lemma Named.mono {P Q : Bytes → Prop} (hPQ : ∀ s, P s → Q s) {env : QueryEnv}
    {pipeline : Option ReportPipeline} (h : Named P env pipeline) : Named Q env pipeline where
  wsSymbol x hx := hPQ _ (h.wsSymbol x hx)
  wsBook x hx := ⟨hPQ _ (h.wsBook x hx).1, hPQ _ (h.wsBook x hx).2⟩
  fixSymbol x hx := hPQ _ (h.fixSymbol x hx)
  fixBook x hx := ⟨hPQ _ (h.fixBook x hx).1, hPQ _ (h.fixBook x hx).2⟩
  report p hp cfg hcfg := hPQ _ (h.report p hp cfg hcfg)
  symbol p hp cfg hcfg sym hsym := hPQ _ (h.symbol p hp cfg hcfg sym hsym)
  source p hp cfg hcfg sc hsc := hPQ _ (h.source p hp cfg hcfg sc hsc)
  fetched p hp name src hsrc call symbols sym m hm ex hex :=
    hPQ _ (h.fetched p hp name src hsrc call symbols sym m hm ex hex)

/-- The message of the outcome that is recorded for a source. -/
def outcomeMessage (resolution : AList fun _ : Bytes => ResolutionResult) (sc : SourceConfig) :
    Bytes :=
  ((resolution.lookup sc.name).map ResolutionResult.message).getD []

/-- A required source whose recorded outcome is not `ok`. -/
def missesRequired (resolution : AList fun _ : Bytes => ResolutionResult) (sc : SourceConfig) :
    Bool :=
  sc.required && decide ((resolution.lookup sc.name).map ResolutionResult.status ≠ some .ok)

/-- The messages that a report shows: that of the first required source that did not resolve,
as it is, or those of all sources, with their quotes replaced. -/
def shownMessages (resolution : AList fun _ : Bytes => ResolutionResult) (cfg : ReportConfig) :
    List Bytes :=
  match cfg.sources.find? (missesRequired resolution) with
  | some sc => [outcomeMessage resolution sc]
  | none => cfg.sources.map fun sc => replaceQuotes (outcomeMessage resolution sc)

/-- What the reply to a line echoes. -/
def echoed (env : QueryEnv) (pipeline : Option ReportPipeline) (line : Bytes) : List Bytes :=
  let req := parseRequest line
  match req.type, pipeline with
  | .snapshot, _ =>
    if (env.engine.getSnapshots env.wsOrder env.fixOrder req.symbol).isEmpty then
      [replaceQuotes req.symbol]
    else []
  | .report, some p =>
    match (loadConfig p.reports).lookup req.reportName with
    | none => [req.reportName]
    | some cfg => shownMessages (p.resolvePhase cfg) cfg
  | _, _ => []

/-! ## The values that are shown -/

/-- The prices and quantities that the document of a book shows. -/
def bookValues (maxLevels : ℕ) (b : OrderBookSnapshot) : List ℚ :=
  (b.bids.take maxLevels ++ b.asks.take maxLevels).flatMap fun lvl => [lvl.price, lvl.quantity]

/-- The values of a BBO. -/
def bboValues (bbo : BboData) : List ℚ := [bbo.bid, bbo.ask, bbo.mid, bbo.spreadBps]

/-- The values of the historical statistics. -/
def historicalValues (hs : HistoricalStats) : List ℚ := [hs.avgSpreadBps, hs.minBid, hs.maxAsk]

/-- The values that the document of a symbol shows. -/
def symbolValues (order : IterationOrder (Σ _ : Bytes, BboData)) (data : List SourceData)
    (sym : Bytes) : List ℚ :=
  ((liveEntries order data sym).flatMap fun e => bboValues e.2) ++
    (historicalOf data sym).toList.flatMap historicalValues

/-- The values that a configured report shows: none if a required source did not resolve. -/
def reportValues (p : ReportPipeline) (cfg : ReportConfig) : List ℚ :=
  if (cfg.sources.find? (missesRequired (p.resolvePhase cfg))).isSome then []
  else cfg.symbols.flatMap (symbolValues p.exchangeOrder (p.pipelinePhase cfg (p.resolvePhase cfg)))

/-- The texts of the prices, quantities and spreads in the reply to a line. -/
def shownNumbers (env : QueryEnv) (pipeline : Option ReportPipeline) (line : Bytes) : List Bytes :=
  let req := parseRequest line
  match req.type, pipeline with
  | .snapshot, _ =>
    ((env.engine.getSnapshots env.wsOrder env.fixOrder req.symbol).flatMap
      (bookValues 5)).map env.fmtDbl
  | .report, some p =>
    match (loadConfig p.reports).lookup req.reportName with
    | none => []
    | some cfg => (reportValues p cfg).map p.fmtDbl
  | _, _ => []

lemma Numeric.shown {env : QueryEnv} {pipeline : Option ReportPipeline}
    (h : Numeric env pipeline) (line : Bytes) :
    ∀ t ∈ shownNumbers env pipeline line, IsNumber t ∨ IsNonFinite t := by
  simp only [shownNumbers]
  cases (parseRequest line).type with
  | snapshot =>
    rw [List.forall_mem_map]
    exact fun q _ => h.server q
  | report =>
    cases pipeline with
    | none => simp
    | some p =>
      cases hcfg : (loadConfig p.reports).lookup (parseRequest line).reportName with
      | none => simp [hcfg]
      | some cfg =>
        simp only [hcfg, List.forall_mem_map]
        exact fun q _ => h.report p rfl q
  | health => simp
  | listReports => simp
  | unknown => simp

/-! ## The configuration -/

/-- What the configured reports have, the loaded ones have. -/
lemma loadConfig_forall {reports : List ReportConfig} {R : ReportConfig → Prop}
    (h : ∀ cfg ∈ reports, R { cfg with sources := cfg.sources.filter fun sc => sc.name ≠ [] })
    {name : Bytes} {cfg : ReportConfig} (hcfg : (loadConfig reports).lookup name = some cfg) :
    R cfg ∧ cfg.name = name := by
  have hall : ∀ k c, (loadConfig reports).lookup k = some c → R c ∧ c.name = k := by
    rw [loadConfig]
    refine List.foldlRecOn (motive := fun configs : AList fun _ : Bytes => ReportConfig =>
      ∀ k c, configs.lookup k = some c → R c ∧ c.name = k) reports _ ?_ ?_
    · intro k c hc
      exact absurd hc (by simp)
    · intro configs hconfigs c hc k d hd
      split at hd
      · exact hconfigs k d hd
      · by_cases hk : k = c.name
        · rw [hk, AList.lookup_insert, Option.some.injEq] at hd
          rw [← hd, hk]
          exact ⟨h c hc, rfl⟩
        · rw [AList.lookup_insert_ne hk] at hd
          exact hconfigs k d hd
  exact hall name cfg hcfg

/-- The names of a loaded report. -/
lemma Named.loaded {P : Bytes → Prop} {env : QueryEnv} {p : ReportPipeline}
    (h : Named P env (some p)) {name : Bytes} {cfg : ReportConfig}
    (hcfg : (loadConfig p.reports).lookup name = some cfg) :
    P cfg.name ∧ (∀ sym ∈ cfg.symbols, P sym) ∧ ∀ sc ∈ cfg.sources, P sc.name := by
  refine (loadConfig_forall (R := fun cfg =>
    P cfg.name ∧ (∀ sym ∈ cfg.symbols, P sym) ∧ ∀ sc ∈ cfg.sources, P sc.name) ?_ hcfg).1
  intro c hc
  refine ⟨h.report p rfl c hc, h.symbol p rfl c hc, ?_⟩
  intro sc hsc
  exact h.source p rfl c hc sc (List.mem_of_mem_filter hsc)

/-! ## The documents -/

variable {P Q : Bytes → Prop}

lemma errorDoc_all_iff (hP : Textual P Q) (message : Bytes) :
    (errorDoc message).All P Q ↔ P message := by
  have hstatus : P (bytes "status") := hP.lit _ rfl
  have herror : P (bytes "error") := hP.lit _ rfl
  have hmessage : P (bytes "message") := hP.lit _ rfl
  simp [errorDoc, Json.All, Json.AllMembers, hstatus, herror, hmessage]

lemma isAtom_toText (n : ℕ) : Json.IsAtom (toText n) := by
  rw [toText_eq_decimal]
  exact Or.inl (isNumber_decimal n)

lemma levels_all_iff {fmtDbl : ℚ → Bytes} (levels : List PriceLevel) :
    (Json.arr (levels.map (levelDoc fmtDbl))).All P Q ↔
      ∀ lvl ∈ levels, Q (fmtDbl lvl.price) ∧ Q (fmtDbl lvl.quantity) := by
  rw [Json.All, Json.allItems_iff, List.forall_mem_map]
  simp only [levelDoc, Json.All, Json.AllItems, and_true]

lemma bookDoc_all_iff (hP : Admits P Q) {fmtDbl : ℚ → Bytes} (maxLevels : ℕ)
    {b : OrderBookSnapshot} (hexchange : P b.exchange) (hsymbol : P b.symbol) :
    (bookDoc fmtDbl maxLevels b).All P Q ↔ ∀ q ∈ bookValues maxLevels b, Q (fmtDbl q) := by
  have hvalues : (∀ q ∈ bookValues maxLevels b, Q (fmtDbl q)) ↔
      (∀ lvl ∈ b.bids.take maxLevels, Q (fmtDbl lvl.price) ∧ Q (fmtDbl lvl.quantity)) ∧
        ∀ lvl ∈ b.asks.take maxLevels, Q (fmtDbl lvl.price) ∧ Q (fmtDbl lvl.quantity) := by
    simp only [bookValues, List.forall_mem_flatMap, List.forall_mem_cons, List.not_mem_nil,
      List.forall_mem_append, false_implies, implies_true, and_true]
  rw [hvalues, ← levels_all_iff (P := P), ← levels_all_iff (P := P)]
  constructor
  · rintro ⟨-, -, -, -, -, hbids, -, hasks, -⟩
    exact ⟨hbids, hasks⟩
  · rintro ⟨hbids, hasks⟩
    exact ⟨hP.lit _ ⟨rfl, rfl⟩, hexchange, hP.lit _ ⟨rfl, rfl⟩, hsymbol, hP.lit _ ⟨rfl, rfl⟩,
      hbids, hP.lit _ ⟨rfl, rfl⟩, hasks, hP.lit _ ⟨rfl, rfl⟩, hP.atom _ (isAtom_toText _), trivial⟩

lemma feedDoc_all (hP : Admits P Q) (liveThresholdMs : ℕ) {ex : Bytes} (hex : P ex) (ms : ℕ) :
    (feedDoc liveThresholdMs ex ms).All P Q := by
  refine ⟨hP.lit _ ⟨rfl, rfl⟩, hex, hP.lit _ ⟨rfl, rfl⟩, ?_, hP.lit _ ⟨rfl, rfl⟩, ?_, trivial⟩
  · rw [Json.All]
    split
    · have hone : Digits [49] := ⟨by decide, by simp [IsDigit]⟩
      have hminus : IsNumber ([45] ++ [49] ++ [] ++ []) :=
        .mk (Or.inr rfl) hone (Or.inr (by decide)) (Or.inl rfl) (Or.inl rfl)
      exact hP.atom _ (Or.inl hminus)
    · exact hP.atom _ (isAtom_toText ms)
  · rw [Json.All]
    split
    · exact hP.atom _ (Or.inr (Or.inl (by decide)))
    · exact hP.atom _ (Or.inr (Or.inr (Or.inl (by decide))))

lemma healthDoc_all (hP : Admits P Q) (stalenessMs : AList fun _ : Bytes => ℕ) :
    (healthDoc stalenessMs).All P Q := by
  refine ⟨hP.lit _ ⟨rfl, rfl⟩, hP.lit _ ⟨rfl, rfl⟩, hP.lit _ ⟨rfl, rfl⟩, ?_, trivial⟩
  rw [Json.All, Json.allItems_iff]
  intro j hj
  obtain ⟨ex, hex, hmap⟩ := List.mem_filterMap.mp hj
  obtain ⟨ms, -, rfl⟩ := Option.map_eq_some_iff.mp hmap
  have hbody : ∀ ex ∈ ArbitrageEngine.feeds, Verbatim ex := by decide
  exact feedDoc_all hP 2000 (hP.lit _ (hbody ex hex)) ms

lemma listDoc_all (hP : Textual P Q) {env : QueryEnv} {p : ReportPipeline}
    (hnames : Named P env (some p)) : p.listDoc.All P Q := by
  refine ⟨hP.lit _ rfl, hP.lit _ rfl, hP.lit _ rfl, ?_, trivial⟩
  rw [Json.All, Json.allItems_iff, List.forall_mem_map]
  intro e he
  have hentry := AList.mem_lookup_iff.mpr ((p.configOrder.perm _).mem_iff.mp he)
  obtain ⟨⟨hname, -, -⟩, hkey⟩ := And.intro (hnames.loaded hentry)
    (loadConfig_forall (R := fun _ => True) (fun _ _ => trivial) hentry).2
  rw [Json.All, ← hkey]
  exact hname

/-! ### Reports -/

lemma replaceQuotes_append (s t : Bytes) :
    replaceQuotes (s ++ t) = replaceQuotes s ++ replaceQuotes t := List.map_append

/-- What `run` says of a source, in terms of the recorded outcome. -/
lemma unavailable_eq (resolution : AList fun _ : Bytes => ResolutionResult) (sc : SourceConfig) :
    ReportPipeline.unavailable resolution sc =
      if missesRequired resolution sc then
        some (bytes "required source '" ++ sc.name ++ bytes "' unavailable" ++
          if outcomeMessage resolution sc = [] then []
          else bytes ": " ++ outcomeMessage resolution sc)
      else none := by
  rw [ReportPipeline.unavailable, missesRequired, outcomeMessage]
  cases sc.required with
  | false => rfl
  | true =>
    cases hres : resolution.lookup sc.name with
    | none => simp
    | some r =>
      by_cases hok : r.status = .ok
      · simp [hok]
      · by_cases hmsg : r.message = []
        · simp [hok, hmsg]
        · simp [hok, hmsg]

/-- The message of `run` has the property if the message of the outcome has it. -/
lemma unavailable_iff (hP : Textual P Q) {resolution : AList fun _ : Bytes => ResolutionResult}
    {sc : SourceConfig} (hname : P sc.name) {msg : Bytes}
    (h : ReportPipeline.unavailable resolution sc = some msg) :
    P msg ↔ P (outcomeMessage resolution sc) := by
  have hrequired : P (bytes "required source '") := hP.lit _ rfl
  have hunavailable : P (bytes "' unavailable") := hP.lit _ rfl
  have hcolon : P (bytes ": ") := hP.lit _ rfl
  rw [unavailable_eq] at h
  split at h
  · rw [← Option.some.inj h, List.append_assoc, List.append_assoc, hP.append_iff _ _ hrequired,
      hP.append_iff _ _ hname, hP.append_iff _ _ hunavailable]
    by_cases hmsg : outcomeMessage resolution sc = []
    · rw [if_pos hmsg, hmsg]
    · rw [if_neg hmsg, hP.append_iff _ _ hcolon]
  · cases h

lemma bboDoc_all_iff (hP : Textual P Q) {fmtDbl : ℚ → Bytes} (bbo : BboData) :
    (bboDoc fmtDbl bbo).All P Q ↔ ∀ q ∈ bboValues bbo, Q (fmtDbl q) := by
  simp only [bboValues, List.forall_mem_cons, List.not_mem_nil, false_implies, implies_true,
    and_true]
  constructor
  · rintro ⟨-, hbid, -, hask, -, hmid, -, hspread, -⟩
    exact ⟨hbid, hask, hmid, hspread⟩
  · rintro ⟨hbid, hask, hmid, hspread⟩
    exact ⟨hP.lit _ rfl, hbid, hP.lit _ rfl, hask, hP.lit _ rfl, hmid, hP.lit _ rfl, hspread,
      hP.lit _ rfl, hP.atom _ (isAtom_toText _), trivial⟩

lemma historicalDoc_all_iff (hP : Textual P Q) {fmtDbl : ℚ → Bytes} (hs : HistoricalStats) :
    (historicalDoc fmtDbl hs).All P Q ↔ ∀ q ∈ historicalValues hs, Q (fmtDbl q) := by
  simp only [historicalValues, List.forall_mem_cons, List.not_mem_nil, false_implies,
    implies_true, and_true]
  constructor
  · rintro ⟨-, hspread, -, hbid, -, hask, -⟩
    exact ⟨hspread, hbid, hask⟩
  · rintro ⟨hspread, hbid, hask⟩
    exact ⟨hP.lit _ rfl, hspread, hP.lit _ rfl, hbid, hP.lit _ rfl, hask, hP.lit _ rfl,
      hP.atom _ (isAtom_toText _), trivial⟩

/-- The exchanges of the `live` section are names of the data. -/
lemma liveEntries_forall {order : IterationOrder (Σ _ : Bytes, BboData)} {data : List SourceData}
    (hdata : ∀ sd ∈ data, ∀ sym m, sd.live.lookup sym = some m → ∀ ex ∈ m.keys, P ex)
    {sym : Bytes} {e : Σ _ : Bytes, BboData} (he : e ∈ liveEntries order data sym) : P e.1 := by
  rw [liveEntries, List.mem_flatMap] at he
  obtain ⟨sd, hsd, hmem⟩ := he
  split at hmem
  · exact absurd hmem List.not_mem_nil
  · rename_i m hm
    have hkey : e.1 ∈ m.keys :=
      List.mem_map_of_mem ((order.perm m.entries).mem_iff.mp hmem)
    exact hdata sd hsd sym m hm e.1 hkey

lemma symbolDoc_all_iff (hP : Textual P Q) {fmtDbl : ℚ → Bytes}
    {order : IterationOrder (Σ _ : Bytes, BboData)} {data : List SourceData}
    (hdata : ∀ sd ∈ data, ∀ sym m, sd.live.lookup sym = some m → ∀ ex ∈ m.keys, P ex)
    (sym : Bytes) :
    (symbolDoc fmtDbl order data sym).All P Q ↔
      ∀ q ∈ symbolValues order data sym, Q (fmtDbl q) := by
  have hlive : (Json.obj ((liveEntries order data sym).map
      fun e => (e.1, bboDoc fmtDbl e.2))).All P Q ↔
      ∀ e ∈ liveEntries order data sym, ∀ q ∈ bboValues e.2, Q (fmtDbl q) := by
    rw [Json.All, Json.allMembers_iff, List.forall_mem_map]
    refine forall₂_congr fun e he => ?_
    rw [bboDoc_all_iff hP, and_iff_right (liveEntries_forall hdata he)]
  have hhist : Json.AllMembers P Q (((historicalOf data sym).map fun hs =>
      (bytes "historical", historicalDoc fmtDbl hs)).toList) ↔
      ∀ q ∈ (historicalOf data sym).toList.flatMap historicalValues, Q (fmtDbl q) := by
    cases historicalOf data sym with
    | none => simp [Json.AllMembers]
    | some hs =>
      simp [Json.AllMembers, hP.lit "historical" rfl, historicalDoc_all_iff hP]
  rw [symbolValues, List.forall_mem_append, List.forall_mem_flatMap, ← hlive, ← hhist]
  exact and_iff_right (hP.lit _ rfl)

lemma resolutionDoc_all_iff (hP : Textual P Q)
    (resolution : AList fun _ : Bytes => ResolutionResult) (sc : SourceConfig) :
    (resolutionDoc resolution sc).All P Q ↔
      P (replaceQuotes (outcomeMessage resolution sc)) := by
  have hstatus : P (bytes "status") := hP.lit _ rfl
  have hmessage : P (bytes "message") := hP.lit _ rfl
  have hunreachable : P (bytes "unreachable") := hP.lit _ rfl
  have hnil : P [] := hP.body [] rfl
  have hstr : ∀ st : ResolutionStatus, P (statusStr st) := by
    intro st
    cases st <;> exact hP.lit _ rfl
  rw [resolutionDoc, outcomeMessage]
  cases hres : resolution.lookup sc.name with
  | none => simp [Json.All, Json.AllMembers, hstatus, hunreachable, replaceQuotes, hnil]
  | some r =>
    by_cases hmsg : r.message = []
    · simp [Json.All, Json.AllMembers, hstatus, hstr, hmsg, replaceQuotes, hnil]
    · simp [Json.All, Json.AllMembers, hstatus, hstr, hmsg, hmessage]

lemma reportDoc_all_iff (hP : Textual P Q) {p : ReportPipeline}
    {cfg : ReportConfig} (hname : P cfg.name) (hsymbols : ∀ sym ∈ cfg.symbols, P sym)
    (hsources : ∀ sc ∈ cfg.sources, P sc.name)
    (resolution : AList fun _ : Bytes => ResolutionResult) {data : List SourceData}
    (hdata : ∀ sd ∈ data, ∀ sym m, sd.live.lookup sym = some m → ∀ ex ∈ m.keys, P ex) :
    (p.reportDoc cfg resolution data).All P Q ↔
      (∀ sc ∈ cfg.sources, P (replaceQuotes (outcomeMessage resolution sc))) ∧
        ∀ q ∈ cfg.symbols.flatMap (symbolValues p.exchangeOrder data), Q (p.fmtDbl q) := by
  have hsym : (∀ sym ∈ cfg.symbols,
      P sym ∧ (symbolDoc p.fmtDbl p.exchangeOrder data sym).All P Q) ↔
      ∀ q ∈ cfg.symbols.flatMap (symbolValues p.exchangeOrder data), Q (p.fmtDbl q) := by
    rw [List.forall_mem_flatMap]
    refine forall₂_congr fun sym h => ?_
    rw [symbolDoc_all_iff hP hdata, and_iff_right (hsymbols sym h)]
  have hres : (∀ sc ∈ cfg.sources, P sc.name ∧ (resolutionDoc resolution sc).All P Q) ↔
      ∀ sc ∈ cfg.sources, P (replaceQuotes (outcomeMessage resolution sc)) := by
    refine forall₂_congr fun sc hsc => ?_
    rw [resolutionDoc_all_iff hP, and_iff_right (hsources sc hsc)]
  simp only [ReportPipeline.reportDoc, Json.All, Json.AllMembers, Json.allMembers_iff,
    List.forall_mem_map, hres, hsym]
  constructor
  · rintro ⟨-, -, -, -, -, -, -, hmessages, -, hvalues, -⟩
    exact ⟨hmessages, hvalues⟩
  · rintro ⟨hmessages, hvalues⟩
    exact ⟨hP.lit _ rfl, hP.lit _ rfl, hP.lit _ rfl, hname,
      hP.lit _ rfl, hP.atom _ (isAtom_toText _), hP.lit _ rfl, hmessages,
      hP.lit _ rfl, hvalues, trivial⟩

/-- The data of `pipeline_phase` come from the sources. -/
lemma pipelinePhase_forall {env : QueryEnv} {p : ReportPipeline} (hnames : Named P env (some p))
    (cfg : ReportConfig) (resolution : AList fun _ : Bytes => ResolutionResult) :
    ∀ sd ∈ p.pipelinePhase cfg resolution, ∀ sym m, sd.live.lookup sym = some m →
      ∀ ex ∈ m.keys, P ex := by
  intro sd hsd sym m hm ex hex
  obtain ⟨sc, -, hfetch⟩ := List.mem_filterMap.mp hsd
  split at hfetch
  · cases hfetch
  · split at hfetch
    · cases hfetch
    · obtain ⟨src, hsrc, rfl⟩ := Option.map_eq_some_iff.mp hfetch
      exact hnames.fetched p rfl sc.1.name src hsrc sc.2 cfg.symbols sym m hm ex hex

/-- The first source of which `run` has something to say. -/
lemma findSome_unavailable (resolution : AList fun _ : Bytes => ResolutionResult)
    (sources : List SourceConfig) :
    sources.findSome? (ReportPipeline.unavailable resolution) =
      (sources.find? (missesRequired resolution)).bind
        (ReportPipeline.unavailable resolution) := by
  induction sources with
  | nil => rfl
  | cons sc rest ih =>
    rw [List.findSome?_cons, List.find?_cons]
    cases hmiss : missesRequired resolution sc with
    | true => simp [unavailable_eq, hmiss]
    | false => simpa [unavailable_eq, hmiss] using ih

/-- A report that is configured has the properties exactly if the messages and the values that
it shows have them. -/
lemma runConfigDoc_all_iff (hP : Textual P Q) {env : QueryEnv} {p : ReportPipeline}
    (hnames : Named P env (some p)) {name : Bytes}
    {cfg : ReportConfig} (hcfg : (loadConfig p.reports).lookup name = some cfg) :
    (p.runConfigDoc cfg).All P Q ↔
      (∀ s ∈ shownMessages (p.resolvePhase cfg) cfg, P s) ∧
        ∀ q ∈ reportValues p cfg, Q (p.fmtDbl q) := by
  obtain ⟨hname, hsymbols, hsources⟩ := hnames.loaded hcfg
  rw [ReportPipeline.runConfigDoc, shownMessages, findSome_unavailable, reportValues]
  cases hfind : cfg.sources.find? (missesRequired (p.resolvePhase cfg)) with
  | some sc =>
    have hmem : sc ∈ cfg.sources := List.mem_of_find?_eq_some hfind
    have hmiss : missesRequired (p.resolvePhase cfg) sc = true := List.find?_some hfind
    cases hmsg : ReportPipeline.unavailable (p.resolvePhase cfg) sc with
    | none =>
      rw [unavailable_eq, if_pos hmiss] at hmsg
      cases hmsg
    | some msg =>
      simp only [Option.bind_some, hmsg]
      rw [errorDoc_all_iff hP, unavailable_iff hP (hsources sc hmem) hmsg]
      simp
  | none =>
    simp only [Option.bind_none]
    rw [reportDoc_all_iff hP hname hsymbols hsources _ (pipelinePhase_forall hnames cfg _)]
    simp

/-! ## The replies -/

/-- The books of a snapshot are books of the engine. -/
lemma getSnapshots_forall {env : QueryEnv} {pipeline : Option ReportPipeline}
    (hnames : Named P env pipeline) (canonicalSym : Bytes) :
    ∀ b ∈ env.engine.getSnapshots env.wsOrder env.fixOrder canonicalSym,
      P b.exchange ∧ P b.symbol := by
  intro b hb
  obtain ⟨x, hx, rfl⟩ := List.mem_map.mp (List.mem_of_mem_filter hb)
  rcases List.mem_append.mp hx with hx | hx
  · exact hnames.wsBook x ((env.wsOrder.perm _).mem_iff.mp (List.mem_of_mem_filter hx))
  · exact hnames.fixBook x ((env.fixOrder.perm _).mem_iff.mp (List.mem_of_mem_filter hx))

/-- **What decides about a reply.**  Where the names have the property `P`, the reply to a line
has the properties `P` and `Q` exactly if everything it echoes has `P` and every price, quantity
and spread that it shows has `Q`. -/
lemma replyDoc_all_iff (hP : Textual P Q) {env : QueryEnv} {pipeline : Option ReportPipeline}
    (hnames : Named P env pipeline) (line : Bytes)
    (hsym : env.engine.getSnapshots env.wsOrder env.fixOrder (parseRequest line).symbol ≠ [] →
      P (parseRequest line).symbol) :
    (replyDoc env pipeline line).All P Q ↔
      (∀ s ∈ echoed env pipeline line, P s) ∧ ∀ t ∈ shownNumbers env pipeline line, Q t := by
  simp only [replyDoc, echoed, shownNumbers]
  cases (parseRequest line).type with
  | snapshot =>
    simp only [snapshotDoc]
    cases hbooks : (env.engine.getSnapshots env.wsOrder env.fixOrder
        (parseRequest line).symbol).isEmpty with
    -- no book: the symbol is echoed
    | true =>
      have hfound : P (bytes "symbol not found: ") := hP.lit _ rfl
      have hfixed : replaceQuotes (bytes "symbol not found: ") = bytes "symbol not found: " := rfl
      simp only [if_true]
      rw [errorDoc_all_iff hP, replaceQuotes_append, hfixed, hP.append_iff _ _ hfound,
        List.isEmpty_iff.mp hbooks]
      simp
    -- the books are shown, and the symbol is theirs
    | false =>
      simp only [Bool.false_eq_true, if_false]
      have hne := List.isEmpty_eq_false_iff.mp hbooks
      have hall : (Json.arr ((env.engine.getSnapshots env.wsOrder env.fixOrder
          (parseRequest line).symbol).map (bookDoc env.fmtDbl 5))).All P Q ↔
          ∀ b ∈ env.engine.getSnapshots env.wsOrder env.fixOrder (parseRequest line).symbol,
            ∀ q ∈ bookValues 5 b, Q (env.fmtDbl q) := by
        rw [Json.All, Json.allItems_iff, List.forall_mem_map]
        refine forall₂_congr fun b hb => ?_
        obtain ⟨hexchange, hsymbol⟩ := getSnapshots_forall hnames _ b hb
        exact bookDoc_all_iff hP.admits 5 hexchange hsymbol
      rw [List.forall_mem_map, List.forall_mem_flatMap, ← hall]
      constructor
      · rintro ⟨-, -, -, -, -, hvalues, -⟩
        exact ⟨fun s hs => absurd hs List.not_mem_nil, hvalues⟩
      · rintro ⟨-, hvalues⟩
        exact ⟨hP.lit _ rfl, hP.lit _ rfl, hP.lit _ rfl, hsym hne, hP.lit _ rfl, hvalues, trivial⟩
  | health => exact iff_of_true (healthDoc_all hP.admits _) (by simp)
  | report =>
    cases pipeline with
    | none =>
      refine iff_of_true ((errorDoc_all_iff hP _).mpr (hP.lit _ rfl)) (by simp)
    | some p =>
      simp only [ReportPipeline.runDoc]
      cases hcfg : (loadConfig p.reports).lookup (parseRequest line).reportName with
      | none =>
        have hunknown : P (bytes "unknown report: ") := hP.lit _ rfl
        simp only
        rw [errorDoc_all_iff hP, hP.append_iff _ _ hunknown]
        simp
      | some cfg =>
        simp only [List.forall_mem_map]
        exact runConfigDoc_all_iff hP hnames hcfg
  | listReports =>
    cases pipeline with
    | none =>
      refine iff_of_true ((errorDoc_all_iff hP _).mpr (hP.lit _ rfl)) (by simp)
    | some p => exact iff_of_true (listDoc_all hP hnames) (by simp)
  | unknown =>
    refine iff_of_true ((errorDoc_all_iff hP _).mpr (hP.lit _ rfl)) (by simp)

/-! ## A server with one report -/

/-- A server whose engine has no books. -/
def emptyEnv : QueryEnv where
  engine := .new false
  nowMs := 0
  wsOrder := .entries
  fixOrder := .entries
  fmtDbl q := toText q.num.natAbs
  pipeline := none

/-- A pipeline with the report `bbo_summary` on one source, which has no prices. -/
def soloPipeline (source : Bytes) (resolve : ℕ → List Bytes → ℕ → ResolutionResult) :
    ReportPipeline where
  reports := [⟨bytes "bbo_summary", [bytes "BTC"], [⟨source, false, 60000⟩]⟩]
  registry name := if name = source then some ⟨resolve, fun _ _ => ⟨name, ∅, ∅⟩⟩ else none
  nowMs := 0
  fmtDbl q := toText q.num.natAbs
  configOrder := .entries
  exchangeOrder := .entries

lemma named_soloPipeline (hreport : P (bytes "bbo_summary")) (hsymbol : P (bytes "BTC"))
    {source : Bytes} (hsource : P source) (resolve : ℕ → List Bytes → ℕ → ResolutionResult) :
    Named P emptyEnv (some (soloPipeline source resolve)) where
  wsSymbol := by simp [emptyEnv, ArbitrageEngine.new]
  wsBook := by simp [emptyEnv, ArbitrageEngine.new]
  fixSymbol := by simp [emptyEnv, ArbitrageEngine.new]
  fixBook := by simp [emptyEnv, ArbitrageEngine.new]
  report := by
    rintro p ⟨⟩ cfg hcfg
    rw [List.mem_singleton.mp hcfg]
    exact hreport
  symbol := by
    rintro p ⟨⟩ cfg hcfg sym hsym
    rw [List.mem_singleton.mp hcfg] at hsym
    rw [List.mem_singleton.mp hsym]
    exact hsymbol
  source := by
    rintro p ⟨⟩ cfg hcfg sc hsc
    rw [List.mem_singleton.mp hcfg] at hsc
    rw [List.mem_singleton.mp hsc]
    exact hsource
  fetched := by
    rintro p ⟨⟩ name src hsrc call symbols sym m hm
    simp only [soloPipeline] at hsrc
    split at hsrc
    · cases hsrc
      exact absurd hm (by simp)
    · cases hsrc

lemma numeric_soloPipeline (source : Bytes)
    (resolve : ℕ → List Bytes → ℕ → ResolutionResult) :
    Numeric emptyEnv (some (soloPipeline source resolve)) := by
  have htext : ∀ q : ℚ, IsNumber (toText q.num.natAbs) := by
    intro q
    rw [toText_eq_decimal]
    exact isNumber_decimal _
  refine ⟨fun q => Or.inl (htext q), ?_⟩
  rintro p ⟨⟩
  exact fun q => Or.inl (htext q)

end TickPlant
