/-
# Replies of one line

The wire protocol ends every reply with exactly one newline, and a client reads up to it.  A
reply has no other newline exactly if the messages of the outcomes it shows have none
(`oneLine_iff`).  Of the built-in sources, an `ExchangeDataSource` never has one in its
message; a `RemoteDataSource` has one only if it is in the configured host; a
`QuestDbDataSource` passes on what the database sent, an error text or the beginning of a body
that it could not read.
-/
import TickPlant.Report.Echoes
import TickPlant.Report.Sources

namespace TickPlant

open Lib

/-- The text has exactly one newline, and it is its last byte. -/
def OneLine (reply : Bytes) : Prop := reply.count 10 = 1 ∧ reply.getLast? = some 10

/-- The sources whose messages a report shows. -/
def shownSources (resolution : AList fun _ : Bytes => ResolutionResult) (cfg : ReportConfig) :
    List SourceConfig :=
  match cfg.sources.find? (missesRequired resolution) with
  | some sc => [sc]
  | none => cfg.sources

/-- The call of `resolve` whose outcome is recorded under a name: the last one. -/
def lastCall (cfg : ReportConfig) (name : Bytes) : Option (SourceConfig × ℕ) :=
  cfg.sources.zipIdx.reverse.find? fun x => x.1.name = name

/-- What has to be free of newlines for the outcome of a call to be: nothing, the host of a
server that does not answer, or what the database sent where it is passed on. -/
def BuiltinSource.Clean (parse : Bytes → Option JsonValue) (call : ℕ) : BuiltinSource → Prop
  | .exchange _ _ => True
  | .remote _ host _ reply => reply call = [] → 10 ∉ host
  | .questDb body =>
    (QuestDbDataSource.checkTable parse (body call) = none → 10 ∉ (body call).take 120) ∧
      ∀ j text, body call ≠ [] → parse (body call) = some j →
        j.find? (bytes "error") = some (.string text) → 10 ∉ text

/-! ## Newlines in the messages of the sources -/

lemma not_mem_toText (n : ℕ) : (10 : UInt8) ∉ toText n := by
  rw [toText_eq_decimal]
  intro h
  exact absurd (decimal_isDigit n _ h) (by decide)

/-- A name followed by a fixed text. -/
lemma clean_append {name : Bytes} (hname : 10 ∉ name) (s : String)
    (hs : 10 ∉ bytes s) : 10 ∉ name ++ bytes s := by
  rw [List.mem_append, not_or]
  exact ⟨hname, hs⟩

/-- A text followed by a number. -/
lemma clean_append_toText {s : Bytes} (hs : 10 ∉ s) (n : ℕ) : 10 ∉ s ++ toText n := by
  rw [List.mem_append, not_or]
  exact ⟨hs, not_mem_toText n⟩

lemma exchange_message_clean {name : Bytes} (hname : 10 ∉ name)
    (staleness : AList fun _ : Bytes => ℕ) (maxStalenessMs : ℕ) :
    10 ∉ (ExchangeDataSource.resolve name staleness maxStalenessMs).message := by
  have hnone : 10 ∉ name ++ bytes ": no data received yet" := clean_append hname _ (by decide)
  rw [ExchangeDataSource.resolve]
  split
  · exact hnone
  · rename_i ms _
    split
    · exact hnone
    · split
      · have hfor := clean_append hname ": staleness " (by decide)
        have hstale := clean_append (clean_append_toText hfor ms) "ms > threshold " (by decide)
        exact clean_append (clean_append_toText hstale maxStalenessMs) _ (by decide)
      · exact List.not_mem_nil

lemma checkHealth_message_clean {parse : Bytes → Option JsonValue} {name resp : Bytes}
    (hname : 10 ∉ name) {maxStalenessMs : ℕ} {r : ResolutionResult}
    (h : RemoteDataSource.checkHealth parse name resp maxStalenessMs = some r) :
    10 ∉ r.message := by
  obtain ⟨j, -, h⟩ := Option.bind_eq_some_iff.mp h
  obtain ⟨status, -, h⟩ := Option.bind_eq_some_iff.mp h
  split at h
  · obtain rfl := Option.some.inj h
    exact clean_append hname _ (by decide)
  · obtain ⟨live, -, h⟩ := Option.bind_eq_some_iff.mp h
    split at h
    · obtain rfl := Option.some.inj h
      exact List.not_mem_nil
    · obtain rfl := Option.some.inj h
      exact clean_append hname _ (by decide)

lemma remote_message_clean_iff {parse : Bytes → Option JsonValue} {name : Bytes}
    (hname : 10 ∉ name) (host : Bytes) (port : ℕ) (resp : Bytes) (maxStalenessMs : ℕ) :
    10 ∉ (RemoteDataSource.resolve parse name host port resp maxStalenessMs).message ↔
      (resp = [] → 10 ∉ host) := by
  rw [RemoteDataSource.resolve]
  by_cases hresp : resp = []
  · have hfixed : 10 ∉ bytes ": no response from " := by decide
    have hcolon : 10 ∉ bytes ":" := by decide
    simp [hresp, hname, hfixed, hcolon, not_mem_toText]
  · rw [if_neg hresp]
    refine iff_of_true ?_ fun h => absurd h hresp
    cases hcheck : RemoteDataSource.checkHealth parse name resp maxStalenessMs with
    | none => exact clean_append hname _ (by decide)
    | some r => exact checkHealth_message_clean hname hcheck

/-- The only foreign text in an outcome of the `try` block is an error of the database. -/
lemma checkTable_cases {parse : Bytes → Option JsonValue} {body : Bytes} {r : ResolutionResult}
    (h : QuestDbDataSource.checkTable parse body = some r) :
    (∃ j text, parse body = some j ∧ j.find? (bytes "error") = some (.string text) ∧
        r.message = bytes "QuestDB error: " ++ text) ∨
      (∀ j text, parse body = some j → j.find? (bytes "error") ≠ some (.string text)) ∧
        10 ∉ r.message := by
  have hempty : 10 ∉ bytes "QuestDB: order_book table is empty" := by decide
  obtain ⟨j, hj, h⟩ := Option.bind_eq_some_iff.mp h
  cases hfind : j.find? (bytes "error") with
  | some v =>
    left
    simp only [JsonValue.contains, hfind, Option.isSome_some, if_true] at h
    obtain ⟨text, htext, h⟩ := Option.bind_eq_some_iff.mp h
    obtain rfl := Option.some.inj h
    refine ⟨j, text, hj, ?_, rfl⟩
    simp only [JsonValue.member, hfind, Option.getD_some] at htext
    cases v with
    | string s =>
      obtain rfl := Option.some.inj htext
      exact hfind
    | _ => cases htext
  | none =>
    right
    refine ⟨?_, ?_⟩
    · intro j' text hj' herror
      rw [hj, Option.some.injEq] at hj'
      rw [← hj', hfind] at herror
      cases herror
    · have hno : ¬ j.contains (bytes "error") = true := by simp [JsonValue.contains, hfind]
      rw [if_neg hno] at h
      split at h
      · obtain rfl := Option.some.inj h
        exact hempty
      · obtain ⟨row, -, h⟩ := Option.bind_eq_some_iff.mp h
        split at h
        · obtain rfl := Option.some.inj h
          exact hempty
        · obtain ⟨cell, -, h⟩ := Option.bind_eq_some_iff.mp h
          obtain ⟨cnt, -, h⟩ := Option.bind_eq_some_iff.mp h
          split at h
          · obtain rfl := Option.some.inj h
            exact hempty
          · obtain rfl := Option.some.inj h
            exact List.not_mem_nil

lemma questDb_message_clean_iff (parse : Bytes → Option JsonValue) (body : Bytes) :
    10 ∉ (QuestDbDataSource.resolve parse body).message ↔
      (QuestDbDataSource.checkTable parse body = none → 10 ∉ body.take 120) ∧
        ∀ j text, body ≠ [] → parse body = some j →
          j.find? (bytes "error") = some (.string text) → 10 ∉ text := by
  have herror : 10 ∉ bytes "QuestDB error: " := by decide
  have hpreview : 10 ∉ bytes "QuestDB: parse error — body preview: " := by decide
  rw [QuestDbDataSource.resolve]
  by_cases hbody : body = []
  · simp [hbody, (by decide : 10 ∉ bytes "QuestDB HTTP endpoint unreachable")]
  rw [if_neg hbody]
  cases hcheck : QuestDbDataSource.checkTable parse body with
  | none =>
    simp only [Option.getD_none, List.mem_append, hpreview, false_or, true_implies]
    refine (and_iff_left ?_).symm
    intro j text _ hj htext
    -- an error text that is a string does not throw
    have hsome : QuestDbDataSource.checkTable parse body =
        some ⟨.unreachable, bytes "QuestDB error: " ++ text⟩ := by
      simp [QuestDbDataSource.checkTable, hj, JsonValue.contains, JsonValue.member, htext,
        JsonValue.getString]
    rw [hcheck] at hsome
    cases hsome
  | some r =>
    rw [Option.getD_some]
    rcases checkTable_cases hcheck with ⟨j, text, hj, htext, hmsg⟩ | ⟨hno, hclean⟩
    · rw [hmsg, List.mem_append, or_iff_right herror]
      constructor
      · intro hnot
        refine ⟨fun h => (by cases h), ?_⟩
        intro j' text' _ hj' htext'
        rw [hj, Option.some.injEq] at hj'
        rw [← hj', htext, Option.some.injEq, JsonValue.string.injEq] at htext'
        rwa [← htext']
      · rintro ⟨-, hall⟩
        exact hall j text hbody hj htext
    · refine iff_of_true hclean ⟨fun h => (by cases h), ?_⟩
      intro j text _ hj htext
      exact absurd htext (hno j text hj)

/-- When the message of a built-in source is free of newlines. -/
lemma BuiltinSource.message_clean_iff (parse : Bytes → Option JsonValue) {b : BuiltinSource}
    (hname : 10 ∉ b.name) (call : ℕ) (symbols : List Bytes) (maxStalenessMs : ℕ) :
    10 ∉ (b.resolve parse call symbols maxStalenessMs).message ↔ b.Clean parse call := by
  cases b with
  | exchange name staleness =>
    exact iff_of_true (exchange_message_clean hname _ _) trivial
  | remote name host port reply => exact remote_message_clean_iff hname ..
  | questDb body => exact questDb_message_clean_iff parse (body call)

/-! ## The recorded outcomes -/

/-- Writing a list of entries into a map: the last one of a key counts. -/
lemma foldl_insert_lookup {α β : Type*} (key : α → Bytes) (val : α → β) (l : List α)
    (acc : AList fun _ : Bytes => β) (name : Bytes) :
    (l.foldl (fun m x => m.insert (key x) (val x)) acc).lookup name =
      ((l.reverse.find? fun x => key x = name).map val).or (acc.lookup name) := by
  induction l generalizing acc with
  | nil => simp
  | cons x l ih =>
    rw [List.foldl_cons, ih, List.reverse_cons, List.find?_append]
    cases l.reverse.find? fun x => key x = name with
    | some y => simp
    | none =>
      by_cases hx : key x = name
      · simp [hx]
      · simp [hx, AList.lookup_insert_ne (Ne.symm hx)]

lemma resolvePhase_lookup (p : ReportPipeline) (cfg : ReportConfig) (name : Bytes) :
    (p.resolvePhase cfg).lookup name =
      (lastCall cfg name).map fun x => p.resolveSource cfg x.1 x.2 := by
  rw [ReportPipeline.resolvePhase, foldl_insert_lookup (fun x : SourceConfig × ℕ => x.1.name)
    (fun x => p.resolveSource cfg x.1 x.2)]
  simp [lastCall]

/-- When the outcome that is recorded for a source has no newline in its message. -/
lemma outcomeMessage_clean_iff {p : ReportPipeline} {parse : Bytes → Option JsonValue}
    {sources : Bytes → Option BuiltinSource} (hsources : p.HasSources parse sources)
    (cfg : ReportConfig) {sc : SourceConfig} (hname : 10 ∉ sc.name) :
    10 ∉ outcomeMessage (p.resolvePhase cfg) sc ↔
      ∀ x, lastCall cfg sc.name = some x → ∀ b, sources sc.name = some b → b.Clean parse x.2 := by
  rw [outcomeMessage, resolvePhase_lookup]
  cases hlast : lastCall cfg sc.name with
  | none => simp
  | some x =>
    have hkey : x.1.name = sc.name := by
      rw [lastCall] at hlast
      simpa using List.find?_some hlast
    have hreg := hsources sc.name
    simp only [Option.map_some, Option.getD_some, ReportPipeline.resolveSource, hkey,
      Option.some.injEq, forall_eq']
    cases hb : sources sc.name with
    | none =>
      rw [hb] at hreg
      have hfixed : 10 ∉ bytes ": not registered" := by decide
      simp [hreg, hname, hfixed]
    | some b =>
      rw [hb] at hreg
      obtain ⟨hbname, fetch, hfetch⟩ := hreg
      rw [hfetch]
      have hclean := BuiltinSource.message_clean_iff parse (b := b) (hbname ▸ hname) x.2
        cfg.symbols x.1.maxStalenessMs
      simpa using hclean

lemma mem_replaceQuotes_iff (s : Bytes) : 10 ∈ replaceQuotes s ↔ 10 ∈ s := by
  rw [replaceQuotes, List.mem_map]
  constructor
  · rintro ⟨c, hc, hten⟩
    split at hten
    · cases hten
    · rwa [← hten]
  · intro h
    exact ⟨10, h, rfl⟩

/-- When the messages that a report shows have no newline. -/
lemma shownMessages_clean_iff {p : ReportPipeline} {parse : Bytes → Option JsonValue}
    {sources : Bytes → Option BuiltinSource} (hsources : p.HasSources parse sources)
    {cfg : ReportConfig} (hnames : ∀ sc ∈ cfg.sources, 10 ∉ sc.name) :
    (∀ s ∈ shownMessages (p.resolvePhase cfg) cfg, 10 ∉ s) ↔
      ∀ sc ∈ shownSources (p.resolvePhase cfg) cfg, ∀ x, lastCall cfg sc.name = some x →
        ∀ b, sources sc.name = some b → b.Clean parse x.2 := by
  rw [shownMessages, shownSources]
  cases hfind : cfg.sources.find? (missesRequired (p.resolvePhase cfg)) with
  | some sc =>
    have hname := hnames sc (List.mem_of_find?_eq_some hfind)
    simp only [List.forall_mem_singleton]
    exact outcomeMessage_clean_iff hsources cfg hname
  | none =>
    rw [List.forall_mem_map]
    refine forall₂_congr fun sc hsc => ?_
    rw [mem_replaceQuotes_iff]
    exact outcomeMessage_clean_iff hsources cfg (hnames sc hsc)

/-! ## The theorem -/

lemma toUpper_eq_newline : ∀ {c : UInt8}, toUpper c = 10 → c = 10 := by decide +kernel

lemma mem_of_mem_stripTrailing {s : Bytes} {b : UInt8} (h : b ∈ stripTrailing s) : b ∈ s :=
  List.mem_reverse.mp ((List.dropWhile_sublist _).mem (List.mem_reverse.mp h))

/-- A line without a newline asks for a symbol or a report without one. -/
lemma parseRequest_clean {line : Bytes} (hline : 10 ∉ line) :
    10 ∉ (parseRequest line).symbol ∧ 10 ∉ (parseRequest line).reportName := by
  have hstrip : 10 ∉ stripTrailing line := fun h => hline (mem_of_mem_stripTrailing h)
  have hsymbol : 10 ∉ upper ((stripTrailing line).drop 9) := by
    intro h
    obtain ⟨c, hc, hten⟩ := List.mem_map.mp h
    exact hstrip (toUpper_eq_newline hten ▸ List.mem_of_mem_drop hc)
  have hreport : 10 ∉ stripTrailing ((stripTrailing line).drop 7) :=
    fun h => hstrip (List.mem_of_mem_drop (mem_of_mem_stripTrailing h))
  simp only [parseRequest]
  split
  · exact ⟨List.not_mem_nil, List.not_mem_nil⟩
  · split
    · exact ⟨List.not_mem_nil, List.not_mem_nil⟩
    · split
      · exact ⟨hsymbol, List.not_mem_nil⟩
      · split
        · exact ⟨List.not_mem_nil, hreport⟩
        · exact ⟨List.not_mem_nil, List.not_mem_nil⟩

lemma isAtom_no_control {t : Bytes} (h : Json.IsAtom t) {b : UInt8} (hb : b < 32) : b ∉ t := by
  have hpoint : ∀ c ∈ ([43, 45, 46, 69, 101] : List UInt8), ¬ c < 32 := by decide +kernel
  have hword : ∀ w ∈ [bytes "true", bytes "false", bytes "null"], ∀ c ∈ w, ¬ c < 32 := by
    decide +kernel
  intro hmem
  rcases h with h | rfl | rfl | rfl
  · rcases h.mem hmem with ⟨hlow, -⟩ | hmem
    · exact UInt8.not_lt.mpr (UInt8.le_trans (by decide) hlow) hb
    · exact hpoint b hmem hb
  · exact hword _ (by decide) b hmem hb
  · exact hword _ (by decide) b hmem hb
  · exact hword _ (by decide) b hmem hb

lemma textual_no_newline : Textual (fun s => (10 : UInt8) ∉ s) (fun t => (10 : UInt8) ∉ t) where
  body _ h := h.no_control (by decide)
  append_iff s t hs := by simp [hs]
  atom _ h := isAtom_no_control h (by decide)

/-- What `%.8g` writes has no newline, finite or not. -/
lemma Numeric.no_newline {env : QueryEnv} {pipeline : Option ReportPipeline}
    (h : Numeric env pipeline) (line : Bytes) :
    ∀ t ∈ shownNumbers env pipeline line, (10 : UInt8) ∉ t := by
  have hnonFinite : ∀ t, IsNonFinite t → (10 : UInt8) ∉ t := by
    intro t ht
    rw [IsNonFinite] at ht
    fin_cases ht <;> decide
  intro t ht
  rcases h.shown line t ht with hnumber | hnot
  · exact isAtom_no_control (Or.inl hnumber) (by decide)
  · exact hnonFinite t hnot

lemma oneLine_append_iff (doc : Bytes) : OneLine (doc ++ bytes "\n") ↔ 10 ∉ doc := by
  have hnewline : bytes "\n" = [10] := by decide
  rw [OneLine, hnewline, List.count_append, List.getLast?_concat, ← List.count_eq_zero]
  simp

/-- **Replies of one line.**  Where the names and the line have no newline, and the sources are
the built-in ones, the reply to a line has exactly one newline, its last byte, exactly if the
line does not ask for a configured report, or if the outcomes it shows are clean: that of the
first required source that did not resolve or, if there is none, those of all sources. -/
theorem oneLine_iff (env : QueryEnv) (pipeline : Option ReportPipeline)
    (hnames : Named (fun s => 10 ∉ s) env pipeline) (hnum : Numeric env pipeline)
    (parse : Bytes → Option JsonValue) (sources : Bytes → Option BuiltinSource)
    (hsources : ∀ p ∈ pipeline, p.HasSources parse sources) (line : Bytes) (hline : 10 ∉ line) :
    OneLine (handleLine (env.attach pipeline) line) ↔
      ∀ p ∈ pipeline, (parseRequest line).type = .report →
        ∀ cfg, (loadConfig p.reports).lookup (parseRequest line).reportName = some cfg →
          ∀ sc ∈ shownSources (p.resolvePhase cfg) cfg, ∀ x, lastCall cfg sc.name = some x →
            ∀ b, sources sc.name = some b → b.Clean parse x.2 := by
  -- what the line itself brings into the reply has no newline
  obtain ⟨hsymbol, hreport⟩ := parseRequest_clean hline
  rw [handleLine_eq, oneLine_append_iff, Json.not_mem_render (by decide),
    replyDoc_all_iff textual_no_newline hnames line fun _ => hsymbol,
    and_iff_left (hnum.no_newline line)]
  simp only [echoed]
  cases (parseRequest line).type with
  | snapshot =>
    refine iff_of_true ?_ (by simp)
    dsimp only
    split
    · rw [List.forall_mem_singleton, mem_replaceQuotes_iff]
      exact hsymbol
    · simp
  | report =>
    cases pipeline with
    | none => simp
    | some p =>
      cases hcfg : (loadConfig p.reports).lookup (parseRequest line).reportName with
      | none =>
        refine iff_of_true (by simpa [hcfg] using hreport) ?_
        rintro p' ⟨⟩ - cfg hcfg'
        rw [hcfg] at hcfg'
        cases hcfg'
      | some cfg =>
        -- only the messages of the sources are left
        have hshown := shownMessages_clean_iff (hsources p rfl) (hnames.loaded hcfg).2.2
        simp only [hcfg]
        constructor
        · rintro hmessages p' ⟨⟩ - cfg' hcfg'
          rw [hcfg, Option.some.injEq] at hcfg'
          rw [← hcfg']
          exact hshown.mp hmessages
        · intro h
          exact hshown.mpr (h p rfl trivial cfg hcfg)
  | health => simp
  | listReports => simp
  | unknown => simp

/-! ## A database behind a proxy -/

/-- The database, when what answers in its place is no JSON. -/
def proxied (page : Bytes) : BuiltinSource := .questDb fun _ => page

/-- The report `bbo_summary` on that database. -/
def proxiedPipeline (page : Bytes) : ReportPipeline :=
  soloPipeline (bytes "QuestDB") ((proxied page).resolve fun _ => none)

/-- The sources of that pipeline. -/
def proxiedSources (page name : Bytes) : Option BuiltinSource :=
  if name = bytes "QuestDB" then some (proxied page) else none

lemma hasSources_proxied (page : Bytes) :
    ∀ p ∈ some (proxiedPipeline page), p.HasSources (fun _ => none) (proxiedSources page) := by
  rintro p ⟨⟩ name
  by_cases hname : name = bytes "QuestDB"
  · simp only [proxiedSources, hname, if_true]
    exact ⟨rfl, _, rfl⟩
  · simp only [proxiedSources, hname, if_false, proxiedPipeline, soloPipeline]

lemma named_proxied (page : Bytes) :
    Named (fun s => 10 ∉ s) emptyEnv (some (proxiedPipeline page)) :=
  named_soloPipeline (by decide) (by decide) (by decide) _

theorem oneLine_iff_busyPage :
    OneLine (handleLine (emptyEnv.attach (some (proxiedPipeline (bytes "busy"))))
      (bytes "REPORT bbo_summary")) := by
  refine (oneLine_iff emptyEnv _ (named_proxied _) (numeric_soloPipeline ..) (fun _ => none)
    (proxiedSources (bytes "busy")) (hasSources_proxied _) _ (by decide)).mpr ?_
  rintro p - - cfg - sc - x - b hb
  simp only [proxiedSources] at hb
  split at hb
  · obtain rfl := Option.some.inj hb
    exact ⟨fun _ => (by decide : 10 ∉ (bytes "busy").take 120), fun j text _ hj => by cases hj⟩
  · cases hb

/-- A page of two lines in place of the database gets into the reply with its newline. -/
theorem page_breaks_line :
    Named (fun s => 10 ∉ s) emptyEnv (some (proxiedPipeline (bytes "<html>\n<body>"))) ∧
      Numeric emptyEnv (some (proxiedPipeline (bytes "<html>\n<body>"))) ∧
      (∀ p ∈ some (proxiedPipeline (bytes "<html>\n<body>")),
        p.HasSources (fun _ => none) (proxiedSources (bytes "<html>\n<body>"))) ∧
      10 ∉ bytes "REPORT bbo_summary" ∧
      ¬ OneLine (handleLine (emptyEnv.attach (some (proxiedPipeline (bytes "<html>\n<body>"))))
        (bytes "REPORT bbo_summary")) := by
  refine ⟨named_proxied _, numeric_soloPipeline .., hasSources_proxied _, by decide, ?_⟩
  rintro ⟨hcount, -⟩
  exact absurd hcount (by decide +kernel)

end TickPlant
