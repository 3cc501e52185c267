/-
# Well-formed replies

When is a reply a well-formed JSON document?  Exactly when everything it echoes is the contents
of a JSON string and every price, quantity and spread that it shows is finite
(`wellFormed_iff`).  One direction is that a document whose strings are contents of strings and
whose numbers are finite has a well-formed text.  For the other one, an error reply has to be the
object with the two members it is meant to be, and a report is followed with the scanner: a bad
message among the outcomes either stops it at once or swallows its own closing quote; the
string then ends at the opening quote of the next key, and the text goes on with the first byte
of that key, where only a separator may stand.  Once all strings are good, the scanner stops at
the first number that is not finite.
-/
import TickPlant.Report.Echoes
import TickPlant.Engine.Books
import TickPlant.Lib.Number

namespace TickPlant

open Lib

/-- A byte of a plain name: a letter, a digit, `-`, `/` or, as in the names of the shipped
reports, `_`. -/
def IsNameByte (b : UInt8) : Prop :=
  48 ≤ b ∧ b ≤ 57 ∨ 65 ≤ b ∧ b ≤ 90 ∨ 97 ≤ b ∧ b ≤ 122 ∨ b = 45 ∨ b = 47 ∨ b = 95

instance : DecidablePred IsNameByte := fun _ => inferInstanceAs (Decidable (_ ∨ _))

/-- A plain name. -/
def IsName (s : Bytes) : Prop := ∀ b ∈ s, IsNameByte b

/-- A reply that is a well-formed document and a newline; if it is an error, it has exactly the
members `status` and `message`. -/
def WellFormedReply (reply : Bytes) : Prop :=
  ∃ doc, reply = doc ++ bytes "\n" ∧ IsJson doc ∧
    ∀ message, doc = (errorDoc message).render → StringBody message

/-! ## Names -/

lemma isPlain_of_isNameByte : ∀ {b : UInt8}, IsNameByte b → IsPlain b := by
  decide +kernel

lemma stringBody_of_isName {s : Bytes} (h : IsName s) : StringBody s :=
  stringBody_of_plain fun b hb => isPlain_of_isNameByte (h b hb)

lemma isNameByte_toUpper : ∀ {b : UInt8}, IsNameByte b → IsNameByte (toUpper b) := by
  decide +kernel

lemma isName_upper {s : Bytes} (h : IsName s) : IsName (upper s) := by
  intro b hb
  obtain ⟨c, hc, rfl⟩ := List.mem_map.mp hb
  exact isNameByte_toUpper (h c hc)

lemma isName_take {s : Bytes} (h : IsName s) (n : ℕ) : IsName (s.take n) :=
  fun b hb => h b (List.mem_of_mem_take hb)

lemma isName_normalizeSymbol {s : Bytes} (h : IsName s) :
    IsName (normalizeSymbol s) := by
  have hupper := isName_upper h
  simp only [normalizeSymbol]
  split
  · exact isName_take hupper _
  · split
    · exact isName_take hupper _
    · split
      · exact isName_take hupper _
      · split
        · exact isName_take hupper _
        · exact hupper

/-- A symbol that the engine knows is a plain name. -/
lemma known_symbol_isName {env : QueryEnv} {pipeline : Option ReportPipeline}
    (hnames : Named IsName env pipeline) {canonicalSym : Bytes}
    (h : env.engine.getSnapshots env.wsOrder env.fixOrder canonicalSym ≠ []) :
    IsName canonicalSym := by
  obtain ⟨b, hb⟩ := List.exists_mem_of_ne_nil _ h
  obtain ⟨x, hx, -⟩ := List.mem_map.mp (List.mem_of_mem_filter hb)
  rcases List.mem_append.mp hx with hx | hx
  · obtain ⟨hmem, hkey⟩ := List.mem_filter.mp hx
    rw [← of_decide_eq_true hkey]
    exact isName_normalizeSymbol (hnames.wsSymbol x ((env.wsOrder.perm _).mem_iff.mp hmem))
  · obtain ⟨hmem, hkey⟩ := List.mem_filter.mp hx
    rw [← of_decide_eq_true hkey]
    exact isName_normalizeSymbol (hnames.fixSymbol x ((env.fixOrder.perm _).mem_iff.mp hmem))

lemma textual_stringBody : Textual StringBody Json.IsAtom where
  body _ h := h
  append_iff _ _ h := stringBody_append_iff h
  atom _ h := h

/-- The same for documents whose numbers may not be finite. -/
lemma textual_printed : Textual StringBody fun t => Json.IsAtom t ∨ IsNonFinite t where
  body _ h := h
  append_iff _ _ h := stringBody_append_iff h
  atom _ h := Or.inl h

lemma isAtom_iff_isNumber {t : Bytes} (h : IsNumber t ∨ IsNonFinite t) :
    Json.IsAtom t ↔ IsNumber t := by
  refine ⟨fun hatom => h.resolve_right fun hnot => ?_, Or.inl⟩
  have hscan : scanRun .out t ≠ none := by
    rcases hatom with hnumber | rfl | rfl | rfl
    · exact absurd hnumber hnot.not_isNumber
    all_goals decide
  exact hscan (scanRun_nonFinite hnot)

/-! ## Errors and other replies -/

/-- The text of an error determines its message. -/
lemma errorDoc_render_inj {m m' : Bytes} (h : (errorDoc m).render = (errorDoc m').render) :
    m = m' := by
  have htext := (errorText_eq m).trans ((congrArg (· ++ bytes "\n") h).trans (errorText_eq m').symm)
  simpa [ReportPipeline.errorText] using htext

/-- A reply is an error or says that it is none. -/
lemma replyDoc_shape (env : QueryEnv) (pipeline : Option ReportPipeline) (line : Bytes) :
    (∃ m, replyDoc env pipeline line = errorDoc m) ∨
      ∃ ms, replyDoc env pipeline line = .obj ((bytes "status", .str (bytes "ok")) :: ms) := by
  simp only [replyDoc]
  cases (parseRequest line).type with
  | snapshot =>
    simp only [snapshotDoc]
    split
    · exact Or.inl ⟨_, rfl⟩
    · exact Or.inr ⟨_, rfl⟩
  | health => exact Or.inr ⟨_, rfl⟩
  | report =>
    cases pipeline with
    | none => exact Or.inl ⟨_, rfl⟩
    | some p =>
      simp only [ReportPipeline.runDoc]
      split
      · exact Or.inl ⟨_, rfl⟩
      · rw [ReportPipeline.runConfigDoc]
        split
        · exact Or.inl ⟨_, rfl⟩
        · exact Or.inr ⟨_, rfl⟩
  | listReports =>
    cases pipeline with
    | none => exact Or.inl ⟨_, rfl⟩
    | some p => exact Or.inr ⟨_, rfl⟩
  | unknown => exact Or.inl ⟨_, rfl⟩

/-- The texts of the two kinds differ in the first byte of the status. -/
lemma ok_render_ne_error (ms : List (Bytes × Json)) (m : Bytes) :
    (Json.obj ((bytes "status", .str (bytes "ok")) :: ms)).render ≠ (errorDoc m).render := by
  intro h
  have hok : (Json.obj ((bytes "status", .str (bytes "ok")) :: ms)).render[11]? = some 111 := by
    cases ms with
    | nil => rfl
    | cons m ms => rfl
  have herror : (errorDoc m).render[11]? = some 101 := rfl
  rw [h, herror] at hok
  exact absurd hok (by decide)

/-! ## Reports under the scanner -/

/-- A string that is left open ends at the next key, whose first byte is no separator. -/
lemma scanRun_reopened {s name : Bytes} (hs : ∀ b ∈ s, IsPlain b) (hname : IsName name)
    (rest : Bytes) : scanRun (.str .clean) (s ++ quote name ++ rest) = none := by
  have hopen : scanRun (.str .clean) (s ++ [34]) = some .after := by
    rw [scanRun_append, scanRun_str (stringBody_of_plain hs)]
    rfl
  have hnext : ∀ b : UInt8, IsNameByte b ∨ b = 34 → scanStep .after b = none := by
    decide +kernel
  have hsplit : ∃ b rest', (b = 34 ∨ IsNameByte b) ∧
      s ++ quote name ++ rest = (s ++ [34]) ++ b :: rest' := by
    cases name with
    | nil => exact ⟨34, rest, Or.inl rfl, by simp [quote]⟩
    | cons c name =>
      exact ⟨c, name ++ 34 :: rest, Or.inr (hname c List.mem_cons_self), by simp [quote]⟩
  obtain ⟨b, rest', hb, htext⟩ := hsplit
  rw [htext, scanRun_append, hopen, Option.bind_some, scanRun_cons, hnext b hb.symm]
  rfl

lemma not_mem_replaceQuotes (s : Bytes) : (34 : UInt8) ∉ replaceQuotes s := by
  intro h
  obtain ⟨c, -, hc⟩ := List.mem_map.mp h
  split at hc
  · exact absurd hc (by decide)
  · contradiction

section

variable {resolution : AList fun _ : Bytes => ResolutionResult} {sc : SourceConfig}

/-- The scanner gets through an entry whose message is good. -/
lemma scanRun_resolution_good (hname : IsName sc.name)
    (hgood : StringBody (replaceQuotes (outcomeMessage resolution sc))) :
    ∃ q : ScanState, q.Done ∧ scanRun .out (resolutionJson resolution sc) = some q := by
  have hjson := Json.isJson_render _ ((resolutionDoc_all_iff textual_stringBody _ _).mpr hgood)
  obtain ⟨q, hq, hscan⟩ := hjson.scan
  refine ⟨q, hq, ?_⟩
  rw [resolutionJson_eq, memberText, scanRun_append, scanRun_quote (stringBody_of_isName hname),
    Option.bind_some, scanRun_cons]
  exact hscan

/-- After an entry whose message is bad the scanner is still inside the message, if it has not
stopped. -/
lemma scanRun_resolution_bad (hname : IsName sc.name)
    (hbad : ¬ StringBody (replaceQuotes (outcomeMessage resolution sc))) (rest : Bytes) :
    scanRun .out (resolutionJson resolution sc ++ rest) = none ∨
      scanRun .out (resolutionJson resolution sc ++ rest) =
        scanRun (.str .clean) (125 :: rest) := by
  cases hres : resolution.lookup sc.name with
  | none =>
    refine absurd ?_ hbad
    simp only [outcomeMessage, hres]
    decide
  | some r =>
    have hmsg : r.message ≠ [] := by
      intro hmsg
      refine hbad ?_
      simp only [outcomeMessage, hres, Option.map_some, Option.getD_some, hmsg]
      decide
    have hstatus : StringBody (statusStr r.status) := by cases r.status <;> decide
    have htext : resolutionJson resolution sc ++ rest =
        quote sc.name ++ (bytes ":\x7b\"status\":\"" ++ (statusStr r.status ++
          (bytes "\",\"message\":\"" ++ (replaceQuotes r.message ++ 34 :: 125 :: rest)))) := by
      simp only [resolutionJson, hres, if_neg hmsg, quote, List.append_assoc, List.cons_append,
        List.nil_append]
      rfl
    have hbegin : scanRun .out (resolutionJson resolution sc ++ rest) =
        scanRun (.str .clean) (replaceQuotes r.message ++ 34 :: 125 :: rest) := by
      rw [htext, scanRun_append, scanRun_quote (stringBody_of_isName hname), Option.bind_some,
        scanRun_append, show scanRun .after (bytes ":\x7b\"status\":\"") = some (.str .clean)
          from rfl, Option.bind_some, scanRun_append, scanRun_str hstatus, Option.bind_some,
        scanRun_append, show scanRun (.str .clean) (bytes "\",\"message\":\"") =
          some (.str .clean) from rfl, Option.bind_some]
    rw [hbegin]
    simp only [outcomeMessage, hres, Option.map_some, Option.getD_some] at hbad
    exact scanRun_str_bad (not_mem_replaceQuotes _) hbad (125 :: rest)

end

/-- If the scanner gets through the resolution summary, the messages are good.  `tail` is the
text that follows. -/
lemma resolution_good_of_scan (resolution : AList fun _ : Bytes => ResolutionResult)
    {sources : List SourceConfig} (hnames : ∀ sc ∈ sources, IsName sc.name) {tail : Bytes}
    (htail : scanRun (.str .clean) (125 :: tail) = none)
    (hscan : scanRun .out (commaJoin (sources.map (resolutionJson resolution)) ++ tail) ≠ none) :
    ∀ sc ∈ sources, StringBody (replaceQuotes (outcomeMessage resolution sc)) := by
  induction sources with
  | nil => simp
  | cons sc rest ih =>
    have hname := hnames sc List.mem_cons_self
    have hrest : ∀ d ∈ rest, IsName d.name := fun d hd => hnames d (List.mem_cons_of_mem _ hd)
    cases rest with
    | nil =>
      intro d hd
      rw [List.mem_singleton.mp hd]
      by_contra hbad
      rcases scanRun_resolution_bad hname hbad tail with h | h
      · exact hscan h
      · exact hscan (h.trans htail)
    | cons d rest =>
      have htext : commaJoin ((sc :: d :: rest).map (resolutionJson resolution)) ++ tail =
          resolutionJson resolution sc ++
            44 :: (commaJoin ((d :: rest).map (resolutionJson resolution)) ++ tail) := by
        simp [commaJoin]
      rw [htext] at hscan
      have hhead : StringBody (replaceQuotes (outcomeMessage resolution sc)) := by
        by_contra hbad
        rcases scanRun_resolution_bad hname hbad
          (44 :: (commaJoin ((d :: rest).map (resolutionJson resolution)) ++ tail)) with h | h
        · exact hscan h
        · -- the next key closes the string that the bad message left open
          obtain ⟨more, hmore⟩ :=
            commaJoin_starts (resolutionJson resolution d) (rest.map (resolutionJson resolution))
          refine hscan (h.trans ?_)
          rw [List.map_cons, hmore, resolutionJson_eq, memberText]
          have hclosed := scanRun_reopened (s := [125, 44]) (by simp [IsPlain])
            (hrest d List.mem_cons_self)
            (58 :: ((resolutionDoc resolution d).render ++ (more ++ tail)))
          simpa using hclosed
      obtain ⟨q, hq, hgood⟩ := scanRun_resolution_good hname hhead
      rw [scanRun_append, hgood, Option.bind_some, scanRun_cons, scanStep_close hq (Or.inl rfl),
        Option.bind_some] at hscan
      rw [List.forall_mem_cons]
      exact ⟨hhead, ih hrest hscan⟩

/-- If the text of a report is well-formed, the messages are good. -/
lemma report_good_of_isJson {p : ReportPipeline} {cfg : ReportConfig} (hname : IsName cfg.name)
    (hsources : ∀ sc ∈ cfg.sources, IsName sc.name)
    {resolution : AList fun _ : Bytes => ResolutionResult} {data : List SourceData}
    (h : IsJson (p.reportDoc cfg resolution data).render) :
    ∀ sc ∈ cfg.sources, StringBody (replaceQuotes (outcomeMessage resolution sc)) := by
  obtain ⟨q, hq, hscan⟩ := h.scan
  have hline : scanRun .out (p.generatePhase cfg resolution data) ≠ none := by
    rw [p.generatePhase_eq, scanRun_append, hscan, Option.bind_some]
    rcases hq with rfl | rfl <;> exact Option.some_ne_none _
  have hnumber : scanRun .out (toText p.nowMs) = some .out := by
    rw [toText_eq_decimal]
    exact scanRun_number (isNumber_decimal _)
  have htext : p.generatePhase cfg resolution data =
      bytes "\x7b\"status\":\"ok\",\"report\":" ++ (quote cfg.name ++
        (bytes ",\"generated_at_ms\":" ++ (toText p.nowMs ++ (bytes ",\"resolution\":\x7b" ++
          (commaJoin (cfg.sources.map (resolutionJson resolution)) ++
            (bytes "\x7d,\"symbols\":\x7b" ++
              (commaJoin (cfg.symbols.map (symbolJson p.fmtDbl p.exchangeOrder data)) ++
                bytes "\x7d\x7d\n"))))))) := by
    simp only [ReportPipeline.generatePhase, commaList_eq, quote, List.append_assoc,
      List.cons_append, List.nil_append]
    rfl
  rw [htext, scanRun_append, show scanRun .out (bytes "\x7b\"status\":\"ok\",\"report\":") =
      some .out from rfl, Option.bind_some, scanRun_append,
    scanRun_quote (stringBody_of_isName hname), Option.bind_some, scanRun_append,
    show scanRun .after (bytes ",\"generated_at_ms\":") = some .out from rfl, Option.bind_some,
    scanRun_append, hnumber, Option.bind_some, scanRun_append,
    show scanRun .out (bytes ",\"resolution\":\x7b") = some .out from rfl,
    Option.bind_some] at hline
  refine resolution_good_of_scan resolution hsources ?_ hline
  rw [← List.cons_append, scanRun_append]
  rfl

/-! ## The theorem -/

/-- A reply that is no error and well-formed echoes nothing bad. -/
lemma echoed_good_of_isJson {env : QueryEnv} {pipeline : Option ReportPipeline}
    (hnames : Named IsName env pipeline) {line : Bytes} {ms : List (Bytes × Json)}
    (hok : replyDoc env pipeline line = .obj ((bytes "status", .str (bytes "ok")) :: ms))
    (h : IsJson (replyDoc env pipeline line).render) :
    ∀ s ∈ echoed env pipeline line, StringBody s := by
  -- a reply with status ok is none of the error replies
  have hne : ∀ m, replyDoc env pipeline line ≠ errorDoc m := by
    intro m hm
    exact ok_render_ne_error ms m (congrArg Json.render (hok.symm.trans hm))
  simp only [replyDoc] at h hne
  simp only [echoed]
  cases hreq : (parseRequest line).type with
  | snapshot =>
    simp only [hreq, snapshotDoc] at hne
    split at hne
    · exact absurd rfl (hne _)
    · rename_i hbooks
      simp [hbooks]
  | health => simp
  | report =>
    cases pipeline with
    | none => simp
    | some p =>
      simp only [hreq, ReportPipeline.runDoc] at hne h
      cases hcfg : (loadConfig p.reports).lookup (parseRequest line).reportName with
      | none =>
        simp only [hcfg] at hne
        exact absurd rfl (hne _)
      | some cfg =>
        simp only [hcfg, ReportPipeline.runConfigDoc, findSome_unavailable] at hne h
        obtain ⟨hname, -, hsources⟩ := hnames.loaded hcfg
        simp only [hcfg, shownMessages]
        cases hfind : cfg.sources.find? (missesRequired (p.resolvePhase cfg)) with
        | some sc =>
          simp only [hfind, Option.bind_some, unavailable_eq,
            if_pos (List.find?_some hfind)] at hne
          exact absurd rfl (hne _)
        | none =>
          simp only [hfind, Option.bind_none] at h
          rw [List.forall_mem_map]
          exact report_good_of_isJson hname hsources h
  | listReports => simp
  | unknown => simp

/-- A reply that is well-formed shows no number that is not finite. -/
lemma shown_good_of_isJson {env : QueryEnv} {pipeline : Option ReportPipeline}
    (hnames : Named IsName env pipeline) (hnum : Numeric env pipeline) {line : Bytes}
    (hechoed : ∀ s ∈ echoed env pipeline line, StringBody s)
    (h : IsJson (replyDoc env pipeline line).render) :
    ∀ t ∈ shownNumbers env pipeline line, IsNumber t := by
  have hsym : env.engine.getSnapshots env.wsOrder env.fixOrder (parseRequest line).symbol ≠ [] →
      StringBody (parseRequest line).symbol :=
    fun hbooks => stringBody_of_isName (known_symbol_isName hnames hbooks)
  have hbodies := hnames.mono fun _ h => stringBody_of_isName h
  have hshown := hnum.shown line
  have hprinted : (replyDoc env pipeline line).Printed :=
    (replyDoc_all_iff textual_printed hbodies line hsym).mpr
      ⟨hechoed, fun t ht => (hshown t ht).imp_left Or.inl⟩
  have hgood := (replyDoc_all_iff textual_stringBody hbodies line hsym).mp
    ((Json.isJson_render_iff hprinted).mp h)
  exact fun t ht => (isAtom_iff_isNumber (hshown t ht)).mp (hgood.2 t ht)

/-- **Well-formed replies.**  Where the names of the engine, of the configuration and of the
fetched data are plain, the reply to a line is a well-formed document exactly if every price,
quantity and spread that it shows is finite, and everything it echoes is the contents of a string:
the symbol of a `SNAPSHOT` that is not known, with its quotes replaced; the name of a `REPORT` that
is not known, as it is; the message of the first required source that did not resolve, as it is;
and if there is none, the messages of all sources of the report, with their quotes replaced. -/
theorem wellFormed_iff (env : QueryEnv) (pipeline : Option ReportPipeline)
    (hnames : Named IsName env pipeline) (hnum : Numeric env pipeline) (line : Bytes) :
    WellFormedReply (handleLine (env.attach pipeline) line) ↔
      (∀ s ∈ echoed env pipeline line, StringBody s) ∧
        ∀ t ∈ shownNumbers env pipeline line, IsNumber t := by
  have hall := replyDoc_all_iff textual_stringBody
    (hnames.mono fun _ h => stringBody_of_isName h) line
    fun hbooks => stringBody_of_isName (known_symbol_isName hnames hbooks)
  rw [handleLine_eq]
  constructor
  · rintro ⟨doc, htext, hjson, herror⟩
    obtain rfl := List.append_cancel_right htext
    have hechoed : ∀ s ∈ echoed env pipeline line, StringBody s := by
      rcases replyDoc_shape env pipeline line with ⟨m, hm⟩ | ⟨ms, hms⟩
      · refine (hall.mp ?_).1
        rw [hm, errorDoc_all_iff textual_stringBody]
        exact herror m (congrArg Json.render hm)
      · exact echoed_good_of_isJson hnames hms hjson
    exact ⟨hechoed, shown_good_of_isJson hnames hnum hechoed hjson⟩
  · rintro ⟨hechoed, hshown⟩
    have hgood := hall.mpr ⟨hechoed, fun t ht => Or.inl (hshown t ht)⟩
    refine ⟨_, rfl, Json.isJson_render _ hgood, ?_⟩
    intro m hm
    rcases replyDoc_shape env pipeline line with ⟨m', hm'⟩ | ⟨ms, hms⟩
    · rw [hm'] at hgood hm
      rw [← errorDoc_render_inj hm]
      exact (errorDoc_all_iff textual_stringBody m').mp hgood
    · rw [hms] at hm
      exact absurd hm (ok_render_ne_error ms m)

/-! ## A server with one report -/

/-- A source that is live. -/
def livePipeline : ReportPipeline := soloPipeline (bytes "Binance") fun _ _ _ => ⟨.ok, []⟩

lemma named_livePipeline : Named IsName emptyEnv (some livePipeline) :=
  named_soloPipeline (by unfold IsName; decide +kernel) (by unfold IsName; decide +kernel)
    (by unfold IsName; decide +kernel) _

/-- A server whose engine has one book of `BTC`, with a bid at this price. -/
def bookEnv (price : ℚ) : QueryEnv :=
  { emptyEnv with
    engine := (ArbitrageEngine.new false).runCalls
      [(0, .ws ⟨bytes "BTCUSDT", bytes "Binance", 0, true, [⟨price, 1, 0⟩], [⟨101, 2, 0⟩]⟩)]
    fmtDbl := gDouble 8 }

lemma named_bookEnv : Named IsName (bookEnv 100) (some livePipeline) :=
  { named_livePipeline with
    wsSymbol := by unfold IsName; decide +kernel
    wsBook := by unfold IsName; decide +kernel
    fixSymbol := by unfold IsName; decide +kernel
    fixBook := by unfold IsName; decide +kernel }

lemma numeric_bookEnv (price : ℚ) : Numeric (bookEnv price) (some livePipeline) :=
  ⟨isNumber_gDouble 8, (numeric_soloPipeline ..).report⟩

/-- The reply to a `SNAPSHOT` of the book, with four numbers. -/
theorem wellFormed_iff_snapshot :
    WellFormedReply
      (handleLine ((bookEnv 100).attach (some livePipeline)) (bytes "SNAPSHOT BTC")) := by
  have hshown : shownNumbers (bookEnv 100) (some livePipeline) (bytes "SNAPSHOT BTC") =
      ([100, 1, 101, 2] : List ℚ).map (gText 8) := by decide +kernel
  refine (wellFormed_iff (bookEnv 100) (some livePipeline) named_bookEnv (numeric_bookEnv 100)
    _).mpr ⟨by decide +kernel, ?_⟩
  rw [hshown, List.forall_mem_map]
  exact fun q _ => isNumber_gText 8 q

/-- A well-formed reply passes the scanner. -/
lemma WellFormedReply.scan {reply : Bytes} (h : WellFormedReply reply) :
    Scans reply.dropLast := by
  obtain ⟨doc, rfl, hjson, -⟩ := h
  have hlast : (doc ++ bytes "\n").dropLast = doc := List.dropLast_concat
  rw [hlast]
  exact hjson.scan

lemma not_scans {t : Bytes} (h : ∀ q, scanRun .out t = some q → q ≠ .out ∧ q ≠ .after) :
    ¬ Scans t := by
  rintro ⟨q, hq, hscan⟩
  obtain ⟨hout, hafter⟩ := h q hscan
  exact hq.elim hout hafter

/-- Neither the name of an unknown report with a quote in it nor an unknown symbol that ends in
a backslash gets a well-formed reply. -/
theorem echo_breaks_reply :
    Named IsName emptyEnv (some livePipeline) ∧ Numeric emptyEnv (some livePipeline) ∧
      ¬ WellFormedReply
        (handleLine (emptyEnv.attach (some livePipeline)) (bytes "REPORT x\"y")) ∧
      ¬ WellFormedReply
        (handleLine (emptyEnv.attach (some livePipeline)) (bytes "SNAPSHOT \\")) := by
  refine ⟨named_livePipeline, numeric_soloPipeline .., fun h => not_scans ?_ h.scan,
    fun h => not_scans ?_ h.scan⟩
  · have hrun : scanRun .out (handleLine (emptyEnv.attach (some livePipeline))
        (bytes "REPORT x\"y")).dropLast = none := by decide +kernel
    simp [hrun]
  · have hrun : scanRun .out (handleLine (emptyEnv.attach (some livePipeline))
        (bytes "SNAPSHOT \\")).dropLast = some (.str .clean) := by decide +kernel
    simp [hrun]

/-- A price beyond the doubles is printed as `inf`, which is no JSON. -/
example : ¬ WellFormedReply
    (handleLine ((bookEnv (10 ^ 400)).attach (some livePipeline)) (bytes "SNAPSHOT BTC")) := by
  have hrun : scanRun .out (handleLine ((bookEnv (10 ^ 400)).attach (some livePipeline))
      (bytes "SNAPSHOT BTC")).dropLast = none := by decide +kernel
  exact fun h => not_scans (by simp [hrun]) h.scan

end TickPlant
