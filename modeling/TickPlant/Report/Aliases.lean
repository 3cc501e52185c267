/-
# Entries of one source

A report may list a source more than once, with different thresholds, some required and some
not.  `resolve_phase` calls `resolve` for each entry but keeps one outcome for each name, that
of the last entry; the check of the required entries and the choice of the entries to fetch
look the outcomes up by name.  So an earlier entry is judged by the outcome of a later one.

For a configuration whose source names are distinct this makes no difference, whatever the
sources answer.  In general the report is right exactly if the last outcomes lead to the same
decisions as those of the entries.
-/
import TickPlant.Report.OneLine

namespace TickPlant

namespace ReportPipeline

/-! ## Decisions -/

/-- A report that has been generated, and not an error. -/
def IsOkReport (reply : Bytes) : Prop := bytes "\x7b\"status\":\"ok\"" <+: reply

instance (reply : Bytes) : Decidable (IsOkReport reply) :=
  inferInstanceAs (Decidable (_ <+: _))

/-- The call of `resolve` made for the entry, with its own threshold, has returned `ok`. -/
def ResolvesOk (p : ReportPipeline) (cfg : ReportConfig) (x : SourceConfig × ℕ) : Prop :=
  (p.resolveSource cfg x.1 x.2).status = .ok

/-- The entries that `run` calls `fetch` for. -/
def fetched (p : ReportPipeline) (cfg : ReportConfig) : List (SourceConfig × ℕ) :=
  let resolution := p.resolvePhase cfg
  match cfg.sources.findSome? (unavailable resolution) with
  | some _ => []
  | none => cfg.sources.zipIdx.filter fun x =>
    (resolution.lookup x.1.name).any (fun r => r.status = .ok) && (p.registry x.1.name).isSome

/-- A report succeeds if the calls for all required entries do, and what it fetches are entries
whose calls have succeeded. -/
def RunsRight (p : ReportPipeline) (reportName : Bytes) : Prop :=
  ∀ cfg ∈ (loadConfig p.reports).lookup reportName,
    (IsOkReport (p.run reportName) ↔
      ∀ x ∈ cfg.sources.zipIdx, x.1.required = true → p.ResolvesOk cfg x) ∧
    ∀ x ∈ p.fetched cfg, p.ResolvesOk cfg x

/-- The call for the last entry with this name has returned `ok`. -/
def LastResolvesOk (p : ReportPipeline) (cfg : ReportConfig) (name : Bytes) : Prop :=
  ∃ x ∈ lastCall cfg name, p.ResolvesOk cfg x

/-- The last outcomes lead to the right decisions: either they let the report pass, and then no
entry has failed that has the name of a last one that has not, or they abort it, and then a
required entry has failed. -/
def LastCallsDecide (p : ReportPipeline) (cfg : ReportConfig) : Prop :=
  (∀ x ∈ cfg.sources.zipIdx, x.1.required = true → p.LastResolvesOk cfg x.1.name) ∧
      (∀ x ∈ cfg.sources.zipIdx, p.LastResolvesOk cfg x.1.name → p.ResolvesOk cfg x) ∨
    (∃ x ∈ cfg.sources.zipIdx, x.1.required = true ∧ ¬ p.LastResolvesOk cfg x.1.name) ∧
      ∃ x ∈ cfg.sources.zipIdx, x.1.required = true ∧ ¬ p.ResolvesOk cfg x

/-! ## What the code decides -/

variable {p : ReportPipeline} {cfg : ReportConfig}

/-- The outcome that is kept for a name is `ok` if that of the last call is. -/
lemma recorded_ok_iff (name : Bytes) :
    ((p.resolvePhase cfg).lookup name).any (fun r => r.status = .ok) = true ↔
      p.LastResolvesOk cfg name := by
  rw [resolvePhase_lookup, LastResolvesOk]
  cases lastCall cfg name with
  | none => simp
  | some x => simp [ResolvesOk]

lemma missesRequired_iff (sc : SourceConfig) :
    missesRequired (p.resolvePhase cfg) sc = true ↔
      sc.required = true ∧ ¬ p.LastResolvesOk cfg sc.name := by
  rw [← recorded_ok_iff, missesRequired]
  cases (p.resolvePhase cfg).lookup sc.name <;> simp

/-- A report is aborted if the last outcome of a required source is not `ok`. -/
lemma unavailable_eq_none_iff :
    cfg.sources.findSome? (unavailable (p.resolvePhase cfg)) = none ↔
      ∀ x ∈ cfg.sources.zipIdx, x.1.required = true → p.LastResolvesOk cfg x.1.name := by
  have hsource : ∀ sc, unavailable (p.resolvePhase cfg) sc = none ↔
      (sc.required = true → p.LastResolvesOk cfg sc.name) := by
    intro sc
    rw [unavailable_eq]
    split
    · rename_i hmiss
      have := (missesRequired_iff sc).mp hmiss
      simp [this]
    · rename_i hmiss
      rw [missesRequired_iff] at hmiss
      simpa using hmiss
  rw [List.findSome?_eq_none_iff]
  simp only [hsource]
  constructor
  · intro h x hx
    exact h x.1 (List.fst_mem_of_mem_zipIdx hx)
  · intro h sc hsc hreq
    obtain ⟨i, hi⟩ := List.mem_iff_getElem?.mp hsc
    exact h (sc, i) (List.mem_zipIdx_iff_getElem?.mpr hi) hreq

/-- The reply is a report or an error. -/
lemma isOkReport_runConfig :
    IsOkReport (p.runConfig cfg) ↔
      ∀ x ∈ cfg.sources.zipIdx, x.1.required = true → p.LastResolvesOk cfg x.1.name := by
  rw [← unavailable_eq_none_iff, runConfig]
  cases cfg.sources.findSome? (unavailable (p.resolvePhase cfg)) with
  | none =>
    refine iff_of_true ?_ rfl
    simp only [IsOkReport, generatePhase, List.append_assoc]
    exact List.prefix_append _ _
  | some msg =>
    refine iff_of_false ?_ (by simp)
    intro hok
    have hbegin : (errorText msg).take 14 = bytes "\x7b\"status\":\"err" := rfl
    have := List.prefix_iff_eq_take.mp hok
    rw [show (bytes "\x7b\"status\":\"ok\"").length = 14 from rfl, hbegin] at this
    exact absurd this (by decide)

/-- The last call of a name is one for the name. -/
lemma name_of_lastCall {name : Bytes} {y : SourceConfig × ℕ} (h : lastCall cfg name = some y) :
    y.1.name = name := by
  rw [lastCall] at h
  simpa using List.find?_some h

/-- An entry has a last call of its name. -/
lemma exists_lastCall {x : SourceConfig × ℕ} (hx : x ∈ cfg.sources.zipIdx) :
    ∃ y, lastCall cfg x.1.name = some y ∧ y ∈ cfg.sources.zipIdx ∧ y.1.name = x.1.name := by
  have hsome : (lastCall cfg x.1.name).isSome := by
    rw [lastCall, List.find?_isSome]
    exact ⟨x, List.mem_reverse.mpr hx, by simp⟩
  obtain ⟨y, hy⟩ := Option.isSome_iff_exists.mp hsome
  exact ⟨y, hy, List.mem_reverse.mp (List.mem_of_find?_eq_some hy), name_of_lastCall hy⟩

/-- A source that has resolved is registered. -/
lemma isSome_registry {name : Bytes} (h : p.LastResolvesOk cfg name) :
    (p.registry name).isSome := by
  obtain ⟨y, hy, hok⟩ := h
  rw [ResolvesOk, resolveSource, name_of_lastCall hy] at hok
  cases hreg : p.registry name with
  | none => rw [hreg] at hok; cases hok
  | some src => rfl

/-- The entries that are fetched: if the report is not aborted, those whose last outcome is
`ok`. -/
lemma mem_fetched_iff {x : SourceConfig × ℕ} :
    x ∈ p.fetched cfg ↔
      (∀ y ∈ cfg.sources.zipIdx, y.1.required = true → p.LastResolvesOk cfg y.1.name) ∧
        x ∈ cfg.sources.zipIdx ∧ p.LastResolvesOk cfg x.1.name := by
  rw [← unavailable_eq_none_iff, fetched]
  split
  · rename_i msg hmsg
    simp [hmsg]
  · rename_i hnone
    rw [List.mem_filter, Bool.and_eq_true, recorded_ok_iff]
    constructor
    · rintro ⟨hx, hok, -⟩
      exact ⟨hnone, hx, hok⟩
    · rintro ⟨-, hx, hok⟩
      exact ⟨hx, hok, isSome_registry hok⟩

/-- The calls of `fetch` are those that `pipeline_phase` makes, unless the report is aborted. -/
lemma fetch_fetched (p : ReportPipeline) (cfg : ReportConfig) :
    (p.fetched cfg).filterMap (fun x =>
        (p.registry x.1.name).map fun src => src.fetch x.2 cfg.symbols) =
      if (cfg.sources.findSome? (unavailable (p.resolvePhase cfg))).isSome then []
      else p.pipelinePhase cfg (p.resolvePhase cfg) := by
  rw [fetched]
  split
  · rename_i msg hmsg
    rw [hmsg]
    rfl
  · rename_i hpass
    rw [hpass, if_neg (by simp), pipelinePhase, List.filterMap_filter]
    refine List.filterMap_congr fun x _ => ?_
    cases (p.resolvePhase cfg).lookup x.1.name with
    | none => rfl
    | some r =>
      by_cases hok : r.status = .ok
      · cases p.registry x.1.name <;> simp [hok]
      · simp [hok]

/-! ## When the decisions are right -/

lemma run_of_lookup {reportName : Bytes}
    (hcfg : (loadConfig p.reports).lookup reportName = some cfg) :
    p.run reportName = p.runConfig cfg := by
  rw [run, hcfg]

/-- The decisions of a report are right exactly if the last outcomes lead to them. -/
lemma runsRight_config (reportName : Bytes)
    (hcfg : (loadConfig p.reports).lookup reportName = some cfg) :
    ((IsOkReport (p.run reportName) ↔
        ∀ x ∈ cfg.sources.zipIdx, x.1.required = true → p.ResolvesOk cfg x) ∧
      ∀ x ∈ p.fetched cfg, p.ResolvesOk cfg x) ↔ p.LastCallsDecide cfg := by
  rw [run_of_lookup hcfg, isOkReport_runConfig, LastCallsDecide]
  simp only [mem_fetched_iff]
  by_cases hpass : ∀ x ∈ cfg.sources.zipIdx, x.1.required = true → p.LastResolvesOk cfg x.1.name
  · have hnot : ¬ ∃ x ∈ cfg.sources.zipIdx,
        x.1.required = true ∧ ¬ p.LastResolvesOk cfg x.1.name := by
      rintro ⟨x, hx, hreq, hfail⟩
      exact hfail (hpass x hx hreq)
    constructor
    · rintro ⟨-, hfetch⟩
      exact .inl ⟨hpass, fun x hx hok => hfetch x ⟨hpass, hx, hok⟩⟩
    · rintro (⟨-, hfetch⟩ | ⟨hfail, -⟩)
      · refine ⟨iff_of_true hpass fun x hx hreq => hfetch x hx (hpass x hx hreq), ?_⟩
        rintro x ⟨-, hx, hok⟩
        exact hfetch x hx hok
      · exact absurd hfail hnot
  · have hfail : ∃ x ∈ cfg.sources.zipIdx,
        x.1.required = true ∧ ¬ p.LastResolvesOk cfg x.1.name := by
      by_contra hnone
      refine hpass fun x hx hreq => ?_
      by_contra hbad
      exact hnone ⟨x, hx, hreq, hbad⟩
    constructor
    · rintro ⟨hiff, -⟩
      have hown : ¬ ∀ x ∈ cfg.sources.zipIdx, x.1.required = true → p.ResolvesOk cfg x :=
        fun h => hpass (hiff.mpr h)
      simp only [not_forall] at hown
      obtain ⟨x, hx, hreq, hbad⟩ := hown
      exact .inr ⟨hfail, x, hx, hreq, hbad⟩
    · rintro (⟨h, -⟩ | ⟨-, x, hx, hreq, hbad⟩)
      · exact absurd h hpass
      · exact ⟨iff_of_false hpass fun h => hbad (h x hx hreq), fun y hy => absurd hy.1 hpass⟩

/-- In a list with distinct names every entry is the last of its name. -/
lemma lastCall_of_nodup (hnames : (cfg.sources.map SourceConfig.name).Nodup)
    {x : SourceConfig × ℕ} (hx : x ∈ cfg.sources.zipIdx) : lastCall cfg x.1.name = some x := by
  obtain ⟨y, hy, hmem, hname⟩ := exists_lastCall hx
  obtain ⟨sc, i⟩ := x
  obtain ⟨sc', j⟩ := y
  rw [List.mem_zipIdx_iff_getElem?] at hx hmem
  dsimp only at hx hmem hname hy
  have hj : (cfg.sources.map SourceConfig.name)[j]? = some sc.name := by
    rw [List.getElem?_map, hmem, Option.map_some, hname]
  have hi : (cfg.sources.map SourceConfig.name)[i]? = some sc.name := by
    rw [List.getElem?_map, hx, Option.map_some]
  obtain ⟨hlt, -⟩ := List.getElem?_eq_some_iff.mp hj
  obtain rfl : j = i := (List.getElem?_inj hlt hnames).mp (hj.trans hi.symm)
  rw [hy, ← Option.some.inj (hmem.symm.trans hx)]

/-- Distinct names leave nothing to be mistaken for something else. -/
lemma lastCallsDecide_of_nodup (hnames : (cfg.sources.map SourceConfig.name).Nodup) :
    p.LastCallsDecide cfg := by
  have hlast : ∀ x ∈ cfg.sources.zipIdx, p.LastResolvesOk cfg x.1.name ↔ p.ResolvesOk cfg x := by
    intro x hx
    rw [LastResolvesOk, lastCall_of_nodup hnames hx]
    simp
  by_cases hpass : ∀ x ∈ cfg.sources.zipIdx, x.1.required = true → p.ResolvesOk cfg x
  · refine .inl ⟨fun x hx hreq => (hlast x hx).mpr (hpass x hx hreq), fun x hx => (hlast x hx).mp⟩
  · simp only [not_forall] at hpass
    obtain ⟨x, hx, hreq, hbad⟩ := hpass
    exact .inr ⟨⟨x, hx, hreq, fun h => hbad ((hlast x hx).mp h)⟩, x, hx, hreq, hbad⟩

/-- A source that fails once: at the call `i`. -/
def failsAt (i : ℕ) : DataSource where
  resolve call _ _ := if call = i then ⟨.stale, []⟩ else ⟨.ok, []⟩
  fetch _ _ := ⟨[], ∅, ∅⟩

/-- Where names are repeated, some entry is not the last one of its name. -/
lemma exists_not_last (hnames : ¬ (cfg.sources.map SourceConfig.name).Nodup) :
    ∃ x ∈ cfg.sources.zipIdx, lastCall cfg x.1.name ≠ some x := by
  by_contra hlast
  simp only [not_exists, not_and, not_not] at hlast
  rw [List.nodup_iff_getElem?_ne_getElem?] at hnames
  refine hnames fun i j hij hj heq => ?_
  rw [List.length_map] at hj
  have hi := hij.trans hj
  have hx := hlast (cfg.sources[i], i) (List.mem_zipIdx_iff_getElem?.mpr (by simp [hi]))
  have hy := hlast (cfg.sources[j], j) (List.mem_zipIdx_iff_getElem?.mpr (by simp [hj]))
  have hname : cfg.sources[i].name = cfg.sources[j].name := by simpa [hi, hj] using heq
  dsimp only at hx hy
  rw [hname, hy, Option.some.injEq, Prod.mk.injEq] at hx
  omega

/-- If an entry is not the last one of its name, its source may fail for it alone. -/
lemma exists_not_lastCallsDecide (hnames : ¬ (cfg.sources.map SourceConfig.name).Nodup) :
    ∃ registry, ¬ { p with registry := registry }.LastCallsDecide cfg := by
  obtain ⟨x, hx, hlast⟩ := exists_not_last hnames
  refine ⟨fun _ => some (failsAt x.2), ?_⟩
  set q : ReportPipeline := { p with registry := fun _ => some (failsAt x.2) } with hq
  have hok : ∀ z, q.ResolvesOk cfg z ↔ z.2 ≠ x.2 := by
    intro z
    by_cases hz : z.2 = x.2 <;> simp [ResolvesOk, resolveSource, hq, failsAt, hz]
  -- the last entry of a name is another one, so the outcomes that are kept are all `ok`
  have hkept : ∀ z ∈ cfg.sources.zipIdx, q.LastResolvesOk cfg z.1.name := by
    intro z hz
    obtain ⟨y, hy, hmem, hname⟩ := exists_lastCall hz
    refine ⟨y, hy, (hok y).mpr fun hindex => hlast ?_⟩
    obtain ⟨sc, i⟩ := x
    obtain ⟨sc', j⟩ := y
    obtain rfl : j = i := hindex
    rw [List.mem_zipIdx_iff_getElem?] at hx hmem
    obtain rfl := Option.some.inj (hx.symm.trans hmem)
    rw [hname, hy]
  rintro (⟨-, hown⟩ | ⟨⟨z, hz, -, hbad⟩, -⟩)
  · exact (hok x).mp (hown x hx (hkept x hx)) rfl
  · exact hbad (hkept z hz)

/-- **When a report is decided right.**  The decisions of a report are right exactly if the last
outcomes of its names lead to them; they are right whatever the sources answer exactly if the
names of its entries are distinct.  The entries fetched are those that `pipeline_phase` fetches. -/
theorem runsRight_iff (p : ReportPipeline) (reportName : Bytes) :
    (p.RunsRight reportName ↔
        ∀ cfg ∈ (loadConfig p.reports).lookup reportName, p.LastCallsDecide cfg) ∧
      ((∀ registry, { p with registry := registry }.RunsRight reportName) ↔
        ∀ cfg ∈ (loadConfig p.reports).lookup reportName,
          (cfg.sources.map SourceConfig.name).Nodup) ∧
      ∀ cfg, (p.fetched cfg).filterMap (fun x =>
          (p.registry x.1.name).map fun src => src.fetch x.2 cfg.symbols) =
        if (cfg.sources.findSome? (unavailable (p.resolvePhase cfg))).isSome then []
        else p.pipelinePhase cfg (p.resolvePhase cfg) := by
  have hiff : ∀ p' : ReportPipeline, p'.reports = p.reports → (p'.RunsRight reportName ↔
      ∀ cfg ∈ (loadConfig p.reports).lookup reportName, p'.LastCallsDecide cfg) := by
    intro p' hp'
    rw [RunsRight, hp']
    refine forall₂_congr fun cfg hcfg => ?_
    exact runsRight_config reportName (hp' ▸ hcfg)
  refine ⟨hiff p rfl, ⟨?_, ?_⟩, p.fetch_fetched⟩
  · intro h cfg hcfg
    by_contra hnames
    obtain ⟨registry, hbad⟩ := exists_not_lastCallsDecide (p := p) hnames
    exact hbad ((hiff { p with registry := registry } rfl).mp (h registry) cfg hcfg)
  · intro h registry
    refine (hiff { p with registry := registry } rfl).mpr ?_
    intro cfg hcfg
    exact lastCallsDecide_of_nodup (h cfg hcfg)

/-! ## A source that is listed twice -/

/-- A report that lists a feed as fresh within 50 ms, required, and as fresh within 5000 ms. -/
def daily : ReportConfig where
  name := bytes "daily"
  symbols := [bytes "BTC"]
  sources := [⟨bytes "Binance", true, 50⟩, ⟨bytes "Binance", false, 5000⟩]

/-- The pipeline with this report, when the feed was updated 100 ms ago. -/
def dailyPipeline : ReportPipeline where
  reports := [daily]
  registry name := some
    { resolve _ _ := ExchangeDataSource.resolve name ((∅ : AList _).insert (bytes "Binance") 100)
      fetch _ _ := ⟨name, ∅, ∅⟩ }
  nowMs := 0
  fmtDbl _ := bytes "0"
  configOrder := .entries
  exchangeOrder := .entries

/-- The report is generated although its required entry is stale. -/
theorem stale_required_entry_passes :
    ¬ ∀ (p : ReportPipeline) (reportName : Bytes), p.RunsRight reportName := by
  intro hclaim
  have hright := (hclaim dailyPipeline (bytes "daily") daily (by decide +kernel)).1
  have hgenerated : IsOkReport (dailyPipeline.run (bytes "daily")) := by decide +kernel
  have hresolves := hright.mp hgenerated (⟨bytes "Binance", true, 50⟩, 0) (by decide) rfl
  exact absurd hresolves (by rw [ResolvesOk]; decide +kernel)

end ReportPipeline

end TickPlant
