/-
# The freshness of a node, near and far

A report can be based on the feeds of the own engine, each with a source of its own, or on
another node, asked for its `HEALTH`.  Both go back to `get_feed_staleness_ms`, which takes the
minimum over the books of each feed; the node prints it and the remote source reads it back,
with `-1` in the place of the value that stands for a feed without data.

So the remote source is fresh exactly if one of the feeds of the node is, for every threshold,
and it never takes a node that answers for one that does not.
-/
import TickPlant.Report.Reading
import TickPlant.Report.Symbols

namespace TickPlant

open Lib
open ArbitrageEngine (BookId uint64Max feeds)

namespace ArbitrageEngine

/-! ## The staleness of a feed -/

/-- The feed that the scan counts a book to. -/
def scannedExchange : BookId → Bytes
  | .ws key => keyExchange key
  | .fix _ => bytes "FIX"

/-- How long ago the books of an exchange were updated, those that have been. -/
def agesOf (e : ArbitrageEngine) (nowMs : ℕ) (ex : Bytes) : Set ℕ :=
  {age | ∃ id b, e.bookOf id = some b ∧ scannedExchange id = ex ∧ b.lastUpdateMs ≠ 0 ∧
    age = nowMs - b.lastUpdateMs}

/-- One turn of the loops, for the entry of one exchange. -/
lemma lookup_addStaleness (nowMs : ℕ) (exch : Bytes) (b : OrderBook)
    {m : AList fun _ : Bytes => ℕ} {ex : Bytes} {v : ℕ} (h : m.lookup ex = some v) :
    (addStaleness nowMs exch m b).lookup ex =
      some (if exch = ex ∧ b.lastUpdateMs ≠ 0 then min (nowMs - b.lastUpdateMs) v else v) := by
  rw [addStaleness]
  by_cases hzero : b.lastUpdateMs = 0
  · rw [if_pos hzero, h, if_neg fun hc => hc.2 hzero]
  · rw [if_neg hzero]
    by_cases hex : exch = ex
    · subst hex
      have hcond : exch = exch ∧ b.lastUpdateMs ≠ 0 := ⟨rfl, hzero⟩
      rw [AList.lookup_insert, h, if_pos hcond]
      refine congrArg some ?_
      dsimp only [Option.getD_some]
      split_ifs <;> omega
    · rw [AList.lookup_insert_ne (Ne.symm hex), h, if_neg fun hc => hex hc.1]

/-- The minimum of two values, one of which is already the minimum of a set with the other. -/
lemma isLeast_insert_min {A : Set ℕ} {a v w : ℕ} (h : IsLeast (insert (min a v) A) w) :
    IsLeast (insert v (insert a A)) w := by
  obtain ⟨hmem, hlower⟩ := h
  have hmin : w ≤ min a v := hlower (Set.mem_insert _ _)
  constructor
  · rcases hmem with rfl | hmem
    · rcases min_choice a v with hmin | hmin
      · rw [hmin]
        exact .inr (.inl rfl)
      · rw [hmin]
        exact .inl rfl
    · exact .inr (.inr hmem)
  · rintro s (rfl | rfl | hs)
    · omega
    · omega
    · exact hlower (.inr hs)

/-- The loops leave the minimum of what was there and the ages of the books. -/
lemma lookup_foldl_addStaleness (nowMs : ℕ) (L : List (Bytes × OrderBook))
    {m : AList fun _ : Bytes => ℕ} {ex : Bytes} {v : ℕ} (h : m.lookup ex = some v) :
    ∃ w, (L.foldl (fun m x => addStaleness nowMs x.1 m x.2) m).lookup ex = some w ∧
      IsLeast (insert v {age | ∃ x ∈ L, x.1 = ex ∧ x.2.lastUpdateMs ≠ 0 ∧
        age = nowMs - x.2.lastUpdateMs}) w := by
  induction L generalizing m v with
  | nil => exact ⟨v, h, by simp⟩
  | cons x L ih =>
    obtain ⟨w, hw, hleast⟩ := ih (lookup_addStaleness nowMs x.1 x.2 h)
    refine ⟨w, hw, ?_⟩
    by_cases hcond : x.1 = ex ∧ x.2.lastUpdateMs ≠ 0
    · have hages : {age | ∃ y ∈ x :: L, y.1 = ex ∧ y.2.lastUpdateMs ≠ 0 ∧
          age = nowMs - y.2.lastUpdateMs} = insert (nowMs - x.2.lastUpdateMs)
            {age | ∃ y ∈ L, y.1 = ex ∧ y.2.lastUpdateMs ≠ 0 ∧ age = nowMs - y.2.lastUpdateMs} := by
        ext age
        simp [hcond]
      rw [if_pos hcond] at hleast
      rw [hages]
      exact isLeast_insert_min hleast
    · have hages : {age | ∃ y ∈ x :: L, y.1 = ex ∧ y.2.lastUpdateMs ≠ 0 ∧
          age = nowMs - y.2.lastUpdateMs} =
            {age | ∃ y ∈ L, y.1 = ex ∧ y.2.lastUpdateMs ≠ 0 ∧ age = nowMs - y.2.lastUpdateMs} := by
        ext age
        show (∃ y ∈ x :: L, _) ↔ ∃ y ∈ L, _
        rw [List.exists_mem_cons_iff, or_iff_right_iff_imp]
        rintro ⟨hex, hzero, -⟩
        exact absurd ⟨hex, hzero⟩ hcond
      rw [if_neg hcond] at hleast
      rwa [hages]

/-- A name without an entry gets the value `0` with its first book that has been updated, which no
age is below. -/
lemma lookup_foldl_addStaleness_none (nowMs : ℕ) (L : List (Bytes × OrderBook))
    {m : AList fun _ : Bytes => ℕ} {ex : Bytes} (h : m.lookup ex = none) :
    (L.foldl (fun m x => addStaleness nowMs x.1 m x.2) m).lookup ex = some 0 ∧
        (∃ x ∈ L, x.1 = ex ∧ x.2.lastUpdateMs ≠ 0) ∨
      (L.foldl (fun m x => addStaleness nowMs x.1 m x.2) m).lookup ex = none ∧
        ¬ ∃ x ∈ L, x.1 = ex ∧ x.2.lastUpdateMs ≠ 0 := by
  induction L generalizing m with
  | nil => exact Or.inr ⟨h, by simp⟩
  | cons x L ih =>
    rw [List.foldl_cons, List.exists_mem_cons_iff]
    by_cases hcond : x.1 = ex ∧ x.2.lastUpdateMs ≠ 0
    · have hzero : (addStaleness nowMs x.1 m x.2).lookup ex = some 0 := by
        rw [addStaleness, if_neg hcond.2, hcond.1, AList.lookup_insert, h]
        simp
      obtain ⟨w, hw, hleast⟩ := lookup_foldl_addStaleness nowMs L hzero
      obtain rfl : w = 0 := Nat.le_zero.mp (hleast.2 (Set.mem_insert _ _))
      exact Or.inl ⟨hw, Or.inl hcond⟩
    · have hnone : (addStaleness nowMs x.1 m x.2).lookup ex = none := by
        rw [addStaleness]
        by_cases hzero : x.2.lastUpdateMs = 0
        · rw [if_pos hzero, h]
        · rw [if_neg hzero, AList.lookup_insert_ne fun hex => hcond ⟨hex.symm, hzero⟩, h]
      rw [or_iff_right hcond]
      exact ih hnone

variable {wsOrder fixOrder : IterationOrder (Σ _ : Bytes, OrderBook)} {nowMs : ℕ}
  {e : ArbitrageEngine} {ex : Bytes}

/-- The books that the scans meet, with the feeds that they are counted to. -/
lemma exists_scanned_iff {R : Bytes → OrderBook → Prop} :
    (∃ x ∈ (wsOrder.visit e.wsBooks.entries).map (fun x => (keyExchange x.1, x.2)) ++
      (fixOrder.visit e.fixBooks.entries).map (fun x => (bytes "FIX", x.2)), R x.1 x.2) ↔
      ∃ id b, e.bookOf id = some b ∧ R (scannedExchange id) b := by
  have hvisit : ∀ (order : IterationOrder (Σ _ : Bytes, OrderBook)) (books : BookMap) (k : Bytes)
      (b : OrderBook), ⟨k, b⟩ ∈ order.visit books.entries ↔ books.lookup k = some b := by
    intro order books k b
    rw [(order.perm books.entries).mem_iff]
    exact AList.mem_lookup_iff.symm
  constructor
  · rintro ⟨x, hx, hR⟩
    rcases List.mem_append.mp hx with hx | hx
    · obtain ⟨⟨key, b⟩, hmem, rfl⟩ := List.mem_map.mp hx
      exact ⟨.ws key, b, (hvisit wsOrder e.wsBooks key b).mp hmem, hR⟩
    · obtain ⟨⟨symbol, b⟩, hmem, rfl⟩ := List.mem_map.mp hx
      exact ⟨.fix symbol, b, (hvisit fixOrder e.fixBooks symbol b).mp hmem, hR⟩
  · rintro ⟨id, b, hb, hR⟩
    cases id with
    | ws key =>
      have hmem := (hvisit wsOrder e.wsBooks key b).mpr hb
      exact ⟨_, List.mem_append_left _ (List.mem_map_of_mem hmem), hR⟩
    | fix symbol =>
      have hmem := (hvisit fixOrder e.fixBooks symbol b).mpr hb
      exact ⟨_, List.mem_append_right _ (List.mem_map_of_mem hmem), hR⟩

/-- The entry of a feed is the least age of its books, or the greatest value of its type. -/
lemma lookup_getFeedStalenessMs (hex : ex ∈ feeds) :
    ∃ ms, (e.getFeedStalenessMs wsOrder fixOrder nowMs).lookup ex = some ms ∧
      IsLeast (insert uint64Max (e.agesOf nowMs ex)) ms := by
  have hinit : ∀ ex ∈ feeds, (feeds.foldl (fun m ex => m.insert ex uint64Max)
      (∅ : AList fun _ : Bytes => ℕ)).lookup ex = some uint64Max := by decide
  have hloops := lookup_foldl_addStaleness nowMs
    ((wsOrder.visit e.wsBooks.entries).map (fun x => (keyExchange x.1, x.2)) ++
      (fixOrder.visit e.fixBooks.entries).map fun x => (bytes "FIX", x.2)) (hinit ex hex)
  rw [List.foldl_append, List.foldl_map, List.foldl_map] at hloops
  have hages : {age | ∃ x ∈
      (wsOrder.visit e.wsBooks.entries).map (fun x => (keyExchange x.1, x.2)) ++
        (fixOrder.visit e.fixBooks.entries).map (fun x => (bytes "FIX", x.2)),
        x.1 = ex ∧ x.2.lastUpdateMs ≠ 0 ∧ age = nowMs - x.2.lastUpdateMs} = e.agesOf nowMs ex := by
    ext age
    exact exists_scanned_iff (R := fun exch b =>
      exch = ex ∧ b.lastUpdateMs ≠ 0 ∧ age = nowMs - b.lastUpdateMs)
  rwa [hages] at hloops

/-- The entry of another name is `0`, or missing when no book of that name has been updated. -/
lemma lookup_getFeedStalenessMs_of_notMem (e : ArbitrageEngine)
    (wsOrder fixOrder : IterationOrder (Σ _ : Bytes, OrderBook)) (nowMs : ℕ) (hex : ex ∉ feeds) :
    (e.getFeedStalenessMs wsOrder fixOrder nowMs).lookup ex = some 0 ∧
        (∃ id b, e.bookOf id = some b ∧ scannedExchange id = ex ∧ b.lastUpdateMs ≠ 0) ∨
      (e.getFeedStalenessMs wsOrder fixOrder nowMs).lookup ex = none ∧
        ¬ ∃ id b, e.bookOf id = some b ∧ scannedExchange id = ex ∧ b.lastUpdateMs ≠ 0 := by
  have hinit : (feeds.foldl (fun m ex => m.insert ex uint64Max)
      (∅ : AList fun _ : Bytes => ℕ)).lookup ex = none := by
    simp only [feeds, List.mem_cons, List.not_mem_nil, or_false, not_or] at hex
    obtain ⟨h1, h2, h3, h4, h5⟩ := hex
    simp only [feeds, List.foldl_cons, List.foldl_nil]
    rw [AList.lookup_insert_ne h5, AList.lookup_insert_ne h4, AList.lookup_insert_ne h3,
      AList.lookup_insert_ne h2, AList.lookup_insert_ne h1, AList.lookup_empty]
  have hloops := lookup_foldl_addStaleness_none nowMs
    ((wsOrder.visit e.wsBooks.entries).map (fun x => (keyExchange x.1, x.2)) ++
      (fixOrder.visit e.fixBooks.entries).map fun x => (bytes "FIX", x.2)) hinit
  rw [List.foldl_append, List.foldl_map, List.foldl_map,
    exists_scanned_iff (R := fun exch b => exch = ex ∧ b.lastUpdateMs ≠ 0)] at hloops
  exact hloops

/-- Every age is below the greatest value of its type. -/
lemma lt_of_mem_agesOf (hnow : nowMs < 2 ^ 64) {age : ℕ} (h : age ∈ e.agesOf nowMs ex) :
    age < uint64Max := by
  obtain ⟨id, b, -, -, hzero, rfl⟩ := h
  rw [uint64Max]
  omega

/-- The greatest value stands for a feed none of whose books has been updated. -/
lemma isLeast_agesOf (hnow : nowMs < 2 ^ 64) {ms : ℕ}
    (h : IsLeast (insert uint64Max (e.agesOf nowMs ex)) ms) :
    (ms = uint64Max ↔ e.agesOf nowMs ex = ∅) ∧ (ms ≠ uint64Max → IsLeast (e.agesOf nowMs ex) ms) := by
  obtain ⟨hmem, hlower⟩ := h
  have hages : ∀ age ∈ e.agesOf nowMs ex, ms ≤ age := fun age hage => hlower (.inr hage)
  constructor
  · constructor
    · intro hms
      rw [Set.eq_empty_iff_forall_notMem]
      intro age hage
      have := lt_of_mem_agesOf hnow hage
      have := hages age hage
      omega
    · intro hempty
      rw [hempty] at hmem
      exact hmem.resolve_right (Set.notMem_empty ms)
  · intro hms
    exact ⟨hmem.resolve_left hms, hages⟩

/-- Where exchanges have no colons in their names, the books counted to a feed are those of the
exchange. -/
lemma BooksFrom.scannedExchange_eq (h : e.BooksFrom {f | f.ColonFree}) {id : BookId}
    {b : OrderBook} (hb : e.bookOf id = some b) : scannedExchange id = b.exchange := by
  obtain ⟨f, hf, rfl, hnames⟩ := h id b hb
  rw [hnames.1]
  cases f with
  | ws exchange symbol => exact keyExchange_key hf symbol
  | fix symbol => rfl

end ArbitrageEngine

/-! ## The reply -/

/-- The keys of a `HEALTH` reply are distinct. -/
lemma healthDoc_distinctKeys (staleness : AList fun _ : Bytes => ℕ) :
    (healthDoc staleness).DistinctKeys := by
  refine ⟨(by decide : [bytes "status", bytes "feeds"].Nodup), trivial, ?_, trivial⟩
  rw [Json.DistinctKeys, Json.distinctKeysItems_iff]
  intro j hj
  obtain ⟨ex, -, hmap⟩ := List.mem_filterMap.mp hj
  obtain ⟨ms, -, rfl⟩ := Option.map_eq_some_iff.mp hmap
  exact ⟨(by decide : [bytes "exchange", bytes "staleness_ms", bytes "live"].Nodup), trivial,
    trivial, trivial, trivial⟩

/-- What the remote source reads as the staleness of a feed. -/
def readStaleness (ms : ℕ) : ℤ := if ms = uint64Max then -1 else ms

lemma getInt64_staleness {ms : ℕ} (h : ms ≠ uint64Max → ms < 2 ^ 63) :
    (JsonValue.ofAtom (if ms = uint64Max then bytes "-1" else toText ms)).getInt64 =
      some (readStaleness ms) := by
  rw [readStaleness]
  split
  · rfl
  · rename_i hms
    have hlt := h hms
    rw [ofAtom_toText (by omega), JsonValue.getInt64, Int.bmod_eq_of_le (by omega) (by omega)]

/-- The test of the remote source is that of the feed's own source. -/
lemma readStaleness_live_iff (ms maxStalenessMs : ℕ) :
    (0 ≤ readStaleness ms ∧ readStaleness ms ≤ maxStalenessMs) ↔
      ms ≠ uint64Max ∧ ms ≤ maxStalenessMs := by
  rw [readStaleness]
  split
  · rename_i hms
    simp [hms]
  · rename_i hms
    simp [hms]

/-- The loop over the feeds of the reply stops at the first one that is live. -/
lemma anyLive_feeds (feed : Bytes → Option ℕ) (maxStalenessMs : ℕ) {exs : List Bytes}
    (h : ∀ ex ∈ exs, ∀ ms, feed ex = some ms → ms ≠ uint64Max → ms < 2 ^ 63) :
    RemoteDataSource.anyLive maxStalenessMs
        ((exs.filterMap fun ex => (feed ex).map (feedDoc 2000 ex)).map .ofDoc) =
      some (decide (∃ ex ∈ exs, ∃ ms, feed ex = some ms ∧ ms ≠ uint64Max ∧ ms ≤ maxStalenessMs)) := by
  induction exs with
  | nil => simp [RemoteDataSource.anyLive]
  | cons ex exs ih =>
    have ih := ih fun ex' hex' => h ex' (List.mem_cons_of_mem ex hex')
    cases hfeed : feed ex with
    | none => simpa [hfeed] using ih
    | some ms =>
      have hread : (JsonValue.ofDoc (feedDoc 2000 ex ms)).value (bytes "staleness_ms")
          JsonValue.getInt64 (-1) = some (readStaleness ms) :=
        getInt64_staleness (h ex List.mem_cons_self ms hfeed)
      rw [List.filterMap_cons, hfeed, Option.map_some]
      dsimp only
      rw [List.map_cons, RemoteDataSource.anyLive, hread]
      show (if 0 ≤ readStaleness ms ∧ readStaleness ms ≤ maxStalenessMs then some true else _) = _
      rw [ih]
      by_cases hlive : ms ≠ uint64Max ∧ ms ≤ maxStalenessMs
      · rw [if_pos ((readStaleness_live_iff ms maxStalenessMs).mpr hlive)]
        have hsome : ∃ ex' ∈ ex :: exs, ∃ ms, feed ex' = some ms ∧ ms ≠ uint64Max ∧
            ms ≤ maxStalenessMs := ⟨ex, List.mem_cons_self, ms, hfeed, hlive⟩
        rw [decide_eq_true hsome]
      · rw [if_neg fun h => hlive ((readStaleness_live_iff ms maxStalenessMs).mp h)]
        have hskip : (∃ ex' ∈ ex :: exs, ∃ ms, feed ex' = some ms ∧ ms ≠ uint64Max ∧
            ms ≤ maxStalenessMs) ↔ ∃ ex' ∈ exs, ∃ ms, feed ex' = some ms ∧ ms ≠ uint64Max ∧
              ms ≤ maxStalenessMs := by
          rw [List.exists_mem_cons_iff, or_iff_right_iff_imp]
          rintro ⟨ms', hms', hlive'⟩
          obtain rfl : ms = ms' := Option.some.inj (hfeed.symm.trans hms')
          exact absurd hlive' hlive
        simp only [hskip]

/-- The source of a feed is fresh exactly if the entry of the feed is within the threshold. -/
lemma exchange_resolve_ok_iff (name : Bytes) (staleness : AList fun _ : Bytes => ℕ)
    (maxStalenessMs : ℕ) :
    (ExchangeDataSource.resolve name staleness maxStalenessMs).status = .ok ↔
      ∃ ms, staleness.lookup name = some ms ∧ ms ≠ uint64Max ∧ ms ≤ maxStalenessMs := by
  rw [ExchangeDataSource.resolve]
  cases staleness.lookup name with
  | none => simp
  | some ms =>
    dsimp only
    split_ifs with hmax hstale
    · simp [hmax]
    · simp [hmax, hstale]
    · simp [hmax, not_lt.mp hstale]

/-- What the remote source makes of the reply, if the library reads it. -/
lemma remote_resolve_healthDoc {parse : Bytes → Option JsonValue}
    {staleness : AList fun _ : Bytes => ℕ} (hparse : ReadsDoc parse (healthDoc staleness))
    (hfinite : ∀ ex ∈ feeds, ∀ ms, staleness.lookup ex = some ms → ms ≠ uint64Max → ms < 2 ^ 63)
    (name host : Bytes) (port maxStalenessMs : ℕ) :
    (RemoteDataSource.resolve parse name host port (healthDoc staleness).render
      maxStalenessMs).status =
      if ∃ ex ∈ feeds, (ExchangeDataSource.resolve ex staleness maxStalenessMs).status = .ok
      then .ok else .stale := by
  have hread := hparse (healthDoc_all admits_verbatim staleness) (healthDoc_distinctKeys staleness)
  have hstatus : (JsonValue.ofDoc (healthDoc staleness)).value (bytes "status")
      JsonValue.getString [] = some (bytes "ok") := rfl
  have hfeeds : ((JsonValue.ofDoc (healthDoc staleness)).member (bytes "feeds")).elements =
      (feeds.filterMap fun ex => (staleness.lookup ex).map (feedDoc 2000 ex)).map .ofDoc :=
    JsonValue.ofItems_eq _
  have hne : (healthDoc staleness).render ≠ [] := List.cons_ne_nil _ _
  have hlive := anyLive_feeds (fun ex => staleness.lookup ex) maxStalenessMs hfinite
  rw [RemoteDataSource.resolve, if_neg hne, RemoteDataSource.checkHealth, hread]
  simp only [exchange_resolve_ok_iff]
  by_cases hsome : ∃ ex ∈ feeds, ∃ ms, staleness.lookup ex = some ms ∧ ms ≠ uint64Max ∧
      ms ≤ maxStalenessMs
  · rw [decide_eq_true hsome] at hlive
    simp [hstatus, hfeeds, hlive, if_pos hsome]
  · rw [decide_eq_false hsome] at hlive
    simp [hstatus, hfeeds, hlive, if_neg hsome]

/-! ## The theorem -/

namespace ArbitrageEngine

variable {e : ArbitrageEngine}

/-- Where exchanges have no colons in their names, the ages of a feed are those of the books of
the exchange. -/
lemma BooksFrom.agesOf_eq (h : e.BooksFrom {f | f.ColonFree}) (nowMs : ℕ) (ex : Bytes) :
    e.agesOf nowMs ex = {age | ∃ id b, e.bookOf id = some b ∧ b.exchange = ex ∧
      b.lastUpdateMs ≠ 0 ∧ age = nowMs - b.lastUpdateMs} := by
  ext age
  refine exists_congr fun id => exists_congr fun b => and_congr_right fun hb => ?_
  rw [h.scannedExchange_eq hb]

/-- **Two checks that agree.**  The staleness of a feed is the least age of its books, and the
greatest value of its type exactly if none of them has been updated.  A remote source that is
given the `HEALTH` reply for these values is fresh if one of the five feeds is, for its own
source and with the same threshold, and stale if none is; it is never unreachable. -/
theorem staleness_near_and_far (e : ArbitrageEngine)
    (wsOrder fixOrder : IterationOrder (Σ _ : Bytes, OrderBook)) (nowMs : ℕ)
    (hnow : nowMs < 2 ^ 64) :
    let m := e.getFeedStalenessMs wsOrder fixOrder nowMs
    (∀ ex ∈ feeds, ∃ ms, m.lookup ex = some ms ∧ (ms = uint64Max ↔ e.agesOf nowMs ex = ∅) ∧
      (ms ≠ uint64Max → IsLeast (e.agesOf nowMs ex) ms)) ∧
    (e.BooksFrom {f | f.ColonFree} → ∀ ex, e.agesOf nowMs ex =
      {age | ∃ id b, e.bookOf id = some b ∧ b.exchange = ex ∧ b.lastUpdateMs ≠ 0 ∧
        age = nowMs - b.lastUpdateMs}) ∧
    ∀ (parse : Bytes → Option JsonValue) (name host : Bytes) (port maxStalenessMs : ℕ)
      (reply : Bytes), ReadsDoc parse (healthDoc m) →
      (∀ ex ∈ feeds, ∀ ms, m.lookup ex = some ms → ms ≠ uint64Max → ms < 2 ^ 63) →
      reply ++ bytes "\n" = healthResponse m →
      (RemoteDataSource.resolve parse name host port reply maxStalenessMs).status =
        if ∃ ex ∈ feeds, (ExchangeDataSource.resolve ex m maxStalenessMs).status = .ok
        then .ok else .stale := by
  intro m
  refine ⟨?_, fun h => h.agesOf_eq nowMs, ?_⟩
  · intro ex hex
    obtain ⟨ms, hms, hleast⟩ := lookup_getFeedStalenessMs hex
    exact ⟨ms, hms, isLeast_agesOf hnow hleast⟩
  · intro parse name host port maxStalenessMs reply hparse hfinite hreply
    rw [healthResponse_eq] at hreply
    obtain rfl := List.append_cancel_right hreply
    exact remote_resolve_healthDoc hparse hfinite name host port maxStalenessMs

/-- Binance has quoted `BTCUSDT` five milliseconds after the start of the clock. -/
def earlyCalls : List (ℕ × EngineCall) :=
  [(5000000, .ws ⟨bytes "BTCUSDT", bytes "Binance", 0, true, [⟨100, 1, 0⟩], [⟨101, 1, 0⟩]⟩)]

/-- A second later, a remote source with a threshold of two seconds is fresh. -/
theorem staleness_near_and_far_binance :
    let m := ((new false).runCalls earlyCalls).getFeedStalenessMs .entries .entries 1005
    m.lookup (bytes "Binance") = some 1000 ∧
    (RemoteDataSource.resolve
      (fun text => if text = (healthDoc m).render then some (.ofDoc (healthDoc m)) else none)
      (bytes "node") (bytes "127.0.0.1") 9090 (healthDoc m).render 2000).status = .ok := by
  intro m
  have hfinite : ∀ ex ∈ feeds, ∀ ms, m.lookup ex = some ms → ms ≠ uint64Max → ms < 2 ^ 63 := by
    have hvalues : ∀ ex ∈ feeds, ∀ ms ∈ m.lookup ex, ms ≠ uint64Max → ms < 2 ^ 63 := by
      decide +kernel
    exact hvalues
  refine ⟨by decide +kernel, ?_⟩
  rw [(staleness_near_and_far ((new false).runCalls earlyCalls) .entries .entries 1005
    (by norm_num)).2.2 _ (bytes "node") (bytes "127.0.0.1") 9090 2000 _ (fun _ _ => if_pos rfl)
      hfinite (healthResponse_eq m).symm]
  exact if_pos (by decide +kernel)

end ArbitrageEngine

end TickPlant
