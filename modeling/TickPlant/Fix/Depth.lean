/-
# A snapshot of the simulator in the book

A snapshot goes through four stages: `make_levels` lists the bids and then the asks,
`build_snapshot` writes them into a message, `parse` reads it back, and `update_fix_data` puts
the levels into the symbol's book.  The parser has room for 32 entries and leaves out the
others, so of a symbol with more than 16 levels a side the asks come short first, and from 32
levels on there are no asks at all.
-/
import TickPlant.Fix.Simulator
import TickPlant.Fix.Ticker
import TickPlant.Fix.Tokens

namespace TickPlant

open Lib

/-! ## The symbol of a parsed message -/

namespace FIXParser

/-- Only tag 55 changes the symbol. -/
lemma symbol_onField (r : Rounding) (tag : ℤ) (value : Bytes) (s : State) :
    (onField r tag value s).out.symbol = s.out.symbol ∨
      (onField r tag value s).out.symbol = value := by
  have hfill : ∀ (f : MDEntry → MDEntry) (s : State),
      (fillEntry f s).out.symbol = s.out.symbol := by
    intro f s
    rw [fillEntry]
    split <;> rfl
  have hopen : (openEntry s).out.symbol = s.out.symbol := by
    rw [openEntry]
    split <;> rfl
  unfold onField
  split <;> try exact Or.inl rfl
  · exact Or.inr rfl
  · left
    rw [hfill]
    split
    · exact hopen
    · rfl
  · exact Or.inl ((hfill _ _).trans hopen)
  · exact Or.inl (hfill _ _)
  · exact Or.inl (hfill _ _)

/-- It has no delimiter. -/
lemma soh_not_mem_symbol (r : Rounding) (msg : Bytes) : fixSoh ∉ (parse r msg).2.symbol := by
  have hfold : ∀ (fs : List (ℤ × Bytes)) (s : State), (∀ f ∈ fs, fixSoh ∉ f.2) →
      fixSoh ∉ s.out.symbol →
      fixSoh ∉ (fs.foldl (fun s f => onField r f.1 f.2 s) s).out.symbol := by
    intro fs
    induction fs with
    | nil => exact fun _ _ h => h
    | cons f fs ih =>
      intro s hfs h
      refine ih _ (fun g hg => hfs g (List.mem_cons_of_mem _ hg)) ?_
      rcases symbol_onField r f.1 f.2 s with heq | heq
      · rw [heq]
        exact h
      · rw [heq]
        exact hfs f List.mem_cons_self
  rw [parse_snd, run_eq_foldl]
  exact hfold _ _ (fun f hf => soh_not_mem_fields ((List.takeWhile_prefix _).subset hf))
    List.not_mem_nil

end FIXParser

namespace FIXFeedSimulator

/-! ## The levels of a snapshot, by side -/

variable (config : SimulatedSymbol) (currentMid : ℚ)

/-- The bid at a position of a snapshot. -/
def bidLevel (i : ℕ) : PriceLevel :=
  ⟨bidPrice config currentMid i, baseQty config.depthLevels i, 0⟩

/-- The ask at a position of a snapshot. -/
def askLevel (i : ℕ) : PriceLevel :=
  ⟨askPrice config currentMid i, baseQty config.depthLevels i, 0⟩

/-- The bids come first, best first. -/
lemma snapshotEntries_eq :
    snapshotEntries config currentMid =
      ((List.range config.depthLevels).map fun i =>
          ⟨0, 0, bidPrice config currentMid i, baseQty config.depthLevels i⟩) ++
        (List.range config.depthLevels).map fun i =>
          ⟨1, 0, askPrice config currentMid i, baseQty config.depthLevels i⟩ :=
  rfl

lemma length_snapshotEntries :
    (snapshotEntries config currentMid).length = 2 * config.depthLevels := by
  rw [snapshotEntries_eq]
  simp [two_mul]

/-- The levels of the first entries: bids, and asks if there is room left. -/
lemma entryLevels_take (n : ℕ) :
    entryLevels .bid ((snapshotEntries config currentMid).take n) =
        ((List.range config.depthLevels).map (bidLevel config currentMid)).take n ∧
      entryLevels .ask ((snapshotEntries config currentMid).take n) =
        ((List.range config.depthLevels).map (askLevel config currentMid)).take
          (n - config.depthLevels) := by
  have hbid : ∀ (p q : ℕ → ℚ) (is : List ℕ),
      entryLevels .bid (is.map fun i => ⟨0, 0, p i, q i⟩) = is.map (fun i => ⟨p i, q i, 0⟩) ∧
        entryLevels .ask (is.map fun i => ⟨0, 0, p i, q i⟩) = [] := by
    simp [entryLevels, entryLevel, OrderBook.entrySide, List.filterMap_map, Function.comp_def]
  have hask : ∀ (p q : ℕ → ℚ) (is : List ℕ),
      entryLevels .ask (is.map fun i => ⟨1, 0, p i, q i⟩) = is.map (fun i => ⟨p i, q i, 0⟩) ∧
        entryLevels .bid (is.map fun i => ⟨1, 0, p i, q i⟩) = [] := by
    simp [entryLevels, entryLevel, OrderBook.entrySide, List.filterMap_map, Function.comp_def]
  rw [snapshotEntries_eq, List.take_append, List.length_map, List.length_range, ← List.map_take,
    ← List.map_take, ← List.map_take, ← List.map_take]
  constructor
  · rw [entryLevels, List.filterMap_append, ← entryLevels, ← entryLevels, (hbid _ _ _).1,
      (hask _ _ _).2, List.append_nil]
    rfl
  · rw [entryLevels, List.filterMap_append, ← entryLevels, ← entryLevels, (hbid _ _ _).2,
      (hask _ _ _).1, List.nil_append]
    rfl

/-- The levels of all entries. -/
lemma entryLevels_snapshot :
    entryLevels .bid (snapshotEntries config currentMid) =
        (List.range config.depthLevels).map (bidLevel config currentMid) ∧
      entryLevels .ask (snapshotEntries config currentMid) =
        (List.range config.depthLevels).map (askLevel config currentMid) := by
  obtain ⟨hbids, hasks⟩ := entryLevels_take config currentMid (2 * config.depthLevels)
  rw [List.take_of_length_le (length_snapshotEntries config currentMid).le] at hbids hasks
  rw [hbids, hasks]
  exact ⟨List.take_of_length_le (by simp; omega), List.take_of_length_le (by simp; omega)⟩

lemma length_entryLevels :
    (entryLevels .bid (snapshotEntries config currentMid)).length = config.depthLevels ∧
      (entryLevels .ask (snapshotEntries config currentMid)).length = config.depthLevels := by
  obtain ⟨hbids, hasks⟩ := entryLevels_snapshot config currentMid
  rw [hbids, hasks]
  simp

variable {config} {currentMid}

lemma levelStep_pos (hmid : 0 < shiftedMid config currentMid) :
    0 < levelStep config (shiftedMid config currentMid) := by
  rw [levelStep]
  split
  · assumption
  · positivity

/-- The levels of a snapshot come in the order of their side. -/
lemma ascending_entryLevels (hmid : 0 < shiftedMid config currentMid) :
    Levels.Ascending bidCmp (entryLevels .bid (snapshotEntries config currentMid)) ∧
      Levels.Ascending askCmp (entryLevels .ask (snapshotEntries config currentMid)) := by
  have hstep := levelStep_pos hmid
  have hgap : ∀ {i j : ℕ}, i < j → levelStep config (shiftedMid config currentMid) * i <
      levelStep config (shiftedMid config currentMid) * j := by
    intro i j hij
    exact mul_lt_mul_of_pos_left (by exact_mod_cast hij) hstep
  obtain ⟨hbids, hasks⟩ := entryLevels_snapshot config currentMid
  rw [hbids, hasks]
  constructor
  · refine List.pairwise_map.mpr (List.pairwise_lt_range.imp fun hij => ?_)
    rw [bidCmp_eq_lt]
    exact sub_lt_sub_left (hgap hij) _
  · refine List.pairwise_map.mpr (List.pairwise_lt_range.imp fun hij => ?_)
    rw [askCmp_eq_lt]
    exact add_lt_add_right (hgap hij) _

/-! ## Through the parser into the book -/

/-- The callback that the simulator calls if the message has been parsed. -/
def deliver (r : Rounding) (nowNs : ℕ) (raw : Bytes) (e : ArbitrageEngine) : ArbitrageEngine :=
  let (valid, msg) := FIXParser.parse r raw
  if valid then e.updateFixData nowNs msg.toMessage else e

/-- `FIXFeedSimulator::emit_snapshot`, with the engine behind the callback. -/
def emitSnapshot (r : Rounding) (fmt : ℚ → Bytes) (sendingTime : Bytes) (nowNs : ℕ)
    (config : SimulatedSymbol) (currentMid : ℚ) (seqNum : ℤ) (e : ArbitrageEngine) :
    ArbitrageEngine :=
  deliver r nowNs (FIXParser.buildSnapshot fmt sendingTime config.symbol
    (snapshotEntries config currentMid) seqNum true) e

/-- The book of the symbol has all levels of the snapshot, and no others. -/
def Complete (config : SimulatedSymbol) (currentMid : ℚ) (b : OrderBook) : Prop :=
  b.bids.toList.length = config.depthLevels ∧ b.asks.toList.length = config.depthLevels ∧
    b.bids.toList = entryLevels .bid (snapshotEntries config currentMid) ∧
    b.asks.toList = entryLevels .ask (snapshotEntries config currentMid)

section

variable (r : Rounding) {fmt : ℚ → Bytes} {sendingTime : Bytes} (htime : fixSoh ∉ sendingTime)
  (hsym : fixSoh ∉ config.symbol)
  (hcarried : ∀ e ∈ snapshotEntries config currentMid, ReadsExactly r fmt e) (nowNs : ℕ)
  (seqNum : ℤ) (e : ArbitrageEngine)
include htime hsym hcarried

/-- The book gets the first entries of the snapshot. -/
lemma fixBook_emitSnapshot :
    fixBook config (emitSnapshot r fmt sendingTime nowNs config currentMid seqNum e) =
      (fixBook config e).applySnapshot (nowNs / 1000000)
        ⟨.marketDataSnapshot, config.symbol,
          (snapshotEntries config currentMid).take fixMaxMdEntries⟩ := by
  have hentries : ∀ entry ∈ snapshotEntries config currentMid, ReadsExactly r fmt entry ∧
      FIXParser.IsInt entry.entryType ∧ FIXParser.IsInt entry.updateAction ∧
      (bytes "W" ≠ bytes "X" → entry.updateAction = 0) := by
    intro entry hentry
    refine ⟨hcarried entry hentry, ?_⟩
    rw [snapshotEntries_eq, List.mem_append, List.mem_map, List.mem_map] at hentry
    rcases hentry with ⟨i, -, rfl⟩ | ⟨i, -, rfl⟩ <;> simp [FIXParser.IsInt]
  have hmessage := toMessage_build r (Or.inl rfl) htime hsym hentries seqNum
  obtain ⟨out, hparse, htype, -⟩ := FIXParser.parse_buildFixMessage r (Or.inl rfl) htime hsym
    (fun entry hentry => (hcarried entry hentry entry.price (by simp)).1)
    (fun entry hentry => (hcarried entry hentry entry.quantity (by simp)).1) seqNum []
  rw [List.append_nil] at hparse
  rw [hparse] at hmessage
  rw [emitSnapshot, deliver, FIXParser.buildSnapshot, if_pos rfl, hparse]
  show fixBook config (e.updateFixData nowNs out.toMessage) = _
  rw [hmessage]
  simp [fixBook, ArbitrageEngine.updateFixData, dispatch, FIXParser.parseMsgType,
    FIXMessage.isMarketData, AList.lookup_insert]

/-- The bids come first, and the asks get what is left of the 32 entries. -/
lemma lists_emitSnapshot (hmid : 0 < shiftedMid config currentMid) :
    (fixBook config (emitSnapshot r fmt sendingTime nowNs config currentMid seqNum e)).bids.toList =
        (entryLevels .bid (snapshotEntries config currentMid)).take 32 ∧
      (fixBook config
        (emitSnapshot r fmt sendingTime nowNs config currentMid seqNum e)).asks.toList =
        (entryLevels .ask (snapshotEntries config currentMid)).take (32 - config.depthLevels) := by
  obtain ⟨htakeBids, htakeAsks⟩ := entryLevels_take config currentMid fixMaxMdEntries
  obtain ⟨hsideBids, hsideAsks⟩ := entryLevels_snapshot config currentMid
  obtain ⟨hascBids, hascAsks⟩ := ascending_entryLevels hmid
  have hmessage : (⟨.marketDataSnapshot, config.symbol,
      (snapshotEntries config currentMid).take fixMaxMdEntries⟩ : FIXMessage).msgType =
        .marketDataSnapshot := rfl
  obtain ⟨hbids, hasks⟩ :=
    OrderBook.applySnapshot_sides (nowNs / 1000000) hmessage (fixBook config e)
  rw [← fixBook_emitSnapshot r htime hsym hcarried nowNs seqNum e] at hbids hasks
  rw [htakeBids, ← hsideBids] at hbids
  rw [htakeAsks, ← hsideAsks] at hasks
  constructor
  · rw [hbids]
    exact Levels.toList_inserts (hascBids.sublist (List.take_sublist _ _))
  · rw [hasks]
    exact Levels.toList_inserts (hascAsks.sublist (List.take_sublist _ _))

/-- **What a snapshot leaves in the book.**  Of the levels of `make_levels`, the book has the
first 32 bids, and as many asks as fit into the rest of the 32 entries.  So it has all levels of
both sides if and only if there are at most 16 a side. -/
theorem levels_of_snapshot (hmid : 0 < shiftedMid config currentMid) :
    (fixBook config (emitSnapshot r fmt sendingTime nowNs config currentMid seqNum e)).bids.toList =
        (entryLevels .bid (snapshotEntries config currentMid)).take 32 ∧
      (fixBook config
        (emitSnapshot r fmt sendingTime nowNs config currentMid seqNum e)).asks.toList =
        (entryLevels .ask (snapshotEntries config currentMid)).take (32 - config.depthLevels) ∧
      (Complete config currentMid (fixBook config
        (emitSnapshot r fmt sendingTime nowNs config currentMid seqNum e)) ↔
        config.depthLevels ≤ 16) := by
  obtain ⟨hbids, hasks⟩ := lists_emitSnapshot r htime hsym hcarried nowNs seqNum e hmid
  obtain ⟨hlengthBids, hlengthAsks⟩ := length_entryLevels config currentMid
  refine ⟨hbids, hasks, ?_⟩
  rw [Complete, hbids, hasks, List.length_take, List.length_take, hlengthBids, hlengthAsks]
  constructor
  · rintro ⟨-, hall, -⟩
    omega
  · intro hle
    exact ⟨by omega, by omega, List.take_of_length_le (by omega),
      List.take_of_length_le (by omega)⟩

end

/-! ## Names with a delimiter -/

/-- A symbol with a delimiter in its name gets no book. -/
lemma fixBook_deliver_of_soh {config : SimulatedSymbol} (hsym : fixSoh ∈ config.symbol)
    (r : Rounding) (nowNs : ℕ) (raw : Bytes) (e : ArbitrageEngine) :
    fixBook config (deliver r nowNs raw e) = fixBook config e := by
  have hne : config.symbol ≠ (FIXParser.parse r raw).2.symbol := by
    intro heq
    rw [heq] at hsym
    exact FIXParser.soh_not_mem_symbol r raw hsym
  rw [deliver]
  split
  rename_i valid msg hparse
  rw [hparse] at hne
  have hkey : config.symbol ≠ msg.toMessage.symbol := hne
  split
  · rw [ArbitrageEngine.updateFixData]
    split
    · simp only [fixBook, AList.lookup_insert_ne hkey]
    · rfl
  · rfl

/-! ## Two symbols -/

/-- The symbols and mid prices that a snapshot is meant for. -/
structure Plain (config : SimulatedSymbol) (currentMid : ℚ) : Prop where
  depth_pos : 1 ≤ config.depthLevels
  mid_pos : 0 < shiftedMid config currentMid
  spread_pos : 0 < config.spreadPct
  spread_lt : config.spreadPct < 2
  bids_pos : ∀ i < config.depthLevels, 0 < bidPrice config currentMid i

/-- A symbol with 17 levels a side. -/
def btcUsdDeep : SimulatedSymbol where
  symbol := bytes "BTCUSD"
  midPrice := 100000
  spreadPct := 2 / 1000
  depthStep := 10
  depthLevels := 17

/-- A symbol with a delimiter in its name, and one level a side. -/
def delimited : SimulatedSymbol where
  symbol := [65, fixSoh, 66]
  midPrice := 100000
  spreadPct := 2 / 1000
  depthStep := 10
  depthLevels := 1

/-- The texts of a snapshot, with six significant digits, are read back exactly. -/
lemma readsExactly_of_decide {es : List MDEntry}
    (h : ∀ e ∈ es, ∀ q ∈ [e.price, e.quantity],
      fixSoh ∉ gText 6 q ∧ FIXParser.parseDouble .exact (gText 6 q) = q) :
    ∀ e ∈ es, ReadsExactly .exact (gText 6) e := h

theorem levels_of_snapshot_btcUsd :
    Complete btcUsd 65000 (fixBook btcUsd (emitSnapshot .exact (gText 6)
      (bytes "20250101-00:00:00.000") 0 btcUsd 65000 1 (.new true))) :=
  (levels_of_snapshot .exact (by decide) (by decide)
    (readsExactly_of_decide (by decide +kernel)) 0 1 (.new true)
    (by norm_num [shiftedMid, btcUsd])).2.2.mpr (by decide)

/-- With 17 levels a side the last two asks are missing, and a symbol with a delimiter in its
name has no levels at all. -/
theorem deep_snapshot_truncated :
    (Plain btcUsdDeep 100000 ∧
        (∀ e ∈ snapshotEntries btcUsdDeep 100000, ReadsExactly .exact (gText 6) e) ∧
        ¬ Complete btcUsdDeep 100000 (fixBook btcUsdDeep (emitSnapshot .exact (gText 6)
          (bytes "20250101-00:00:00.000") 0 btcUsdDeep 100000 1 (.new true)))) ∧
      Plain delimited 100000 ∧
        (∀ e ∈ snapshotEntries delimited 100000, ReadsExactly .exact (gText 6) e) ∧
        ¬ Complete delimited 100000 (fixBook delimited (emitSnapshot .exact (gText 6)
          (bytes "20250101-00:00:00.000") 0 delimited 100000 1 (.new true))) := by
  have hdeep : ∀ e ∈ snapshotEntries btcUsdDeep 100000, ReadsExactly .exact (gText 6) e :=
    readsExactly_of_decide (by decide +kernel)
  have hdelimited : ∀ e ∈ snapshotEntries delimited 100000, ReadsExactly .exact (gText 6) e :=
    readsExactly_of_decide (by decide +kernel)
  have hmid : 0 < shiftedMid btcUsdDeep 100000 := by norm_num [shiftedMid, btcUsdDeep]
  refine ⟨⟨⟨?_, hmid, ?_, ?_, ?_⟩, hdeep, ?_⟩, ⟨?_, ?_, ?_, ?_, ?_⟩, hdelimited, ?_⟩
  · decide
  · norm_num [btcUsdDeep]
  · norm_num [btcUsdDeep]
  · decide +kernel
  · rintro ⟨-, hall, -⟩
    have htime : fixSoh ∉ bytes "20250101-00:00:00.000" := by decide
    obtain ⟨-, hasks⟩ := lists_emitSnapshot .exact htime (by decide) hdeep 0 1 (.new true) hmid
    rw [hasks, List.length_take, (length_entryLevels btcUsdDeep 100000).2] at hall
    exact absurd hall (by decide)
  · decide
  · norm_num [shiftedMid, delimited]
  · norm_num [delimited]
  · norm_num [delimited]
  · decide +kernel
  · rintro ⟨hall, -⟩
    rw [emitSnapshot, fixBook_deliver_of_soh (by decide)] at hall
    exact absurd hall (by decide)

end FIXFeedSimulator

end TickPlant
