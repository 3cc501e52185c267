/-
# The FIX feed simulator

`FIXFeedSimulator` sends, for each of its symbols, full snapshots and, in between, incremental
messages that change one level.  All prices are computed from a mid price that moves from
message to message.  The engine applies the messages to the symbol's FIX book; an incremental
message changes only the level it names, so the levels that were computed from older mids stay
in the book until the next snapshot, and unlike the WebSocket path this one does not prune.

The message is what the parser hands over when the texts of the numbers are read back exactly
(`toMessage_build`): prices are exact rationals.  The random draws are arguments.
-/
import TickPlant.Engine.Store
import TickPlant.Fix.RoundTrip

namespace TickPlant

/-! ## The code -/

/-- `SimulatedSymbol`. -/
structure SimulatedSymbol where
  symbol : Bytes
  midPrice : ℚ
  spreadPct : ℚ := 1 / 1000
  depthStep : ℚ := 0
  depthLevels : ℕ := 5
  priceOffsetBps : ℚ := 0

namespace FIXFeedSimulator

/-- The shifted mid price that the messages are computed from. -/
def shiftedMid (config : SimulatedSymbol) (currentMid : ℚ) : ℚ :=
  currentMid * (1 + config.priceOffsetBps / 10000)

/-- The gap between two levels; `0` stands for 0.05% of the mid. -/
def levelStep (config : SimulatedSymbol) (mid : ℚ) : ℚ :=
  if config.depthStep > 0 then config.depthStep else mid * (5 / 10000)

/-- The quantity of a level: more at the best one. -/
def baseQty (depth level : ℕ) : ℚ := ((depth : ℚ) - level) * (1 / 2) + 1 / 2

/-- `FIXFeedSimulator::make_levels`. -/
def makeLevels (mid spreadPct step : ℚ) (depth : ℕ) : List MDEntry :=
  let bestBid := mid * (1 - spreadPct / 2)
  let bestAsk := mid * (1 + spreadPct / 2)
  ((List.range depth).map fun i => ⟨0, 0, bestBid - step * i, baseQty depth i⟩) ++
    (List.range depth).map fun i => ⟨1, 0, bestAsk + step * i, baseQty depth i⟩

/-- The draws of an incremental message; the level is one of the symbol's. -/
structure Draw (config : SimulatedSymbol) where
  side : Side
  level : Fin config.depthLevels
  qtyDelta : ℚ

/-- The entries that `emit_snapshot` sends. -/
def snapshotEntries (config : SimulatedSymbol) (currentMid : ℚ) : List MDEntry :=
  let mid := shiftedMid config currentMid
  makeLevels mid config.spreadPct (levelStep config mid) config.depthLevels

/-- The entry that `emit_incremental` sends. -/
def incrementalEntry (config : SimulatedSymbol) (currentMid : ℚ) (draw : Draw config) : MDEntry :=
  let mid := shiftedMid config currentMid
  let step := levelStep config mid
  let best := match draw.side with
    | .bid => mid * (1 - config.spreadPct / 2)
    | .ask => mid * (1 + config.spreadPct / 2)
  let stepSign : ℚ := match draw.side with
    | .bid => -1
    | .ask => 1
  { entryType := match draw.side with
      | .bid => 0
      | .ask => 1
    updateAction := 1
    price := best + stepSign * step * draw.level
    quantity := max (1 / 10) (baseQty config.depthLevels draw.level + draw.qtyDelta) }

/-- `FIXFeedSimulator::dispatch`: the message that the parser hands to the callback. -/
def dispatch (msgType : FIXMsgType) (symbol : Bytes) (entries : List MDEntry) : FIXMessage :=
  ⟨msgType, symbol, entries.take fixMaxMdEntries⟩

/-- A positive mid price. -/
abbrev Mid := { m : ℚ // 0 < m }

/-- One message of a symbol: a call of `emit_snapshot` or of `emit_incremental`. -/
inductive Emission (config : SimulatedSymbol)
  | snapshot (currentMid : Mid)
  | incremental (currentMid : Mid) (draw : Draw config)

/-- The message of a call. -/
def Emission.message {config : SimulatedSymbol} : Emission config → FIXMessage
  | snapshot currentMid =>
    dispatch .marketDataSnapshot config.symbol (snapshotEntries config currentMid)
  | incremental currentMid draw =>
    dispatch .marketDataIncremental config.symbol [incrementalEntry config currentMid draw]

/-- The engine after a sequence of messages, each with the reading of the clock. -/
def run {config : SimulatedSymbol} (e : ArbitrageEngine) (sent : List (ℕ × Emission config)) :
    ArbitrageEngine :=
  sent.foldl (fun e m => e.updateFixData m.1 m.2.message) e

/-! ### The tick of a symbol -/

/-- The mid price of a tick: that of the oracle, if it has one, and else the last one, drifted. -/
def tickMid (oracle : Option ℚ) (drift currentMid : ℚ) : ℚ :=
  let currentMid := match oracle with
    | some marketMid => if marketMid > 0 then marketMid else currentMid
    | none => currentMid
  currentMid * (1 + drift)

/-- The drift of at most 0.005% keeps the mid price positive. -/
lemma tickMid_pos (oracle : Option ℚ) {drift currentMid : ℚ} (hmid : 0 < currentMid)
    (hdrift : |drift| ≤ 5 / 100000) : 0 < tickMid oracle drift currentMid := by
  have hfactor : 0 < 1 + drift := by
    have := (abs_le.mp hdrift).1
    linarith
  refine mul_pos ?_ hfactor
  cases oracle with
  | none => exact hmid
  | some marketMid =>
    dsimp only
    split
    · assumption
    · exact hmid

/-- One turn of `tick_all` for a symbol: the call it makes, whose mid is the new current one. -/
def tick {config : SimulatedSymbol} (oracle : Option ℚ) (drift : ℚ) (hdrift : |drift| ≤ 5 / 100000)
    (snapshotDue : Bool) (draw : Draw config) (currentMid : Mid) : Emission config :=
  let mid : Mid := ⟨tickMid oracle drift currentMid, tickMid_pos oracle currentMid.2 hdrift⟩
  if snapshotDue then .snapshot mid else .incremental mid draw

/-! ### The texts -/

/-- The text of an entry is read back exactly. -/
def ReadsExactly (r : Lib.Rounding) (fmt : ℚ → Bytes) (e : MDEntry) : Prop :=
  ∀ q ∈ [e.price, e.quantity], fixSoh ∉ fmt q ∧ FIXParser.parseDouble r (fmt q) = q

lemma readEntry_eq {r : Lib.Rounding} {fmt : ℚ → Bytes} {e : MDEntry} {msgTypeStr : Bytes}
    (h : ReadsExactly r fmt e) (htype : FIXParser.IsInt e.entryType)
    (haction : FIXParser.IsInt e.updateAction)
    (hnew : msgTypeStr ≠ bytes "X" → e.updateAction = 0) :
    FIXParser.readEntry r fmt msgTypeStr e = e := by
  have hprice := (h e.price (by simp)).2
  have hquantity := (h e.quantity (by simp)).2
  obtain ⟨entryType, updateAction, price, quantity⟩ := e
  simp only [FIXParser.readEntry, hprice, hquantity, FIXParser.parseInt_intText htype]
  split
  · rw [FIXParser.parseInt_intText haction]
  · rename_i hX
    rw [show updateAction = 0 from hnew hX]

/-- What is built from entries whose texts are read back exactly is parsed to the message that
is dispatched. -/
lemma toMessage_build (r : Lib.Rounding) {fmt : ℚ → Bytes} {sendingTime symbol msgTypeStr : Bytes}
    (hmsg : msgTypeStr = bytes "W" ∨ msgTypeStr = bytes "X") (htime : fixSoh ∉ sendingTime)
    (hsym : fixSoh ∉ symbol) {entries : List MDEntry}
    (hentries : ∀ e ∈ entries, ReadsExactly r fmt e ∧ FIXParser.IsInt e.entryType ∧
      FIXParser.IsInt e.updateAction ∧ (msgTypeStr ≠ bytes "X" → e.updateAction = 0))
    (seqNum : ℤ) :
    (FIXParser.parse r (FIXParser.buildFixMessage fmt sendingTime msgTypeStr symbol entries seqNum
      fixSoh)).2.toMessage = dispatch (FIXParser.parseMsgType msgTypeStr) symbol entries := by
  have hread : entries.map (FIXParser.readEntry r fmt msgTypeStr) = entries := by
    refine (List.map_congr_left fun e he => ?_).trans (List.map_id entries)
    obtain ⟨hexact, htype, haction, hnew⟩ := hentries e he
    exact readEntry_eq hexact htype haction hnew
  have hbuild := FIXParser.toMessage_buildFixMessage r hmsg htime hsym
    (fun e he => ((hentries e he).1 e.price (by simp)).1)
    (fun e he => ((hentries e he).1 e.quantity (by simp)).1) seqNum []
  rw [List.append_nil, hread] at hbuild
  exact hbuild

/-! ## The prices of a message -/

section

variable {config : SimulatedSymbol}

/-- The price of a bid level. -/
def bidPrice (config : SimulatedSymbol) (currentMid : ℚ) (level : ℕ) : ℚ :=
  let mid := shiftedMid config currentMid
  mid * (1 - config.spreadPct / 2) - levelStep config mid * level

/-- The price of an ask level. -/
def askPrice (config : SimulatedSymbol) (currentMid : ℚ) (level : ℕ) : ℚ :=
  let mid := shiftedMid config currentMid
  mid * (1 + config.spreadPct / 2) + levelStep config mid * level

/-- The message sets a bid at the price. -/
def Emission.SetsBid : Emission config → ℚ → Prop
  | snapshot currentMid, p => ∃ i < config.depthLevels, bidPrice config currentMid i = p
  | incremental currentMid draw, p =>
    draw.side = .bid ∧ bidPrice config currentMid draw.level = p

/-- The message sets an ask at the price. -/
def Emission.SetsAsk : Emission config → ℚ → Prop
  | snapshot currentMid, p => ∃ i < config.depthLevels, askPrice config currentMid i = p
  | incremental currentMid draw, p =>
    draw.side = .ask ∧ askPrice config currentMid draw.level = p

end

/-- The prices of a book are those of the two lists of conditions. -/
structure HasPrices (b : OrderBook) (bid ask : ℚ → Prop) : Prop where
  bids : ∀ p, (b.bids.find p).isSome ↔ bid p
  asks : ∀ p, (b.asks.find p).isSome ↔ ask p

namespace HasPrices

variable {b : OrderBook} {bid ask : ℚ → Prop}

/-- A book is uncrossed exactly if every bid price is below every ask price. -/
lemma uncrossed_iff (h : HasPrices b bid ask) :
    b.Uncrossed ↔ ∀ x y, bid x → ask y → x < y := by
  rw [OrderBook.uncrossed_iff]
  constructor
  · intro hun x y hx hy
    obtain ⟨l, hl⟩ := Option.isSome_iff_exists.mp ((h.bids x).mpr hx)
    obtain ⟨m, hm⟩ := Option.isSome_iff_exists.mp ((h.asks y).mpr hy)
    have hlt := hun l (Levels.mem_toList_of_find hl) m (Levels.mem_toList_of_find hm)
    rwa [Levels.price_of_find hl, Levels.price_of_find hm] at hlt
  · intro hlt l hl m hm
    refine hlt _ _ ((h.bids _).mp ?_) ((h.asks _).mp ?_)
    · rw [Levels.mem_toList.mp hl]
      rfl
    · rw [Levels.mem_toList.mp hm]
      rfl

/-- An entry that puts a level. -/
lemma put (h : HasPrices b bid ask) (e : MDEntry) :
    HasPrices (b.applySnapshotEntry e) (fun p => bid p ∨ e.entryType = 0 ∧ e.price = p)
      (fun p => ask p ∨ e.entryType = 1 ∧ e.price = p) := by
  rw [OrderBook.applySnapshotEntry, OrderBook.entrySide]
  by_cases h0 : e.entryType = 0
  · rw [if_pos h0]
    constructor
    · intro p
      show ((b.bids.insert ⟨e.price, e.quantity, 0⟩).find p).isSome ↔ _
      rw [Levels.find_insert]
      by_cases hp : e.price = p <;> simp [hp, h0, h.bids]
    · intro p
      show (b.asks.find p).isSome ↔ _
      simp [h0, h.asks]
  · rw [if_neg h0]
    by_cases h1 : e.entryType = 1
    · rw [if_pos h1]
      constructor
      · intro p
        show (b.bids.find p).isSome ↔ _
        simp [h0, h.bids]
      · intro p
        show ((b.asks.insert ⟨e.price, e.quantity, 0⟩).find p).isSome ↔ _
        rw [Levels.find_insert]
        by_cases hp : e.price = p <;> simp [hp, h1, h.asks]
    · rw [if_neg h1]
      constructor
      · simp [h0, h.bids]
      · simp [h1, h.asks]

/-- A list of entries that put levels. -/
lemma puts (h : HasPrices b bid ask) (es : List MDEntry) :
    HasPrices (es.foldl OrderBook.applySnapshotEntry b)
      (fun p => bid p ∨ ∃ e ∈ es, e.entryType = 0 ∧ e.price = p)
      (fun p => ask p ∨ ∃ e ∈ es, e.entryType = 1 ∧ e.price = p) := by
  induction es generalizing b bid ask with
  | nil =>
    constructor
    · simp [h.bids]
    · simp [h.asks]
  | cons e es ih =>
    have hrest := ih (h.put e)
    constructor
    · intro p
      rw [List.foldl_cons, hrest.bids]
      simp [or_assoc]
    · intro p
      rw [List.foldl_cons, hrest.asks]
      simp [or_assoc]

lemma congr {bid' ask' : ℚ → Prop} {b' : OrderBook} (h : HasPrices b bid ask)
    (hbids : b'.bids = b.bids) (hasks : b'.asks = b.asks) (hbid : ∀ p, bid p ↔ bid' p)
    (hask : ∀ p, ask p ↔ ask' p) : HasPrices b' bid' ask' where
  bids p := by rw [hbids, h.bids, hbid]
  asks p := by rw [hasks, h.asks, hask]

end HasPrices

/-! ## The book after a run -/

section

variable {config : SimulatedSymbol}

/-- The messages since the last snapshot, which is the first of them. -/
def sinceSnapshot (sent : List (ℕ × Emission config)) : List (Emission config) :=
  sent.foldl (fun stretch m =>
    match m.2 with
    | .snapshot mid => [.snapshot mid]
    | .incremental mid draw => stretch ++ [.incremental mid draw]) []

/-- The messages since the last snapshot are among those sent. -/
lemma exists_of_mem_sinceSnapshot {sent : List (ℕ × Emission config)} {em : Emission config}
    (h : em ∈ sinceSnapshot sent) : ∃ m ∈ sent, m.2 = em := by
  induction sent using List.reverseRecOn with
  | nil => simp [sinceSnapshot] at h
  | append_singleton sent m ih =>
    obtain ⟨now, last⟩ := m
    rw [sinceSnapshot, List.foldl_append, List.foldl_cons, List.foldl_nil, ← sinceSnapshot] at h
    cases last with
    | snapshot mid =>
      obtain rfl : em = .snapshot mid := List.mem_singleton.mp h
      exact ⟨_, List.mem_append_right sent (List.mem_singleton_self _), rfl⟩
    | incremental mid draw =>
      rcases List.mem_append.mp h with hold | hlast
      · obtain ⟨m, hm, heq⟩ := ih hold
        exact ⟨m, List.mem_append_left _ hm, heq⟩
      · obtain rfl : em = .incremental mid draw := List.mem_singleton.mp hlast
        exact ⟨_, List.mem_append_right sent (List.mem_singleton_self _), rfl⟩

/-- The symbol's FIX book; a book that does not exist yet has no levels. -/
def fixBook (config : SimulatedSymbol) (e : ArbitrageEngine) : OrderBook :=
  (e.fixBooks.lookup config.symbol).getD (OrderBook.new config.symbol (bytes "FIX"))

/-- The entries of a snapshot, by side. -/
lemma mem_snapshotEntries (mid : Mid) (p : ℚ) :
    ((∃ e ∈ snapshotEntries config mid, e.entryType = 0 ∧ e.price = p) ↔
        (Emission.snapshot mid : Emission config).SetsBid p) ∧
      ((∃ e ∈ snapshotEntries config mid, e.entryType = 1 ∧ e.price = p) ↔
        (Emission.snapshot mid : Emission config).SetsAsk p) := by
  constructor <;>
    simp [snapshotEntries, makeLevels, Emission.SetsBid, Emission.SetsAsk, bidPrice, askPrice,
      or_and_right, exists_or]

/-- The entry of an incremental message, by side. -/
lemma incrementalEntry_sets (mid : Mid) (draw : Draw config) (p : ℚ) :
    ((incrementalEntry config mid draw).entryType = 0 ∧
        (incrementalEntry config mid draw).price = p ↔
        (Emission.incremental mid draw).SetsBid p) ∧
      ((incrementalEntry config mid draw).entryType = 1 ∧
        (incrementalEntry config mid draw).price = p ↔
        (Emission.incremental mid draw).SetsAsk p) := by
  obtain ⟨side, level, qtyDelta⟩ := draw
  cases side <;>
    simp [incrementalEntry, Emission.SetsBid, Emission.SetsAsk, bidPrice, askPrice, sub_eq_add_neg]

/-- A snapshot of at most 16 levels replaces all prices. -/
lemma hasPrices_snapshot (hdepth : config.depthLevels ≤ 16) (now : ℕ) (mid : Mid) (b : OrderBook) :
    HasPrices (b.applySnapshot now (Emission.snapshot mid : Emission config).message)
      (Emission.snapshot mid : Emission config).SetsBid
      (Emission.snapshot mid : Emission config).SetsAsk := by
  have hlength : (snapshotEntries config mid).length ≤ fixMaxMdEntries := by
    simp [snapshotEntries, makeLevels, fixMaxMdEntries]
    omega
  have hmessage : (Emission.snapshot mid : Emission config).message =
      ⟨.marketDataSnapshot, config.symbol, snapshotEntries config mid⟩ := by
    rw [Emission.message, dispatch, List.take_of_length_le hlength]
  have hempty : ∀ b : OrderBook, HasPrices { b with bids := Levels.empty, asks := Levels.empty }
      (fun _ => False) fun _ => False := by
    intro b
    constructor <;> simp
  -- whether or not the book takes its symbol from the message
  have hset : ∀ b : OrderBook, HasPrices
      ((snapshotEntries config mid).foldl OrderBook.applySnapshotEntry
        { b with bids := Levels.empty, asks := Levels.empty })
      (Emission.snapshot mid : Emission config).SetsBid
      (Emission.snapshot mid : Emission config).SetsAsk := by
    intro b
    refine ((hempty b).puts (snapshotEntries config mid)).congr rfl rfl ?_ ?_
    · simp [(mem_snapshotEntries mid _).1]
    · simp [(mem_snapshotEntries mid _).2]
  rw [hmessage, OrderBook.applySnapshot, if_pos rfl]
  dsimp only
  split
  · exact (hset { b with symbol := config.symbol }).congr rfl rfl (fun _ => Iff.rfl)
      fun _ => Iff.rfl
  · exact (hset b).congr rfl rfl (fun _ => Iff.rfl) fun _ => Iff.rfl

/-- The entry of an incremental message puts its level, as an entry of a snapshot does. -/
lemma applyMdEntry_incrementalEntry (b : OrderBook) (mid : ℚ) (draw : Draw config) :
    b.applyMdEntry (incrementalEntry config mid draw) =
      b.applySnapshotEntry (incrementalEntry config mid draw) := by
  rw [OrderBook.applyMdEntry, OrderBook.applySnapshotEntry]
  cases OrderBook.entrySide (incrementalEntry config mid draw) with
  | none => rfl
  | some side => exact if_pos (Or.inr rfl)

/-- An incremental message adds one price. -/
lemma hasPrices_incremental {b : OrderBook} {bid ask : ℚ → Prop} (h : HasPrices b bid ask)
    (now : ℕ) (mid : Mid) (draw : Draw config) :
    HasPrices (b.applyUpdate now (Emission.incremental mid draw).message)
      (fun p => bid p ∨ (Emission.incremental mid draw).SetsBid p)
      (fun p => ask p ∨ (Emission.incremental mid draw).SetsAsk p) := by
  have hentry := applyMdEntry_incrementalEntry b mid draw
  refine (h.put (incrementalEntry config mid draw)).congr ?_ ?_ ?_ ?_
  · rw [← hentry]
    rfl
  · rw [← hentry]
    rfl
  · intro p
    rw [(incrementalEntry_sets mid draw p).1]
  · intro p
    rw [(incrementalEntry_sets mid draw p).2]

/-- The symbol's book after one message more. -/
lemma fixBook_updateFixData (e : ArbitrageEngine) (now : ℕ) (em : Emission config) :
    fixBook config (e.updateFixData now em.message) =
      match em with
      | .snapshot _ => (fixBook config e).applySnapshot (now / 1000000) em.message
      | .incremental _ _ => (fixBook config e).applyUpdate (now / 1000000) em.message := by
  cases em <;>
    simp [fixBook, ArbitrageEngine.updateFixData, Emission.message, dispatch,
      FIXMessage.isMarketData, AList.lookup_insert]

/-- The prices of the symbol's book are those set since the last snapshot. -/
lemma hasPrices_run (hdepth : config.depthLevels ≤ 16) {e : ArbitrageEngine}
    (hnew : e.fixBooks.lookup config.symbol = none) (sent : List (ℕ × Emission config)) :
    HasPrices (fixBook config (run e sent)) (fun p => ∃ em ∈ sinceSnapshot sent, em.SetsBid p)
      fun p => ∃ em ∈ sinceSnapshot sent, em.SetsAsk p := by
  induction sent using List.reverseRecOn with
  | nil =>
    rw [run, List.foldl_nil, fixBook, hnew]
    constructor <;> simp [OrderBook.new, sinceSnapshot]
  | append_singleton sent m ih =>
    obtain ⟨now, em⟩ := m
    rw [run, List.foldl_append, List.foldl_cons, List.foldl_nil, ← run, sinceSnapshot,
      List.foldl_append, List.foldl_cons, List.foldl_nil, ← sinceSnapshot]
    rw [fixBook_updateFixData]
    cases em with
    | snapshot mid =>
      refine (hasPrices_snapshot hdepth (now / 1000000) mid _).congr rfl rfl ?_ ?_
      · simp
      · simp
    | incremental mid draw =>
      refine (hasPrices_incremental ih (now / 1000000) mid draw).congr rfl rfl ?_ ?_
      · simp [or_and_right, exists_or]
      · simp [or_and_right, exists_or]

end

section

variable {config : SimulatedSymbol}

/-- The mid price of a message. -/
def Emission.mid : Emission config → ℚ
  | snapshot currentMid => currentMid
  | incremental currentMid _ => currentMid

/-- The levels of a side go away from the mid price. -/
lemma levelStep_nonneg {mid : ℚ} (hmid : 0 ≤ mid) : 0 ≤ levelStep config mid := by
  rw [levelStep]
  split
  · rename_i hstep
    exact hstep.le
  · positivity

lemma shiftedMid_nonneg (hoffset : -10000 ≤ config.priceOffsetBps) {mid : ℚ} (hmid : 0 ≤ mid) :
    0 ≤ shiftedMid config mid := by
  have hfactor : 0 ≤ 1 + config.priceOffsetBps / 10000 := by linarith
  exact mul_nonneg hmid hfactor

lemma bidPrice_le (hoffset : -10000 ≤ config.priceOffsetBps) {mid : ℚ} (hmid : 0 ≤ mid)
    (level : ℕ) : bidPrice config mid level ≤ bidPrice config mid 0 := by
  have hstep : 0 ≤ levelStep config (shiftedMid config mid) :=
    levelStep_nonneg (shiftedMid_nonneg hoffset hmid)
  have hgap : 0 ≤ levelStep config (shiftedMid config mid) * level := by positivity
  simp only [bidPrice, Nat.cast_zero, mul_zero, sub_zero]
  linarith

lemma le_askPrice (hoffset : -10000 ≤ config.priceOffsetBps) {mid : ℚ} (hmid : 0 ≤ mid)
    (level : ℕ) : askPrice config mid 0 ≤ askPrice config mid level := by
  have hstep : 0 ≤ levelStep config (shiftedMid config mid) :=
    levelStep_nonneg (shiftedMid_nonneg hoffset hmid)
  have hgap : 0 ≤ levelStep config (shiftedMid config mid) * level := by positivity
  simp only [askPrice, Nat.cast_zero, mul_zero, add_zero]
  linarith

lemma Emission.SetsBid.le (hoffset : -10000 ≤ config.priceOffsetBps) {em : Emission config} {p : ℚ}
    (h : em.SetsBid p) : p ≤ bidPrice config em.mid 0 := by
  cases em with
  | snapshot mid =>
    obtain ⟨i, _, rfl⟩ := h
    exact bidPrice_le hoffset mid.2.le i
  | incremental mid draw =>
    obtain ⟨_, rfl⟩ := h
    exact bidPrice_le hoffset mid.2.le draw.level

lemma Emission.SetsAsk.ge (hoffset : -10000 ≤ config.priceOffsetBps) {em : Emission config} {p : ℚ}
    (h : em.SetsAsk p) : askPrice config em.mid 0 ≤ p := by
  cases em with
  | snapshot mid =>
    obtain ⟨i, _, rfl⟩ := h
    exact le_askPrice hoffset mid.2.le i
  | incremental mid draw =>
    obtain ⟨_, rfl⟩ := h
    exact le_askPrice hoffset mid.2.le draw.level

/-- The symbol's book is uncrossed after every message. -/
def StaysUncrossed (e : ArbitrageEngine) (sent : List (ℕ × Emission config)) : Prop :=
  ∀ before after, sent = before ++ after → (fixBook config (run e before)).Uncrossed

/-- At every message, each bid price sent since the last snapshot is below each ask price sent
since then. -/
def PricesApart (sent : List (ℕ × Emission config)) : Prop :=
  ∀ before after, sent = before ++ after →
    ∀ em ∈ sinceSnapshot before, ∀ em' ∈ sinceSnapshot before,
      ∀ x y, em.SetsBid x → em'.SetsAsk y → x < y

/-- The prices are apart if between two snapshots no mid price moves by as much as the spread:
the best bid at each mid price is below the best ask at every other. -/
lemma pricesApart_of_mids (hoffset : -10000 ≤ config.priceOffsetBps)
    {sent : List (ℕ × Emission config)}
    (hmids : ∀ before after, sent = before ++ after →
      ∀ em ∈ sinceSnapshot before, ∀ em' ∈ sinceSnapshot before,
        bidPrice config em.mid 0 < askPrice config em'.mid 0) :
    PricesApart sent := by
  intro before after heq em hem em' hem' x y hx hy
  have hlt := hmids before after heq em hem em' hem'
  exact (hx.le hoffset).trans_lt (hlt.trans_le (hy.ge hoffset))

/-- The book of a symbol stays uncrossed exactly as long as no bid price reaches an ask price
that was sent since the last snapshot: nothing else takes the levels of an older mid price out
of the book. -/
theorem staysUncrossed_iff (hdepth : config.depthLevels ≤ 16) {e : ArbitrageEngine}
    (hnew : e.fixBooks.lookup config.symbol = none) (sent : List (ℕ × Emission config)) :
    StaysUncrossed e sent ↔ PricesApart sent := by
  have hbook : ∀ before : List (ℕ × Emission config),
      (fixBook config (run e before)).Uncrossed ↔
        ∀ em ∈ sinceSnapshot before, ∀ em' ∈ sinceSnapshot before,
          ∀ x y, em.SetsBid x → em'.SetsAsk y → x < y := by
    intro before
    rw [(hasPrices_run hdepth hnew before).uncrossed_iff]
    constructor
    · intro h em hem em' hem' x y hx hy
      exact h x y ⟨em, hem, hx⟩ ⟨em', hem', hy⟩
    · rintro h x y ⟨em, hem, hx⟩ ⟨em', hem', hy⟩
      exact h em hem em' hem' x y hx hy
  constructor
  · intro h before after heq
    rw [← hbook before]
    exact h before after heq
  · intro h before after heq
    rw [hbook before]
    exact h before after heq

/-- A symbol of the simulator, with ten dollars between its levels. -/
def btcUsd : SimulatedSymbol where
  symbol := bytes "BTCUSD"
  midPrice := 65000
  depthStep := 10

/-- The mid price that it starts from. -/
def startMid : Mid := ⟨65000, by norm_num⟩

/-- A snapshot, and a bid at a slightly higher mid price. -/
def smallMove : List (ℕ × Emission btcUsd) :=
  [(0, .snapshot startMid),
    (1, .incremental ⟨65001, by norm_num⟩ ⟨.bid, ⟨1, by decide⟩, 1 / 10⟩)]

/-- The book stays uncrossed. -/
theorem staysUncrossed_smallMove : StaysUncrossed (.new true) smallMove := by
  refine (staysUncrossed_iff (by decide) rfl smallMove).mpr ?_
  refine pricesApart_of_mids (by norm_num [btcUsd]) ?_
  have hmid : ∀ before after, smallMove = before ++ after →
      ∀ em ∈ sinceSnapshot before, em.mid = 65000 ∨ em.mid = 65001 := by
    intro before after heq em hem
    obtain ⟨m, hm, rfl⟩ := exists_of_mem_sinceSnapshot hem
    have hmem : m ∈ smallMove := by
      rw [heq]
      exact List.mem_append_left after hm
    simp only [smallMove, List.mem_cons, List.not_mem_nil, or_false] at hmem
    rcases hmem with rfl | rfl
    · exact Or.inl rfl
    · exact Or.inr rfl
  intro before after heq em hem em' hem'
  rcases hmid before after heq em hem with hm | hm <;>
    rcases hmid before after heq em' hem' with hm' | hm' <;>
    rw [hm, hm'] <;> norm_num [bidPrice, askPrice, shiftedMid, btcUsd]

/-- A rise of the market price by 0.15% puts a new best bid above the asks of the snapshot. -/
theorem oracle_move_crosses_book :
    ¬ ∀ config : SimulatedSymbol, 0 < config.spreadPct → 0 < config.depthStep →
      1 ≤ config.depthLevels → config.depthLevels ≤ 16 →
      ∀ sent : List (ℕ × Emission config), StaysUncrossed (.new true) sent := by
  intro hclaim
  have hstays := hclaim btcUsd (by norm_num [btcUsd]) (by norm_num [btcUsd]) (by decide) (by decide)
    [(0, .snapshot startMid),
      (0, .incremental ⟨65100, by norm_num⟩ ⟨.bid, ⟨0, by decide⟩, 0⟩)]
  exact absurd (hstays _ [] (List.append_nil _).symm) (by decide +kernel)

end

end FIXFeedSimulator

end TickPlant
