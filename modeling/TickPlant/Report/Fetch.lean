/-
# The prices of a node, near and far

The other half of a source is `fetch`.  An `ExchangeDataSource` copies the best prices of its
exchange from the snapshots of the own engine.  A `RemoteDataSource` asks a node for a
`SNAPSHOT` of each symbol and reads the prices of all exchanges back from the reply, which has
the best five levels of each side, in eight digits.

Both go through the same snapshots in the same order, one book after the other, so what they
hold for a symbol and an exchange is compared book by book: an entry is there for both or for
neither, and it is the same where the prices have no more digits than the reply.  This takes a
reply that the library can read: `jstr` does not escape, so the names of the books that are
shown have to be such that nothing has to be.  And a book without an exchange is skipped.
-/
import TickPlant.Report.Reading
import TickPlant.Report.Symbols

namespace TickPlant

open Lib

/-! ## The code -/

/-- The type of `SourceData::live`. -/
abbrev LiveMap := AList fun _ : Bytes => AList fun _ : Bytes => BboData

namespace LiveMap

/-- `live[symbol][exchange] = bbo`. -/
def put (live : LiveMap) (symbol exchange : Bytes) (bbo : BboData) : LiveMap :=
  AList.insert symbol (AList.insert exchange bbo ((AList.lookup symbol live).getD ∅)) live

/-- The entry for a symbol and an exchange. -/
def bbo? (live : LiveMap) (symbol exchange : Bytes) : Option BboData :=
  (AList.lookup symbol live).bind fun m => m.lookup exchange

lemma bbo?_put (live : LiveMap) (symbol' exchange' : Bytes) (bbo : BboData)
    (symbol exchange : Bytes) :
    (live.put symbol' exchange' bbo).bbo? symbol exchange =
      if symbol' = symbol ∧ exchange' = exchange then some bbo else live.bbo? symbol exchange := by
  rw [bbo?, put]
  by_cases hsymbol : symbol' = symbol
  · subst hsymbol
    rw [AList.lookup_insert, Option.bind_some]
    by_cases hexchange : exchange' = exchange
    · subst hexchange
      rw [AList.lookup_insert, if_pos ⟨rfl, rfl⟩]
    · rw [AList.lookup_insert_ne (Ne.symm hexchange), if_neg fun h => hexchange h.2, bbo?]
      cases AList.lookup symbol' live with
      | none => rfl
      | some m => rfl
  · rw [AList.lookup_insert_ne (Ne.symm hsymbol), if_neg fun h => hsymbol h.1, bbo?]

end LiveMap

namespace ExchangeDataSource

/-- What `fetch` copies from a snapshot. -/
def bboOf (snap : OrderBookSnapshot) : BboData :=
  ⟨snap.bestBid, snap.bestAsk, snap.midPrice, snap.spreadBps, snap.timestampMs⟩

/-- One turn of the inner loop of `fetch`. -/
def addSnapshot (name symbol : Bytes) (live : LiveMap) (snap : OrderBookSnapshot) : LiveMap :=
  if snap.exchange ≠ name then live else live.put symbol snap.exchange (bboOf snap)

/-- `ExchangeDataSource::fetch`, for what `get_snapshots` returns. -/
def fetch (name : Bytes) (getSnapshots : Bytes → List OrderBookSnapshot) (symbols : List Bytes) :
    SourceData where
  sourceName := name
  live := symbols.foldl
    (fun live symbol => (getSnapshots symbol).foldl (addSnapshot name symbol) live) (∅ : LiveMap)
  historical := ∅

end ExchangeDataSource

namespace RemoteDataSource

/-- `side[0][0].get<double>()`, or the default for a side that is empty. -/
def bestPrice (side : JsonValue) : Option ℚ :=
  if side.isEmpty then some 0
  else do
    let level ← side.first
    let price ← level.first
    price.getDouble

/-- The body of the loop over the books, for a book with an exchange. -/
def readBbo (book : JsonValue) : Option BboData := do
  let timestampMs ← book.value (bytes "timestamp_ms") JsonValue.getUInt64 0
  let bid ← bestPrice (book.member (bytes "bids"))
  let ask ← bestPrice (book.member (bytes "asks"))
  if bid > 0 ∧ ask > 0 then
    return ⟨bid, ask, (bid + ask) / 2, (ask - bid) / bid * 10000, timestampMs⟩
  else return ⟨bid, ask, 0, 0, timestampMs⟩

/-- The loop over the books of a reply.  An exception ends it, and what it has stored stays. -/
def storeBooks (symbol : Bytes) : List JsonValue → LiveMap → LiveMap
  | [], live => live
  | book :: books, live =>
    match book.value (bytes "exchange") JsonValue.getString [] with
    | none => live
    | some [] => storeBooks symbol books live
    | some exchange =>
      match readBbo book with
      | none => live
      | some bbo => storeBooks symbol books (live.put symbol exchange bbo)

/-- One turn of the loop of `fetch`, for the response that `send_command` returns. -/
def addReply (parse : Bytes → Option JsonValue) (symbol resp : Bytes) (live : LiveMap) : LiveMap :=
  if resp = [] then live
  else
    match parse resp with
    | none => live
    | some j =>
      match j.value (bytes "status") JsonValue.getString [] with
      | none => live
      | some status =>
        if status ≠ bytes "ok" then live
        else storeBooks symbol (j.member (bytes "books")).elements live

/-- `RemoteDataSource::fetch`. -/
def fetch (parse : Bytes → Option JsonValue) (name : Bytes) (sendCommand : Bytes → Bytes)
    (symbols : List Bytes) : SourceData where
  sourceName := name
  live := symbols.foldl
    (fun live symbol => addReply parse symbol (sendCommand (bytes "SNAPSHOT " ++ symbol)) live)
    (∅ : LiveMap)
  historical := ∅

end RemoteDataSource

/-! ## What is read from a book -/

/-- The best price of a side as it comes out of the reply. -/
def readPrice (levels : List PriceLevel) : ℚ :=
  (levels.head?.map fun lvl => numberValue (gText 8 lvl.price)).getD 0

lemma bestPrice_levels (levels : List PriceLevel) :
    RemoteDataSource.bestPrice
      (.ofDoc (.arr ((levels.take 5).map (levelDoc (gText 8))))) = some (readPrice levels) := by
  cases levels with
  | nil => rfl
  | cons lvl levels =>
    have hnumber := isNumber_gText 8 lvl.price
    show (JsonValue.ofAtom (gText 8 lvl.price)).getDouble = some (numberValue _)
    rw [ofAtom_of_isNumber hnumber, getDouble_ofNumber hnumber]

/-- A positive best price of at most eight digits comes out as it is. -/
lemma readPrice_of_digits {levels : List PriceLevel} {price : ℚ}
    (hprice : (levels.head?.map PriceLevel.price).getD 0 = price) (hpos : 0 < price)
    (hdigits : HasDigits 8 price) : readPrice levels = price := by
  subst hprice
  cases levels with
  | nil => rfl
  | cons lvl levels => exact numberValue_gText (by norm_num) hpos hdigits

/-- The book is one that the reply shows exactly: both sides have a positive best price of at most
eight digits, and the clock is one of 64 bits. -/
structure OrderBookSnapshot.ShownExactly (snap : OrderBookSnapshot) : Prop where
  bids : snap.bids ≠ []
  asks : snap.asks ≠ []
  bid_pos : 0 < snap.bestBid
  ask_pos : 0 < snap.bestAsk
  bid_digits : HasDigits 8 snap.bestBid
  ask_digits : HasDigits 8 snap.bestAsk
  clock : snap.timestampMs < 2 ^ 64

/-- Prices that are integers of at most eight digits. -/
lemma OrderBookSnapshot.shownExactly_of_nat {snap : OrderBookSnapshot} (bid ask : ℕ)
    (hbid : snap.bestBid = bid) (hask : snap.bestAsk = ask) (hpos : 0 < bid ∧ 0 < ask)
    (hlt : bid < 10 ^ 8 ∧ ask < 10 ^ 8) (hclock : snap.timestampMs < 2 ^ 64) :
    snap.ShownExactly := by
  have hbidPos : 0 < snap.bestBid := by
    rw [hbid]
    exact_mod_cast hpos.1
  have haskPos : 0 < snap.bestAsk := by
    rw [hask]
    exact_mod_cast hpos.2
  constructor
  · intro hnil
    simp [OrderBookSnapshot.bestBid, hnil] at hbidPos
  · intro hnil
    simp [OrderBookSnapshot.bestAsk, hnil] at haskPos
  · exact hbidPos
  · exact haskPos
  · rw [hbid]
    exact hasDigits_natCast hlt.1
  · rw [hask]
    exact hasDigits_natCast hlt.2
  · exact hclock

/-- A number is one of the types that convert to `uint64_t`. -/
lemma getUInt64_ofNumber (t : Bytes) : ∃ n, (JsonValue.ofNumber t).getUInt64 = some n := by
  rw [JsonValue.ofNumber]
  split
  · cases hint : JsonValue.ofInt t with
    | none => exact ⟨_, rfl⟩
    | some v =>
      unfold JsonValue.ofInt at hint
      split at hint
      · split at hint
        · obtain rfl := Option.some.inj hint
          exact ⟨_, rfl⟩
        · cases hint
      · split at hint
        · obtain rfl := Option.some.inj hint
          exact ⟨_, rfl⟩
        · cases hint
  · exact ⟨_, rfl⟩

/-- A book of a reply can be read, and what is read is what the own engine has, if the reply
shows it exactly. -/
lemma readBbo_bookDoc (snap : OrderBookSnapshot) :
    ∃ bbo, RemoteDataSource.readBbo (.ofDoc (bookDoc (gText 8) 5 snap)) = some bbo ∧
      (snap.ShownExactly → bbo = ExchangeDataSource.bboOf snap) := by
  have hbids : RemoteDataSource.bestPrice
      ((JsonValue.ofDoc (bookDoc (gText 8) 5 snap)).member (bytes "bids")) =
        some (readPrice snap.bids) := bestPrice_levels snap.bids
  have hasks : RemoteDataSource.bestPrice
      ((JsonValue.ofDoc (bookDoc (gText 8) 5 snap)).member (bytes "asks")) =
        some (readPrice snap.asks) := bestPrice_levels snap.asks
  have hclock : (JsonValue.ofDoc (bookDoc (gText 8) 5 snap)).value (bytes "timestamp_ms")
      JsonValue.getUInt64 0 = (JsonValue.ofAtom (toText snap.timestampMs)).getUInt64 := rfl
  obtain ⟨ms, hms⟩ : ∃ ms, (JsonValue.ofAtom (toText snap.timestampMs)).getUInt64 = some ms := by
    rw [toText_eq_decimal, ofAtom_of_isNumber (isNumber_decimal _)]
    exact getUInt64_ofNumber _
  rw [RemoteDataSource.readBbo, hclock, hms, hbids, hasks]
  simp only [Option.bind_eq_bind, Option.bind_some]
  refine ⟨_, (apply_ite some _ _ _).symm, ?_⟩
  intro h
  have hbid : readPrice snap.bids = snap.bestBid :=
    readPrice_of_digits rfl h.bid_pos h.bid_digits
  have hask : readPrice snap.asks = snap.bestAsk :=
    readPrice_of_digits rfl h.ask_pos h.ask_digits
  have hms : ms = snap.timestampMs := by
    rw [ofAtom_toText h.clock] at hms
    exact (Option.some.inj hms).symm
  have hmid : snap.midPrice = (snap.bestBid + snap.bestAsk) / 2 := by
    rw [OrderBookSnapshot.midPrice, if_neg (by simp [h.bids, h.asks])]
  have hspread : snap.spreadBps = (snap.bestAsk - snap.bestBid) / snap.bestBid * 10000 := by
    rw [OrderBookSnapshot.spreadBps, if_neg (not_le.mpr h.bid_pos)]
  rw [hbid, hask, if_pos ⟨h.bid_pos, h.ask_pos⟩, hms, ExchangeDataSource.bboOf, hmid, hspread]

/-! ## Book by book -/

/-- The two maps agree on the entry for a symbol and an exchange: it is there in both or in
neither, and under the condition `P` it is the same. -/
structure LiveMap.Agree (P : Prop) (symbol exchange : Bytes) (near far : LiveMap) : Prop where
  isSome_iff : (far.bbo? symbol exchange).isSome ↔ (near.bbo? symbol exchange).isSome
  eq : P → far.bbo? symbol exchange = near.bbo? symbol exchange

section

variable {P : Prop} {symbol exchange : Bytes} {near far : LiveMap}

lemma LiveMap.Agree.refl (live : LiveMap) : LiveMap.Agree P symbol exchange live live :=
  ⟨Iff.rfl, fun _ => rfl⟩

/-- Agreement on an entry is a matter of the entry only. -/
lemma LiveMap.Agree.congr (h : LiveMap.Agree P symbol exchange near far) {near' far' : LiveMap}
    (hnear : near'.bbo? symbol exchange = near.bbo? symbol exchange)
    (hfar : far'.bbo? symbol exchange = far.bbo? symbol exchange) :
    LiveMap.Agree P symbol exchange near' far' := by
  constructor
  · rw [hnear, hfar]
    exact h.isSome_iff
  · intro hP
    rw [hnear, hfar, h.eq hP]

/-- What the two loops store for a book of the exchange. -/
lemma LiveMap.agree_put {bbo bbo' : BboData} (h : P → bbo' = bbo) :
    LiveMap.Agree P symbol exchange (near.put symbol exchange bbo)
      (far.put symbol exchange bbo') := by
  constructor
  · simp [LiveMap.bbo?_put]
  · intro hP
    simp [LiveMap.bbo?_put, h hP]

/-- The two loops over the books of a symbol, one of which skips the books of other exchanges and
the other one those without an exchange. -/
lemma agree_books (hexchange : exchange ≠ []) (snaps : List OrderBookSnapshot)
    (hP : P → ∀ snap ∈ snaps, snap.exchange = exchange → snap.ShownExactly)
    (h : LiveMap.Agree P symbol exchange near far) :
    LiveMap.Agree P symbol exchange
      (snaps.foldl (ExchangeDataSource.addSnapshot exchange symbol) near)
      (RemoteDataSource.storeBooks symbol
        (snaps.map fun snap => .ofDoc (bookDoc (gText 8) 5 snap)) far) := by
  induction snaps generalizing near far with
  | nil => exact h
  | cons snap snaps ih =>
    have ih := @ih (ExchangeDataSource.addSnapshot exchange symbol near snap)
    have hP' : P → ∀ s ∈ snaps, s.exchange = exchange → s.ShownExactly :=
      fun hp s hs => hP hp s (List.mem_cons_of_mem snap hs)
    obtain ⟨bbo, hread, hbbo⟩ := readBbo_bookDoc snap
    have hname : (JsonValue.ofDoc (bookDoc (gText 8) 5 snap)).value (bytes "exchange")
        JsonValue.getString [] = some snap.exchange := rfl
    rw [List.foldl_cons, List.map_cons, RemoteDataSource.storeBooks, hname]
    cases hsnap : snap.exchange with
    | nil =>
      refine ih hP' ?_
      rwa [ExchangeDataSource.addSnapshot, if_pos (hsnap ▸ hexchange.symm)]
    | cons c cs =>
      dsimp only
      rw [hread, ← hsnap]
      refine ih hP' ?_
      by_cases hex : snap.exchange = exchange
      · rw [ExchangeDataSource.addSnapshot, if_neg (not_not.mpr hex), hex]
        exact LiveMap.agree_put fun hp => hbbo (hP hp snap List.mem_cons_self hex)
      · rw [ExchangeDataSource.addSnapshot, if_pos hex]
        exact h.congr rfl ((LiveMap.bbo?_put ..).trans (if_neg fun hc => hex hc.2))

end

/-! ## Symbol by symbol -/

/-- The books of one symbol are not stored under another one. -/
lemma bbo?_foldl_addSnapshot {symbol symbol' : Bytes} (hne : symbol' ≠ symbol)
    (name exchange : Bytes) (snaps : List OrderBookSnapshot) (live : LiveMap) :
    LiveMap.bbo? (snaps.foldl (ExchangeDataSource.addSnapshot name symbol') live) symbol exchange =
      live.bbo? symbol exchange := by
  induction snaps generalizing live with
  | nil => rfl
  | cons snap snaps ih =>
    rw [List.foldl_cons, ih, ExchangeDataSource.addSnapshot]
    split
    · rfl
    · rw [LiveMap.bbo?_put, if_neg fun h => hne h.1]

/-- Nor are they stored under an exchange without a name. -/
lemma bbo?_storeBooks {symbol symbol' exchange : Bytes}
    (hne : symbol' ≠ symbol ∨ exchange = []) (books : List JsonValue) (live : LiveMap) :
    (RemoteDataSource.storeBooks symbol' books live).bbo? symbol exchange =
      live.bbo? symbol exchange := by
  induction books generalizing live with
  | nil => rfl
  | cons book books ih =>
    rw [RemoteDataSource.storeBooks]
    split
    · rfl
    · exact ih live
    · rename_i exchange' hname _
      split
      · rfl
      · have hother : ¬ (symbol' = symbol ∧ exchange' = exchange) := by
          rintro ⟨hsymbol, rfl⟩
          exact hne.elim (fun h => h hsymbol) hname
        rw [ih, LiveMap.bbo?_put, if_neg hother]

lemma bbo?_addReply {symbol symbol' exchange : Bytes}
    (hne : symbol' ≠ symbol ∨ exchange = []) (parse : Bytes → Option JsonValue) (resp : Bytes)
    (live : LiveMap) :
    (RemoteDataSource.addReply parse symbol' resp live).bbo? symbol exchange =
      live.bbo? symbol exchange := by
  rw [RemoteDataSource.addReply]
  split
  · rfl
  · split
    · rfl
    · split
      · rfl
      · split
        · rfl
        · exact bbo?_storeBooks hne _ live

/-- A reply that cannot be read is skipped. -/
lemma addReply_of_parse_none {parse : Bytes → Option JsonValue} {resp : Bytes}
    (h : parse resp = none) (symbol : Bytes) (live : LiveMap) :
    RemoteDataSource.addReply parse symbol resp live = live := by
  rw [RemoteDataSource.addReply, h]
  exact ite_self live

/-! ## The reply -/

/-- A symbol that can be asked for: upper-case letters and digits. -/
def IsCanonical (symbol : Bytes) : Prop :=
  symbol ≠ [] ∧ ∀ b ∈ symbol, 48 ≤ b ∧ b ≤ 57 ∨ 65 ≤ b ∧ b ≤ 90

/-- What `get_snapshots` returns at the moment of the call. -/
def QueryEnv.getSnapshots (env : QueryEnv) (symbol : Bytes) : List OrderBookSnapshot :=
  env.engine.getSnapshots env.wsOrder env.fixOrder symbol

lemma isCanonical_byte : ∀ {b : UInt8}, (48 ≤ b ∧ b ≤ 57 ∨ 65 ≤ b ∧ b ≤ 90) →
    toUpper b = b ∧ IsPlain b ∧ ¬ IsPad b := by
  decide +kernel

namespace IsCanonical

variable {symbol : Bytes}

lemma upper_eq (h : IsCanonical symbol) : upper symbol = symbol := by
  rw [upper, List.map_congr_left fun b hb => (isCanonical_byte (h.2 b hb)).1, List.map_id']

lemma parseRequest_eq (h : IsCanonical symbol) :
    parseRequest (bytes "SNAPSHOT " ++ symbol) = ⟨.snapshot, symbol, []⟩ := by
  have hlast : ∀ b ∈ symbol.getLast?, ¬ IsPad b := by
    intro b hb
    exact (isCanonical_byte (h.2 b (List.mem_of_getLast? hb))).2.2
  have hpad : ∀ b ∈ ([] : Bytes), IsPad b := by simp
  have hparse := parseRequest_snapshot h.upper_eq h.1 hlast rfl hpad
  rwa [List.append_nil] at hparse

lemma verbatim (h : IsCanonical symbol) : Verbatim symbol :=
  verbatim_of_plain fun b hb => (isCanonical_byte (h.2 b hb)).2.1

/-- The message for a symbol without books. -/
lemma verbatim_notFound (h : IsCanonical symbol) :
    Verbatim (replaceQuotes (bytes "symbol not found: " ++ symbol)) := by
  have hfixed : ∀ b ∈ replaceQuotes (bytes "symbol not found: "), IsPlain b := by decide +kernel
  refine verbatim_of_plain ?_
  intro b hb
  rw [replaceQuotes, List.map_append, List.mem_append] at hb
  rcases hb with hb | hb
  · exact hfixed b hb
  · obtain ⟨c, hc, rfl⟩ := List.mem_map.mp hb
    obtain ⟨-, hplain, -⟩ := isCanonical_byte (h.2 c hc)
    rwa [if_neg hplain.2.2.1]

end IsCanonical

lemma snapshotDoc_all {symbol : Bytes} (h : IsCanonical symbol) {snaps : List OrderBookSnapshot}
    (hnames : ∀ snap ∈ snaps, Verbatim snap.exchange ∧ Verbatim snap.symbol) :
    (snapshotDoc (gText 8) symbol snaps).All Verbatim Json.IsAtom := by
  have hfixed : ∀ s ∈ [bytes "status", bytes "error", bytes "message", bytes "ok", bytes "symbol",
      bytes "books"], Verbatim s := by decide +kernel
  simp only [List.forall_mem_cons] at hfixed
  obtain ⟨hstatus, herror, hmessage, hok, hsymbol, hbooks, -⟩ := hfixed
  rw [snapshotDoc]
  split
  · exact ⟨hstatus, herror, hmessage, h.verbatim_notFound, trivial⟩
  · refine ⟨hstatus, hok, hsymbol, h.verbatim, hbooks, ?_, trivial⟩
    rw [Json.All, Json.allItems_iff, List.forall_mem_map]
    intro snap hsnap
    obtain ⟨hexchange, hname⟩ := hnames snap hsnap
    exact (bookDoc_all_iff admits_verbatim 5 hexchange hname).mpr
      fun q _ => Or.inl (isNumber_gText 8 q)

lemma levels_distinctKeys (fmtDbl : ℚ → Bytes) (levels : List PriceLevel) :
    (Json.arr (levels.map (levelDoc fmtDbl))).DistinctKeys := by
  rw [Json.DistinctKeys, Json.distinctKeysItems_iff, List.forall_mem_map]
  exact fun lvl _ => ⟨trivial, trivial, trivial⟩

lemma bookDoc_distinctKeys (fmtDbl : ℚ → Bytes) (maxLevels : ℕ) (snap : OrderBookSnapshot) :
    (bookDoc fmtDbl maxLevels snap).DistinctKeys :=
  ⟨(by decide : [bytes "exchange", bytes "symbol", bytes "bids", bytes "asks",
    bytes "timestamp_ms"].Nodup), trivial, trivial, levels_distinctKeys fmtDbl _,
    levels_distinctKeys fmtDbl _, trivial, trivial⟩

/-- The keys of a `SNAPSHOT` reply are distinct. -/
lemma snapshotDoc_distinctKeys (fmtDbl : ℚ → Bytes) (symbol : Bytes)
    (snaps : List OrderBookSnapshot) : (snapshotDoc fmtDbl symbol snaps).DistinctKeys := by
  rw [snapshotDoc]
  split
  · exact ⟨(by decide : [bytes "status", bytes "message"].Nodup), trivial, trivial, trivial⟩
  · refine ⟨(by decide : [bytes "status", bytes "symbol", bytes "books"].Nodup), trivial, trivial,
      ?_, trivial⟩
    rw [Json.DistinctKeys, Json.distinctKeysItems_iff, List.forall_mem_map]
    exact fun snap _ => bookDoc_distinctKeys fmtDbl 5 snap

/-- The reply to the request of a remote source. -/
lemma handleLine_snapshot (env : QueryEnv) {symbol : Bytes} (h : IsCanonical symbol) :
    handleLine env (bytes "SNAPSHOT " ++ symbol) =
      (snapshotDoc env.fmtDbl symbol (env.getSnapshots symbol)).render ++ bytes "\n" := by
  simp only [handleLine, h.parseRequest_eq]
  exact snapshotResponse_eq ..

/-- What the remote source makes of the reply for a symbol, if the library reads it. -/
lemma addReply_eq {env : QueryEnv} (hfmt : env.fmtDbl = gText 8) {symbol : Bytes}
    (h : IsCanonical symbol)
    (hnames : ∀ snap ∈ env.getSnapshots symbol, Verbatim snap.exchange ∧ Verbatim snap.symbol)
    {parse : Bytes → Option JsonValue}
    (hparse : ReadsDoc parse (snapshotDoc env.fmtDbl symbol (env.getSnapshots symbol)))
    {resp : Bytes} (hresp : resp ++ bytes "\n" = handleLine env (bytes "SNAPSHOT " ++ symbol))
    (live : LiveMap) :
    RemoteDataSource.addReply parse symbol resp live =
      RemoteDataSource.storeBooks symbol
        ((env.getSnapshots symbol).map fun snap => .ofDoc (bookDoc (gText 8) 5 snap)) live := by
  rw [handleLine_snapshot env h, hfmt] at hresp
  obtain rfl := List.append_cancel_right hresp
  rw [hfmt] at hparse
  have hread := hparse (snapshotDoc_all h hnames) (snapshotDoc_distinctKeys ..)
  rw [RemoteDataSource.addReply, hread]
  cases hsnaps : env.getSnapshots symbol with
  | nil =>
    have hne : (snapshotDoc (gText 8) symbol []).render ≠ [] := List.cons_ne_nil _ _
    rw [if_neg hne]
    rfl
  | cons snap snaps =>
    have hne : (snapshotDoc (gText 8) symbol (snap :: snaps)).render ≠ [] := List.cons_ne_nil _ _
    have hbooks : ((JsonValue.ofDoc (snapshotDoc (gText 8) symbol (snap :: snaps))).member
        (bytes "books")).elements =
          ((snap :: snaps).map (bookDoc (gText 8) 5)).map .ofDoc := JsonValue.ofItems_eq _
    rw [if_neg hne]
    show RemoteDataSource.storeBooks symbol (JsonValue.elements _) live = _
    rw [hbooks, List.map_map]
    rfl

/-- The loops over the symbols keep the agreement. -/
lemma agree_symbols {env : QueryEnv} (hfmt : env.fmtDbl = gText 8) {symbol exchange : Bytes}
    (h : IsCanonical symbol) (hexchange : exchange ≠ [])
    (hnames : ∀ snap ∈ env.getSnapshots symbol, Verbatim snap.exchange ∧ Verbatim snap.symbol)
    {parse : Bytes → Option JsonValue}
    (hparse : ReadsDoc parse (snapshotDoc env.fmtDbl symbol (env.getSnapshots symbol)))
    {sendCommand : Bytes → Bytes}
    (hsend : sendCommand (bytes "SNAPSHOT " ++ symbol) ++ bytes "\n" =
      handleLine env (bytes "SNAPSHOT " ++ symbol)) {P : Prop}
    (hP : P → ∀ snap ∈ env.getSnapshots symbol, snap.exchange = exchange → snap.ShownExactly)
    (symbols : List Bytes) {near far : LiveMap} (hagree : LiveMap.Agree P symbol exchange near far) :
    LiveMap.Agree P symbol exchange
      (symbols.foldl (fun live symbol => (env.getSnapshots symbol).foldl
        (ExchangeDataSource.addSnapshot exchange symbol) live) near)
      (symbols.foldl (fun live symbol => RemoteDataSource.addReply parse symbol
        (sendCommand (bytes "SNAPSHOT " ++ symbol)) live) far) := by
  induction symbols generalizing near far with
  | nil => exact hagree
  | cons symbol' symbols ih =>
    rw [List.foldl_cons, List.foldl_cons]
    refine ih ?_
    by_cases hne : symbol' = symbol
    · subst hne
      rw [addReply_eq hfmt h hnames hparse hsend]
      exact agree_books hexchange _ hP hagree
    · exact hagree.congr (bbo?_foldl_addSnapshot hne exchange exchange _ near)
        (bbo?_addReply (.inl hne) parse _ far)

/-! ## The theorem -/

/-- **Two sources that agree.**  A remote source that asks a node for the symbols holds an entry
for a symbol and an exchange exactly if the source of the exchange at the node does, and where
the reply shows the books of the exchange exactly it is the same entry.  The exchange has a name,
and no name of the books that are shown for the symbol has to be escaped. -/
theorem fetch_near_and_far (env : QueryEnv) (hfmt : env.fmtDbl = gText 8)
    (parse : Bytes → Option JsonValue) (sendCommand : Bytes → Bytes) (name : Bytes)
    (symbols : List Bytes) {symbol exchange : Bytes} (hsymbol : IsCanonical symbol)
    (hexchange : exchange ≠ [])
    (hnames : ∀ snap ∈ env.getSnapshots symbol, Verbatim snap.exchange ∧ Verbatim snap.symbol)
    (hparse : ReadsDoc parse (snapshotDoc env.fmtDbl symbol (env.getSnapshots symbol)))
    (hsend : sendCommand (bytes "SNAPSHOT " ++ symbol) ++ bytes "\n" =
      handleLine env (bytes "SNAPSHOT " ++ symbol)) :
    let near := (ExchangeDataSource.fetch exchange env.getSnapshots symbols).live
    let far := (RemoteDataSource.fetch parse name sendCommand symbols).live
    ((LiveMap.bbo? far symbol exchange).isSome ↔ (LiveMap.bbo? near symbol exchange).isSome) ∧
    ((∀ snap ∈ env.getSnapshots symbol, snap.exchange = exchange → snap.ShownExactly) →
      LiveMap.bbo? far symbol exchange = LiveMap.bbo? near symbol exchange) := by
  have hagree := agree_symbols hfmt hsymbol hexchange hnames hparse hsend id symbols
    (LiveMap.Agree.refl ∅)
  exact ⟨hagree.isSome_iff, hagree.eq⟩

/-! ## Nodes with a few books -/

/-- A node whose engine has received the messages. -/
def nodeAfter (calls : List (ℕ × EngineCall)) : QueryEnv :=
  { emptyEnv with engine := (ArbitrageEngine.new false).runCalls calls, fmtDbl := gText 8 }

/-- A book with one bid, at 100, and one ask, at 101. -/
lemma shownExactly_oneLevel (symbol exchange : Bytes) {ms : ℕ} (hms : ms < 2 ^ 64) :
    OrderBookSnapshot.ShownExactly
      ⟨symbol, exchange, ms, true, [⟨100, 1, 0⟩], [⟨101, 1, 0⟩]⟩ :=
  OrderBookSnapshot.shownExactly_of_nat 100 101 rfl rfl (by norm_num) (by norm_num) hms

/-- Binance and Kraken quote `BTC`. -/
def twoFeeds : List (ℕ × EngineCall) :=
  [(7000000, .ws ⟨bytes "BTCUSDT", bytes "Binance", 0, true, [⟨100, 1, 0⟩], [⟨101, 1, 0⟩]⟩),
    (9000000, .ws ⟨bytes "BTC/USD", bytes "Kraken", 0, true, [⟨99, 2, 0⟩], []⟩)]

theorem fetch_near_and_far_binance :
    let env := nodeAfter twoFeeds
    let doc := snapshotDoc env.fmtDbl (bytes "BTC") (env.getSnapshots (bytes "BTC"))
    LiveMap.bbo? (RemoteDataSource.fetch
        (fun text => if text = doc.render then some (.ofDoc doc) else none) (bytes "node")
        (fun _ => doc.render) [bytes "ETH", bytes "BTC"]).live (bytes "BTC") (bytes "Binance") =
      some ⟨100, 101, 201 / 2, 100, 7⟩ := by
  intro env doc
  have hsymbol : IsCanonical (bytes "BTC") := by
    refine ⟨by decide, ?_⟩
    decide +kernel
  have hnames : ∀ snap ∈ env.getSnapshots (bytes "BTC"),
      Verbatim snap.exchange ∧ Verbatim snap.symbol := by decide +kernel
  have hsnaps : env.getSnapshots (bytes "BTC") =
      [⟨bytes "BTC/USD", bytes "Kraken", 9, true, [⟨99, 2, 0⟩], []⟩,
        ⟨bytes "BTCUSDT", bytes "Binance", 7, true, [⟨100, 1, 0⟩], [⟨101, 1, 0⟩]⟩] := by
    decide +kernel
  have hshown : ∀ snap ∈ env.getSnapshots (bytes "BTC"), snap.exchange = bytes "Binance" →
      snap.ShownExactly := by
    rw [hsnaps, List.forall_mem_cons, List.forall_mem_singleton]
    refine ⟨fun h => absurd h (by decide), fun _ => ?_⟩
    exact shownExactly_oneLevel _ _ (by norm_num)
  rw [(fetch_near_and_far env rfl _ _ (bytes "node") _ hsymbol (by decide) hnames
    (fun _ _ => if_pos rfl) (handleLine_snapshot env hsymbol).symm).2 hshown]
  decide +kernel

/-- A FIX feed quotes a symbol with a quotation mark in its name. -/
def quotedSymbol : List (ℕ × EngineCall) :=
  [(0, .fix ⟨.marketDataSnapshot, bytes "BTC-\"", [⟨0, 0, 100, 1⟩, ⟨1, 0, 101, 1⟩]⟩)]

/-- An exchange without a name quotes `BTC`. -/
def namelessFeed : List (ℕ × EngineCall) :=
  [(0, .ws ⟨bytes "BTCUSDT", [], 0, true, [⟨100, 1, 0⟩], [⟨101, 1, 0⟩]⟩)]

/-- The own engine has an entry for the exchange, with prices that a reply shows exactly, but no
remote source gets it, if the library reads well-formed texts and no others. -/
def HidesEntry (env : QueryEnv) (symbol exchange : Bytes) : Prop :=
  (∀ snap ∈ env.getSnapshots symbol, snap.ShownExactly) ∧
  (LiveMap.bbo? (ExchangeDataSource.fetch exchange env.getSnapshots [symbol]).live
    symbol exchange).isSome ∧
  ∀ (parse : Bytes → Option JsonValue) (name : Bytes) (sendCommand : Bytes → Bytes),
    (∀ text, (parse text).isSome → IsJson text) →
    ReadsDoc parse (snapshotDoc env.fmtDbl symbol (env.getSnapshots symbol)) →
    sendCommand (bytes "SNAPSHOT " ++ symbol) ++ bytes "\n" =
      handleLine env (bytes "SNAPSHOT " ++ symbol) →
    LiveMap.bbo? (RemoteDataSource.fetch parse name sendCommand [symbol]).live symbol exchange =
      none

/-- A quotation mark in the name of a symbol makes the reply one that cannot be read, and a book
of an exchange without a name is skipped. -/
theorem names_hide_entries :
    IsCanonical (bytes "BTC") ∧ HidesEntry (nodeAfter quotedSymbol) (bytes "BTC") (bytes "FIX") ∧
      HidesEntry (nodeAfter namelessFeed) (bytes "BTC") [] := by
  have hsymbol : IsCanonical (bytes "BTC") := by
    refine ⟨by decide, ?_⟩
    decide +kernel
  refine ⟨hsymbol, ⟨?_, by decide +kernel, ?_⟩, ?_, by decide +kernel, ?_⟩
  · have hsnaps : (nodeAfter quotedSymbol).getSnapshots (bytes "BTC") =
        [⟨bytes "BTC-\"", bytes "FIX", 0, true, [⟨100, 1, 0⟩], [⟨101, 1, 0⟩]⟩] := by
      decide +kernel
    rw [hsnaps, List.forall_mem_singleton]
    exact shownExactly_oneLevel _ _ (by norm_num)
  · intro parse name sendCommand hjson _ hsend
    have hscan :
        scanRun .out (handleLine (nodeAfter quotedSymbol) (bytes "SNAPSHOT BTC")).dropLast =
          none := by decide +kernel
    have hresp : (handleLine (nodeAfter quotedSymbol) (bytes "SNAPSHOT BTC")).dropLast =
        sendCommand (bytes "SNAPSHOT BTC") := by
      rw [show bytes "SNAPSHOT BTC" = bytes "SNAPSHOT " ++ bytes "BTC" from rfl, ← hsend]
      exact List.dropLast_concat
    have hnone : parse (sendCommand (bytes "SNAPSHOT BTC")) = none := by
      cases hread : parse (sendCommand (bytes "SNAPSHOT BTC")) with
      | none => rfl
      | some v =>
        obtain ⟨q, -, hq⟩ := (hjson _ (Option.isSome_of_eq_some hread)).scan
        rw [← hresp, hscan] at hq
        cases hq
    exact congrArg (fun live => LiveMap.bbo? live (bytes "BTC") (bytes "FIX"))
      (addReply_of_parse_none hnone (bytes "BTC") ∅)
  · have hsnaps : (nodeAfter namelessFeed).getSnapshots (bytes "BTC") =
        [⟨bytes "BTCUSDT", [], 0, true, [⟨100, 1, 0⟩], [⟨101, 1, 0⟩]⟩] := by
      decide +kernel
    rw [hsnaps, List.forall_mem_singleton]
    exact shownExactly_oneLevel _ _ (by norm_num)
  · intro parse name sendCommand _ _ _
    exact bbo?_addReply (.inr rfl) parse _ ∅

end TickPlant
