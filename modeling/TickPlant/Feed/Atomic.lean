/-
# Atomic messages

A message of Bybit, an item of Kraken or an event of Coinbase is applied as a whole and handed on
once, or it throws and nothing is changed.  A message with several parts is no unit: if the k-th
part throws, those before it have been applied (`parsers_atomic`).

The levels are only required to have the elements that are read, which may be of any type: a
constant object or array of the JSON library has no defined behaviour at a key or an index that is
not there, and `Complete` excludes that for each of the three.

One thing is left out without an exception: an update of Coinbase whose side is neither `bid` nor
`offer`, while the rest of its event is applied (`other_side_left_out`).
-/
import TickPlant.Feed.Parsers

namespace TickPlant

open Lib

/-! ## What is read -/

lemma stringMember_eq_some {v : JsonValue} {key s : Bytes} :
    stringMember v key = .ok (some s) ↔ v.atKey key = .ok (.string s) := by
  rw [stringMember]
  split_ifs with h
  · simp only [bind_eq_ok, orThrow_eq_ok, JsonValue.getString_eq_some]
    constructor
    · rintro ⟨w, hw, t, rfl, ht⟩
      rw [hw, Option.some.inj (Except.ok.inj ht)]
    · intro hv
      exact ⟨.string s, hv, s, rfl, rfl⟩
  · refine iff_of_false (fun hnone => ?_) fun hv => h (JsonValue.contains_of_atKey hv)
    cases hnone

lemma stringMember_eq_none {v : JsonValue} {key : Bytes} :
    stringMember v key = .ok none ↔ ¬ v.contains key := by
  rw [stringMember]
  split_ifs with h
  · refine iff_of_false (fun hnone => ?_) fun hv => hv h
    obtain ⟨w, -, hnone⟩ := bind_eq_ok.mp hnone
    obtain ⟨t, -, hnone⟩ := bind_eq_ok.mp hnone
    cases hnone
  · exact iff_of_true rfl h

namespace BybitWebSocketClient

/-- The message is one of the order book topic, with both sides. -/
def IsDepth (j : JsonValue) : Prop :=
  j.atKey (bytes "op") ≠ .ok (.string (bytes "subscribe")) ∧
    j.atKey (bytes "op") ≠ .ok (.string (bytes "pong")) ∧
    (∃ topic, j.atKey (bytes "topic") = .ok (.string topic) ∧
      bytes "orderbook.50." <:+: topic) ∧
    j.contains (bytes "type") ∧
    ∃ data, j.atKey (bytes "data") = .ok data ∧ data.contains (bytes "b") ∧
      data.contains (bytes "a")

/-- The level that an entry states. -/
def IsLevel (env : ParserEnv) (entry : JsonValue) (l : PriceLevel) : Prop :=
  ∃ price qty, entry.atIndex 0 = .ok (.string price) ∧ entry.atIndex 1 = .ok (.string qty) ∧
    env.stod price = some l.price ∧ env.stod qty = some l.quantity ∧ l.orderCount = 0

/-- The batch states the message as a whole. -/
def IsBatch (env : ParserEnv) (j : JsonValue) (snap : OrderBookSnapshot) : Prop :=
  ∃ topic type data bids asks,
    j.atKey (bytes "topic") = .ok (.string topic) ∧
    snap.symbol = topic.drop (bytes "orderbook.50.").length ∧
    j.atKey (bytes "type") = .ok (.string type) ∧
    (snap.isSnapshot = true ↔ type = bytes "snapshot") ∧
    j.atKey (bytes "data") = .ok data ∧
    data.atKey (bytes "b") = .ok bids ∧ data.atKey (bytes "a") = .ok asks ∧
    List.Forall₂ (IsLevel env) bids.elements snap.bids ∧
    List.Forall₂ (IsLevel env) asks.elements snap.asks

lemma isLevel_of_readLevel {env : ParserEnv} {entry : JsonValue} {l : PriceLevel}
    (h : readLevel env entry = .ok l) : IsLevel env entry l := by
  simp only [readLevel, bind_eq_ok, orThrow_eq_ok, JsonValue.getString_eq_some] at h
  obtain ⟨_, hprice, price, rfl, p, hp, _, hqty, qty, rfl, q, hq, hl⟩ := h
  cases hl
  exact ⟨price, qty, hprice, hqty, hp, hq, rfl⟩

/-- What a message that does not throw is read as. -/
def States (env : ParserEnv) (j : JsonValue) : Option OrderBookSnapshot → Prop
  | none => ¬ IsDepth j
  | some snap => IsDepth j ∧ IsBatch env j snap

lemma states_of_readMessage {env : ParserEnv} {j : JsonValue} {o : Option OrderBookSnapshot}
    (h : readMessage env j = .ok o) : States env j o := by
  obtain ⟨op, hop, h⟩ := bind_eq_ok.mp h
  obtain ⟨hquiet, h⟩ | ⟨hquiet, h⟩ := ite_eq_iff.mp h
  · cases h
    rintro ⟨hsubscribe, hpong, -⟩
    obtain rfl | rfl := hquiet
    · exact hsubscribe (stringMember_eq_some.mp hop)
    · exact hpong (stringMember_eq_some.mp hop)
  -- each early return is a message that is no depth message
  obtain ⟨_ | topic, htopic, h⟩ := bind_eq_ok.mp h
  · cases h
    rintro ⟨-, -, ⟨topic, htopic', -⟩, -⟩
    exact stringMember_eq_none.mp htopic (JsonValue.contains_of_atKey htopic')
  rw [stringMember_eq_some] at htopic
  obtain ⟨htopicKind, h⟩ | ⟨htopicKind, h⟩ := ite_eq_iff.mp h
  · cases h
    rintro ⟨-, -, ⟨topic', htopic', hinfix⟩, -⟩
    rw [htopic] at htopic'
    cases htopic'
    exact htopicKind hinfix
  obtain ⟨hmembers, h⟩ | ⟨hmembers, h⟩ := ite_eq_iff.mp h
  · cases h
    rintro ⟨-, -, -, htype, data, hdata, -⟩
    exact hmembers.elim (· (JsonValue.contains_of_atKey hdata)) (· htype)
  simp only [bind_eq_ok, orThrow_eq_ok, JsonValue.getString_eq_some] at h
  obtain ⟨_, htype, type, rfl, data, hdata, h⟩ := h
  obtain ⟨hsides, h⟩ | ⟨hsides, h⟩ := ite_eq_iff.mp h
  · cases h
    rintro ⟨-, -, -, -, data', hdata', hb, ha⟩
    rw [hdata] at hdata'
    cases hdata'
    exact hsides.elim (· hb) (· ha)
  simp only [bind_eq_ok, readLevels, mapM_eq_ok] at h
  obtain ⟨b, hb, bids, hbids, a, ha, asks, hasks, h⟩ := h
  cases h
  refine ⟨⟨fun hop' => ?_, fun hop' => ?_, ⟨topic, htopic, not_not.mp htopicKind⟩,
    JsonValue.contains_of_atKey htype, data, hdata, JsonValue.contains_of_atKey hb,
    JsonValue.contains_of_atKey ha⟩, topic, type, data, b, a, htopic, rfl, htype,
    decide_eq_true_iff, hdata, hb, ha, hbids.imp fun _ _ => isLevel_of_readLevel,
    hasks.imp fun _ _ => isLevel_of_readLevel⟩
  · rw [← stringMember_eq_some, hop] at hop'
    exact hquiet (Or.inl (Except.ok.inj hop'))
  · rw [← stringMember_eq_some, hop] at hop'
    exact hquiet (Or.inr (Except.ok.inj hop'))

end BybitWebSocketClient

namespace KrakenWebSocketClient

/-- The level that an entry states. -/
def IsLevel (entry : JsonValue) (l : PriceLevel) : Prop :=
  ∃ price qty, entry.atKey (bytes "price") = .ok price ∧ entry.atKey (bytes "qty") = .ok qty ∧
    price.getDouble = some l.price ∧ qty.getDouble = some l.quantity ∧ l.orderCount = 0

/-- The levels of one side of an item. -/
def IsSide (item : JsonValue) (key : Bytes) (ls : List PriceLevel) : Prop :=
  (¬ item.contains key ∧ ls = []) ∨
    ∃ side, item.atKey key = .ok side ∧ List.Forall₂ IsLevel side.elements ls

/-- What an item that does not throw is read as: it is left out if it has no symbol. -/
def States (x : Bool × JsonValue) : Option OrderBookSnapshot → Prop
  | none => ¬ x.2.contains (bytes "symbol")
  | some snap =>
    x.2.atKey (bytes "symbol") = .ok (.string snap.symbol) ∧ snap.isSnapshot = x.1 ∧
      ∃ bids asks, IsSide x.2 (bytes "bids") bids ∧ IsSide x.2 (bytes "asks") asks ∧
        snap.bids.Perm bids ∧ snap.asks.Perm asks

lemma isSide_of_readSide {item : JsonValue} {key : Bytes} {ls : List PriceLevel}
    (h : readSide item key = .ok ls) : IsSide item key ls := by
  obtain ⟨-, h⟩ | ⟨hkey, h⟩ := ite_eq_iff.mp h
  · simp only [bind_eq_ok, mapM_eq_ok] at h
    obtain ⟨side, hside, hls⟩ := h
    refine Or.inr ⟨side, hside, hls.imp fun entry l hread => ?_⟩
    simp only [readLevel, bind_eq_ok, orThrow_eq_ok] at hread
    obtain ⟨price, hprice, p, hp, qty, hqty, q, hq, hl⟩ := hread
    cases hl
    exact ⟨price, qty, hprice, hqty, hp, hq, rfl⟩
  · cases h
    exact Or.inl ⟨hkey, rfl⟩

lemma states_of_readItem {env : ParserEnv} {x : Bool × JsonValue} {o : Option OrderBookSnapshot}
    (h : readItem env x = .ok o) : States x o := by
  obtain ⟨_ | sym, hsym, h⟩ := bind_eq_ok.mp h
  · cases h
    exact stringMember_eq_none.mp hsym
  · simp only [bind_eq_ok] at h
    obtain ⟨bids, hbids, asks, hasks, h⟩ := h
    cases h
    exact ⟨stringMember_eq_some.mp hsym, rfl, bids, asks, isSide_of_readSide hbids,
      isSide_of_readSide hasks, env.sort.bids_perm bids, env.sort.asks_perm asks⟩

end KrakenWebSocketClient

namespace CoinbaseWebSocketClient

/-- The event is a snapshot or an update of a product. -/
def IsBook (event : JsonValue) : Prop :=
  (∃ type, event.atKey (bytes "type") = .ok (.string type) ∧ (isSnap type).isSome) ∧
    event.contains (bytes "product_id") ∧ event.contains (bytes "updates")

/-- Each update has the three members that are read. -/
def Complete (event : JsonValue) : Prop :=
  ∀ updates, event.atKey (bytes "updates") = .ok updates → ∀ upd ∈ updates.elements,
    upd.contains (bytes "side") ∧ upd.contains (bytes "price_level") ∧
      upd.contains (bytes "new_quantity")

/-- The change that an update states, if it is one of the two sides. -/
def IsChange (env : ParserEnv) (upd : JsonValue) (c : Option (Side × PriceLevel)) : Prop :=
  ∃ side price qty p q, upd.atKey (bytes "side") = .ok (.string side) ∧
    upd.atKey (bytes "price_level") = .ok (.string price) ∧ env.stod price = some p ∧
    upd.atKey (bytes "new_quantity") = .ok (.string qty) ∧ env.stod qty = some q ∧
    c = if side = bytes "bid" then some (.bid, ⟨p, q, 0⟩)
      else if side = bytes "offer" then some (.ask, ⟨p, q, 0⟩)
      else none

/-- What an event that does not throw is read as. -/
def States (env : ParserEnv) (event : JsonValue) : Option OrderBookSnapshot → Prop
  | none => ¬ IsBook event
  | some snap => ∃ type updates changes,
      event.atKey (bytes "type") = .ok (.string type) ∧ isSnap type = some snap.isSnapshot ∧
      event.atKey (bytes "product_id") = .ok (.string snap.symbol) ∧
      event.atKey (bytes "updates") = .ok updates ∧
      List.Forall₂ (IsChange env) updates.elements changes ∧
      snap.bids.Perm (onSide .bid changes.reduceOption) ∧
      snap.asks.Perm (onSide .ask changes.reduceOption)

lemma isChange_of_readUpdate {env : ParserEnv} {upd : JsonValue} {c : Option (Side × PriceLevel)}
    (hcomplete : upd.contains (bytes "side") ∧ upd.contains (bytes "price_level") ∧
      upd.contains (bytes "new_quantity"))
    (h : readUpdate env upd = .ok c) : IsChange env upd c := by
  obtain ⟨hmissing, -⟩ | ⟨-, h⟩ := ite_eq_iff.mp h
  · obtain ⟨hside, hprice, hqty⟩ := hcomplete
    exact absurd hmissing (by simp [hside, hprice, hqty])
  simp only [bind_eq_ok, orThrow_eq_ok, JsonValue.getString_eq_some] at h
  obtain ⟨_, hprice, price, rfl, p, hp, _, hqty, qty, rfl, q, hq, _, hside, side, rfl, h⟩ := h
  refine ⟨side, price, qty, p, q, hside, hprice, hp, hqty, hq, ?_⟩
  split_ifs at h ⊢ <;> exact (Except.ok.inj h).symm

lemma states_of_readEvent {env : ParserEnv} {event : JsonValue} {o : Option OrderBookSnapshot}
    (hcomplete : Complete event) (h : readEvent env event = .ok o) : States env event o := by
  obtain ⟨hmembers, h⟩ | ⟨hmembers, h⟩ := ite_eq_iff.mp h
  · cases h
    rintro ⟨⟨type, htype, -⟩, hproduct, -⟩
    exact hmembers.elim (· (JsonValue.contains_of_atKey htype)) (· hproduct)
  simp only [bind_eq_ok, orThrow_eq_ok, JsonValue.getString_eq_some] at h
  obtain ⟨_, htype, type, rfl, h⟩ := h
  cases hsnap : isSnap type with
  | none =>
    rw [hsnap] at h
    cases h
    rintro ⟨⟨type', htype', hsome⟩, -⟩
    rw [htype] at htype'
    cases htype'
    rw [hsnap] at hsome
    cases hsome
  | some snapshot =>
    rw [hsnap] at h
    obtain ⟨hupdates, h⟩ | ⟨-, h⟩ := ite_eq_iff.mp h
    · cases h
      rintro ⟨-, -, hupdates'⟩
      exact hupdates hupdates'
    simp only [bind_eq_ok, orThrow_eq_ok, JsonValue.getString_eq_some, readUpdates, mapM_eq_ok] at h
    obtain ⟨_, hproduct, productId, rfl, updates, hupdates, ls, ⟨changes, hchanges, hls⟩, h⟩ := h
    cases hls
    cases h
    refine ⟨type, updates, changes, htype, hsnap, hproduct, hupdates, ?_,
      env.sort.bids_perm _, env.sort.asks_perm _⟩
    have hboth := (List.forall₂_and_left _ _).mpr ⟨hcomplete updates hupdates, hchanges⟩
    exact hboth.imp fun _ _ hupd => isChange_of_readUpdate hupd.1 hupd.2

end CoinbaseWebSocketClient

/-! ## No undefined behaviour -/

lemma defined_stringMember (v : JsonValue) (key : Bytes) : Defined (stringMember v key) := by
  refine Defined.ite (fun h => (JsonValue.defined_atKey h).bind fun w _ => ?_) fun _ => defined_ok _
  exact (defined_orThrow _).bind fun s _ => defined_ok _

namespace BybitWebSocketClient

/-- Each level of the message that is an array has the two elements that are read. -/
def Complete (j : JsonValue) : Prop :=
  ∀ data side key, key = bytes "b" ∨ key = bytes "a" → j.atKey (bytes "data") = .ok data →
    data.atKey key = .ok side → ∀ entry ∈ side.elements, ∀ items, entry = .array items →
      2 ≤ items.length

lemma defined_readLevel (env : ParserEnv) {entry : JsonValue}
    (h : ∀ items, entry = .array items → 2 ≤ items.length) : Defined (readLevel env entry) := by
  have hlen : ∀ items, entry = .array items → 0 < items.length ∧ 1 < items.length :=
    fun items hitems => ⟨by have := h items hitems; omega, h items hitems⟩
  refine (JsonValue.defined_atIndex fun items hitems => (hlen items hitems).1).bind fun p _ => ?_
  refine (defined_orThrow _).bind fun price _ => (defined_orThrow _).bind fun _ _ => ?_
  refine (JsonValue.defined_atIndex fun items hitems => (hlen items hitems).2).bind fun q _ => ?_
  exact (defined_orThrow _).bind fun qty _ => (defined_orThrow _).bind fun _ _ => defined_ok _

lemma defined_readMessage (env : ParserEnv) {j : JsonValue} (h : Complete j) :
    Defined (readMessage env j) := by
  refine (defined_stringMember j _).bind fun op _ => Defined.ite (fun _ => defined_ok _) fun _ => ?_
  refine (defined_stringMember j _).bind fun topic _ => ?_
  cases topic with
  | none => exact defined_ok _
  | some topic =>
    refine Defined.ite (fun _ => defined_ok _) fun _ => Defined.ite (fun _ => defined_ok _) ?_
    intro hmembers
    obtain ⟨hdata, htype⟩ := not_or.mp hmembers
    refine (JsonValue.defined_atKey (not_not.mp htype)).bind fun type _ => ?_
    refine (defined_orThrow _).bind fun msgType _ => ?_
    refine (JsonValue.defined_atKey (not_not.mp hdata)).bind fun data hread => ?_
    refine Defined.ite (fun _ => defined_ok _) fun hsides => ?_
    obtain ⟨hb, ha⟩ := not_or.mp hsides
    have hlevels : ∀ key side, key = bytes "b" ∨ key = bytes "a" → data.atKey key = .ok side →
        Defined (readLevels env side) := by
      intro key side hkey hside
      refine Defined.mapM fun entry hentry => defined_readLevel env ?_
      exact h data side key hkey hread hside entry hentry
    refine (JsonValue.defined_atKey (not_not.mp hb)).bind fun b hb' => ?_
    refine (hlevels _ b (Or.inl rfl) hb').bind fun bids _ => ?_
    refine (JsonValue.defined_atKey (not_not.mp ha)).bind fun a ha' => ?_
    exact (hlevels _ a (Or.inr rfl) ha').bind fun asks _ => defined_ok _

lemma defined_parts (env : ParserEnv) (message : Bytes) : Defined (parts env message) :=
  (defined_orThrow _).bind fun _ _ => defined_ok _

end BybitWebSocketClient

namespace KrakenWebSocketClient

/-- Each level of the item that is an object has the two members that are read. -/
def Complete (item : JsonValue) : Prop :=
  ∀ side key, key = bytes "bids" ∨ key = bytes "asks" → item.atKey key = .ok side →
    ∀ entry ∈ side.elements, ∀ members, entry = .object members →
      entry.contains (bytes "price") ∧ entry.contains (bytes "qty")

lemma defined_readLevel {entry : JsonValue}
    (h : ∀ members, entry = .object members →
      entry.contains (bytes "price") ∧ entry.contains (bytes "qty")) :
    Defined (readLevel entry) := by
  refine (JsonValue.defined_atKey_of_object fun members hm => (h members hm).1).bind fun p _ => ?_
  refine (defined_orThrow _).bind fun _ _ => ?_
  refine (JsonValue.defined_atKey_of_object fun members hm => (h members hm).2).bind fun q _ => ?_
  exact (defined_orThrow _).bind fun _ _ => defined_ok _

lemma defined_readSide {item : JsonValue} (h : Complete item) {key : Bytes}
    (hkey : key = bytes "bids" ∨ key = bytes "asks") : Defined (readSide item key) := by
  refine Defined.ite (fun hc => (JsonValue.defined_atKey hc).bind fun side hside => ?_)
    fun _ => defined_ok _
  exact Defined.mapM fun entry hentry => defined_readLevel (h side key hkey hside entry hentry)

lemma defined_readItem (env : ParserEnv) {x : Bool × JsonValue} (h : Complete x.2) :
    Defined (readItem env x) := by
  refine (defined_stringMember x.2 _).bind fun sym _ => ?_
  cases sym with
  | none => exact defined_ok _
  | some sym =>
    refine (defined_readSide h (Or.inl rfl)).bind fun bids _ => ?_
    exact (defined_readSide h (Or.inr rfl)).bind fun asks _ => defined_ok _

lemma defined_parts (env : ParserEnv) (message : Bytes) : Defined (parts env message) := by
  refine (defined_orThrow _).bind fun j _ => Defined.ite (fun _ => defined_ok _) fun _ =>
    Defined.ite (fun _ => defined_ok _) fun _ => Defined.ite (fun _ => defined_ok _) fun _ =>
    Defined.ite (fun _ => defined_ok _) fun _ => Defined.ite (fun _ => defined_ok _) ?_
  intro hmembers
  obtain ⟨htype, hdata⟩ := not_or.mp hmembers
  refine (JsonValue.defined_atKey (not_not.mp htype)).bind fun type _ => ?_
  refine (defined_orThrow _).bind fun msgType _ => ?_
  cases isSnap msgType with
  | none => exact defined_ok _
  | some snapshot =>
    refine (JsonValue.defined_atKey (not_not.mp hdata)).bind fun data _ => ?_
    exact Defined.ite (fun _ => defined_ok _) fun _ => defined_ok _

end KrakenWebSocketClient

namespace CoinbaseWebSocketClient

lemma defined_readUpdate (env : ParserEnv) (upd : JsonValue) : Defined (readUpdate env upd) := by
  refine Defined.ite (fun _ => defined_ok _) fun hmembers => ?_
  obtain ⟨hside, hmembers⟩ := not_or.mp hmembers
  obtain ⟨hprice, hqty⟩ := not_or.mp hmembers
  refine (JsonValue.defined_atKey (not_not.mp hprice)).bind fun p _ => ?_
  refine (defined_orThrow _).bind fun price _ => (defined_orThrow _).bind fun _ _ => ?_
  refine (JsonValue.defined_atKey (not_not.mp hqty)).bind fun q _ => ?_
  refine (defined_orThrow _).bind fun qty _ => (defined_orThrow _).bind fun _ _ => ?_
  refine (JsonValue.defined_atKey (not_not.mp hside)).bind fun s _ => ?_
  refine (defined_orThrow _).bind fun side _ => ?_
  exact Defined.ite (fun _ => defined_ok _) fun _ => Defined.ite (fun _ => defined_ok _) fun _ =>
    defined_ok _

/-- What is missing is left out, so nothing is required of the updates. -/
lemma defined_readEvent (env : ParserEnv) (event : JsonValue) : Defined (readEvent env event) := by
  refine Defined.ite (fun _ => defined_ok _) fun hmembers => ?_
  obtain ⟨htype, hproduct⟩ := not_or.mp hmembers
  refine (JsonValue.defined_atKey (not_not.mp htype)).bind fun type _ => ?_
  refine (defined_orThrow _).bind fun eventType _ => ?_
  cases isSnap eventType with
  | none => exact defined_ok _
  | some snapshot =>
    refine Defined.ite (fun _ => defined_ok _) fun hupdates => ?_
    refine (JsonValue.defined_atKey (not_not.mp hproduct)).bind fun product _ => ?_
    refine (defined_orThrow _).bind fun productId _ => ?_
    refine (JsonValue.defined_atKey (not_not.mp hupdates)).bind fun updates _ => ?_
    refine Defined.bind ?_ fun changes _ => defined_ok _
    exact (Defined.mapM fun upd _ => defined_readUpdate env upd).bind fun _ _ => defined_ok _

lemma defined_parts (env : ParserEnv) (message : Bytes) : Defined (parts env message) := by
  refine (defined_orThrow _).bind fun j _ => (defined_stringMember j _).bind fun channel _ => ?_
  cases channel with
  | none => exact defined_ok _
  | some channel =>
    refine Defined.ite (fun _ => defined_ok _) fun _ => Defined.ite (fun _ => defined_ok _) fun _ =>
      Defined.ite (fun _ => defined_ok _) fun _ => Defined.ite (fun _ => defined_ok _) fun _ =>
      Defined.ite (fun _ => defined_ok _) fun hevents => ?_
    exact (JsonValue.defined_atKey (not_not.mp hevents)).bind fun events _ => defined_ok _

end CoinbaseWebSocketClient

/-! ## Atomicity -/

/-- In any state, a parser applies parts of the message as a whole and in order: none if the
message cannot be taken apart, all of them, or those before the first that throws. -/
def Atomic {α : Type} (venue : Venue) (env : ParserEnv) (parts : Except Stop (List α))
    (read : α → Except Stop (Option OrderBookSnapshot))
    (States : α → Option OrderBookSnapshot → Prop) (parser : Program ClientState Unit) : Prop :=
  ∀ s : ClientState,
    (parts = .error .exception ∧ exec parser s = (.error .exception, s)) ∨
    (∃ xs batches, parts = .ok xs ∧ List.Forall₂ States xs batches ∧
      exec parser s = (.ok (), s.deliverAll venue env.nowNs batches.reduceOption)) ∨
    ∃ pre x post batches, parts = .ok (pre ++ x :: post) ∧ List.Forall₂ States pre batches ∧
      read x = .error .exception ∧
      exec parser s = (.error .exception, s.deliverAll venue env.nowNs batches.reduceOption)

lemma atomic_commits {α : Type} {venue : Venue} {env : ParserEnv} {parts : Except Stop (List α)}
    {read : α → Except Stop (Option OrderBookSnapshot)}
    {States : α → Option OrderBookSnapshot → Prop} (hparts : Defined parts)
    (hread : ∀ xs, parts = .ok xs → ∀ x ∈ xs, Defined (read x))
    (hstates : ∀ xs, parts = .ok xs → ∀ x ∈ xs, ∀ o, read x = .ok o → States x o) :
    Atomic venue env parts read States
      (commits parts read (ClientState.deliver venue env.nowNs)) := by
  intro s
  obtain ⟨e, he, hexec⟩ | ⟨xs, batches, hxs, hall, hexec⟩ |
    ⟨pre, x, post, batches, e, hxs, hpre, hx, hexec⟩ :=
    exec_commits parts read (ClientState.deliver venue env.nowNs) s
  · obtain rfl : e = .exception := by
      cases e with
      | exception => rfl
      | undefined => exact absurd he hparts
    exact Or.inl ⟨he, hexec⟩
  · have hboth := (List.forall₂_and_left _ _).mpr ⟨hstates xs hxs, hall⟩
    exact Or.inr (Or.inl ⟨xs, batches, hxs, hboth.imp fun _ o h => h.1 o h.2, hexec⟩)
  · have hmem : ∀ y ∈ pre, y ∈ pre ++ x :: post := fun y hy => List.mem_append_left _ hy
    have hboth := (List.forall₂_and_left _ _).mpr
      ⟨fun y hy => hstates _ hxs y (hmem y hy), hpre⟩
    obtain rfl : e = .exception := by
      cases e with
      | exception => rfl
      | undefined =>
        exact absurd hx (hread _ hxs x (List.mem_append_right _ List.mem_cons_self))
    exact Or.inr (Or.inr ⟨pre, x, post, batches, hxs, hboth.imp fun _ o h => h.1 o h.2, hx, hexec⟩)

theorem parsers_atomic (env : ParserEnv) (message : Bytes) :
    ((∀ j, env.parse message = some j → BybitWebSocketClient.Complete j) →
      Atomic .bybit env (BybitWebSocketClient.parts env message)
        (BybitWebSocketClient.readMessage env) (BybitWebSocketClient.States env)
        (BybitWebSocketClient.parseDepthMessage env message)) ∧
    ((∀ items, KrakenWebSocketClient.parts env message = .ok items →
        ∀ x ∈ items, KrakenWebSocketClient.Complete x.2) →
      Atomic .kraken env (KrakenWebSocketClient.parts env message)
        (KrakenWebSocketClient.readItem env) KrakenWebSocketClient.States
        (KrakenWebSocketClient.parseDepthMessage env message)) ∧
    ((∀ events, CoinbaseWebSocketClient.parts env message = .ok events →
        ∀ event ∈ events, CoinbaseWebSocketClient.Complete event) →
      Atomic .coinbase env (CoinbaseWebSocketClient.parts env message)
        (CoinbaseWebSocketClient.readEvent env) (CoinbaseWebSocketClient.States env)
        (CoinbaseWebSocketClient.parseDepthMessage env message)) := by
  refine ⟨fun hcomplete => ?_, fun hcomplete => ?_, fun hcomplete => ?_⟩
  · rw [BybitWebSocketClient.parseDepthMessage_eq]
    refine atomic_commits (BybitWebSocketClient.defined_parts env message) ?_ ?_
    · intro xs hxs x hx
      obtain ⟨j, hj, hxs⟩ := bind_eq_ok.mp hxs
      cases hxs
      rw [List.mem_singleton.mp hx]
      exact BybitWebSocketClient.defined_readMessage env (hcomplete j (orThrow_eq_ok.mp hj))
    · exact fun _ _ _ _ _ h => BybitWebSocketClient.states_of_readMessage h
  · rw [KrakenWebSocketClient.parseDepthMessage_eq]
    refine atomic_commits (KrakenWebSocketClient.defined_parts env message) ?_ ?_
    · exact fun items hitems x hx =>
        KrakenWebSocketClient.defined_readItem env (hcomplete items hitems x hx)
    · exact fun _ _ _ _ _ h => KrakenWebSocketClient.states_of_readItem h
  · rw [CoinbaseWebSocketClient.parseDepthMessage_eq]
    refine atomic_commits (CoinbaseWebSocketClient.defined_parts env message) ?_ ?_
    · exact fun _ _ event _ => CoinbaseWebSocketClient.defined_readEvent env event
    · exact fun events hevents event hevent _ h =>
        CoinbaseWebSocketClient.states_of_readEvent (hcomplete events hevents event hevent) h

namespace CoinbaseWebSocketClient

/-- The batch has a level for every update of the event. -/
def ListsAll (env : ParserEnv) (event : JsonValue) (snap : OrderBookSnapshot) : Prop :=
  ∀ updates, event.atKey (bytes "updates") = .ok updates → ∀ upd ∈ updates.elements,
    ∃ l ∈ snap.bids ++ snap.asks, ∃ price,
      upd.atKey (bytes "price_level") = .ok (.string price) ∧ env.stod price = some l.price

/-- One element of `updates`. -/
def update (side price qty : Bytes) : JsonValue :=
  .object [(bytes "side", .string side), (bytes "price_level", .string price),
    (bytes "new_quantity", .string qty)]

/-- An event with a bid at 100 and an update of the side `buy` at 101. -/
def strayEvent : JsonValue :=
  .object [(bytes "type", .string (bytes "update")),
    (bytes "product_id", .string (bytes "BTC-USD")),
    (bytes "updates", .array [update (bytes "bid") (bytes "100") (bytes "1"),
      update (bytes "buy") (bytes "101") (bytes "1")])]

/-- The text of a message with this event. -/
def strayText : Bytes :=
  bytes "\x7b\"channel\":\"l2_data\",\"events\":[\x7b\"type\":\"update\"," ++
    bytes "\"product_id\":\"BTC-USD\",\"updates\":[" ++
    bytes "\x7b\"side\":\"bid\",\"price_level\":\"100\",\"new_quantity\":\"1\"\x7d," ++
    bytes "\x7b\"side\":\"buy\",\"price_level\":\"101\",\"new_quantity\":\"1\"\x7d]\x7d]\x7d"

/-- The calls of the two libraries that this message leads to. -/
def strayEnv : ParserEnv where
  parse s :=
    if s = strayText then
      some (.object [(bytes "channel", .string (bytes "l2_data")),
        (bytes "events", .array [strayEvent])])
    else none
  stod s :=
    if s = bytes "100" then some 100
    else if s = bytes "101" then some 101
    else if s = bytes "1" then some 1
    else none
  sort := FeedState.mergeSorts
  nowNs := 0

/-- The batch that is made of the event. -/
def straySnap : OrderBookSnapshot :=
  ⟨bytes "BTC-USD", bytes "Coinbase", 0, false, [⟨100, 1, 0⟩], []⟩

lemma readEvent_stray : readEvent strayEnv strayEvent = .ok (some straySnap) := by
  have hread : readEvent strayEnv strayEvent = .ok (some
      { straySnap with bids := strayEnv.sort.bids [⟨100, 1, 0⟩], asks := strayEnv.sort.asks [] }) :=
    rfl
  rw [hread]
  simp [strayEnv, FeedState.mergeSorts, straySnap]

lemma parts_stray : parts strayEnv strayText = .ok [strayEvent] := by
  have hparse : strayEnv.parse strayText = some (.object
      [(bytes "channel", .string (bytes "l2_data")), (bytes "events", .array [strayEvent])]) := by
    simp only [strayEnv, if_true]
  rw [parts, hparse]
  rfl

lemma member_updates_stray : strayEvent.atKey (bytes "updates") =
    .ok (.array [update (bytes "bid") (bytes "100") (bytes "1"),
      update (bytes "buy") (bytes "101") (bytes "1")]) := rfl

lemma complete_stray : Complete strayEvent := by
  intro updates hupdates upd hupd
  rw [member_updates_stray] at hupdates
  cases hupdates
  obtain rfl | hupd := List.mem_cons.mp hupd
  · exact ⟨rfl, rfl, rfl⟩
  · rw [List.mem_singleton.mp hupd]
    exact ⟨rfl, rfl, rfl⟩

/-- The update of the side `buy` is in no batch that is applied, and nothing is thrown. -/
theorem other_side_left_out :
    parts strayEnv strayText = .ok [strayEvent] ∧ Complete strayEvent ∧
      ¬ ((∃ e s, exec (parseDepthMessage strayEnv strayText) ⟨∅, .new false, []⟩ =
          (.error e, s)) ∨
        ∃ snap, ListsAll strayEnv strayEvent snap ∧
          exec (parseDepthMessage strayEnv strayText) ⟨∅, .new false, []⟩ =
            (.ok (), ClientState.deliver .coinbase 0 snap ⟨∅, .new false, []⟩)) := by
  have hexec : exec (parseDepthMessage strayEnv strayText) ⟨∅, .new false, []⟩ =
      (.ok (), ClientState.deliver .coinbase 0 straySnap ⟨∅, .new false, []⟩) := by
    rw [parseDepthMessage_eq, parts_stray]
    exact exec_forM_ok (List.Forall₂.cons readEvent_stray List.Forall₂.nil) _
  refine ⟨parts_stray, complete_stray, ?_⟩
  rw [hexec]
  rintro (⟨e, s, h⟩ | ⟨snap, hall, h⟩)
  · cases h
  · obtain ⟨l, hl, price, hprice, hstod⟩ := hall _ member_updates_stray
      (update (bytes "buy") (bytes "101") (bytes "1")) (List.mem_cons_of_mem _ List.mem_cons_self)
    have hnonempty : snap.isEmpty = false := by
      rw [Bool.eq_false_iff]
      intro hempty
      rw [OrderBookSnapshot.isEmpty, Bool.and_eq_true, List.isEmpty_iff, List.isEmpty_iff] at hempty
      rw [hempty.1, hempty.2] at hl
      cases hl
    have hcalls := congrArg (fun r => r.2.calls.head?) h
    simp only [ClientState.deliver_eq, ClientState.callsFor, Venue.handsOn, hnonempty] at hcalls
    obtain rfl : snap = straySnap := by
      simpa [straySnap, OrderBookSnapshot.isEmpty] using hcalls.symm
    have hprice' : (update (bytes "buy") (bytes "101") (bytes "1")).atKey (bytes "price_level") =
        .ok (.string (bytes "101")) := rfl
    rw [hprice'] at hprice
    cases hprice
    rw [List.mem_singleton.mp hl] at hstod
    have hstod' : strayEnv.stod (bytes "101") = some 101 := rfl
    rw [hstod'] at hstod
    norm_num at hstod

end CoinbaseWebSocketClient

end TickPlant
