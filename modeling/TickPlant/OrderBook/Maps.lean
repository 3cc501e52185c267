/-
# The maps behind a book

`OrderBook` of `order_book.hpp` has two maps from prices to levels, and a level has a price
field of its own.  Nothing in their type keeps the two in step: every write of the code names
the key and the level separately, `best_bid` reads the field of the front level where
`prune_crossed` reads its key.  `BookMaps` is the state of the code without any assumption about
it, with the mutators written over plain maps.

`OrderBook.maps` forgets the invariant that `Levels` carries, and commutes with every mutator
(`maps_applyOp`).  So the maps that any sequence of calls reaches from the constructor are those
of an `OrderBook` (`run_new`), and what holds of its levels holds of them (`run_represents`).
-/
import TickPlant.OrderBook.Runs

namespace TickPlant

/-- The members of a book, as the code declares them. -/
structure BookMaps where
  symbol : Bytes
  exchange : Bytes
  /-- `std::map<double, PriceLevel, std::greater<double>>`. -/
  bids : Std.ExtTreeMap ℚ PriceLevel bidCmp
  /-- `std::map<double, PriceLevel>`. -/
  asks : Std.ExtTreeMap ℚ PriceLevel askCmp
  lastUpdateMs : ℕ
  snapshotCount : ℕ
  updateCount : ℕ

namespace BookMaps

/-! ## The code -/

/-- The constructor. -/
def new (symbol exchange : Bytes) : BookMaps := ⟨symbol, exchange, ∅, ∅, 0, 0, 0⟩

/-- `touch`. -/
def touch (now : ℕ) (m : BookMaps) : BookMaps := { m with lastUpdateMs := now }

/-- `bids_[price] = level` or `asks_[price] = level`. -/
def assign (side : Side) (price : ℚ) (level : PriceLevel) (m : BookMaps) : BookMaps :=
  match side with
  | .bid => { m with bids := m.bids.insert price level }
  | .ask => { m with asks := m.asks.insert price level }

/-- `bids_.erase(price)` or `asks_.erase(price)`. -/
def erase (side : Side) (price : ℚ) (m : BookMaps) : BookMaps :=
  match side with
  | .bid => { m with bids := m.bids.erase price }
  | .ask => { m with asks := m.asks.erase price }

/-- `set_level`. -/
def setLevel (now : ℕ) (side : Side) (price quantity : ℚ) (orderCount : ℤ) (m : BookMaps) :
    BookMaps :=
  (m.assign side price ⟨price, quantity, orderCount⟩).touch now

/-- `delete_level`. -/
def deleteLevel (now : ℕ) (side : Side) (price : ℚ) (m : BookMaps) : BookMaps :=
  (m.erase side price).touch now

/-- `clear`. -/
def clear (now : ℕ) (m : BookMaps) : BookMaps := { m with bids := ∅, asks := ∅ }.touch now

/-- One turn of the loop of `apply_snapshot`. -/
def applySnapshotEntry (m : BookMaps) (e : MDEntry) : BookMaps :=
  let level : PriceLevel := ⟨e.price, e.quantity, 0⟩
  if e.entryType = 0 then m.assign .bid e.price level
  else if e.entryType = 1 then m.assign .ask e.price level
  else m

/-- `apply_snapshot`. -/
def applySnapshot (now : ℕ) (msg : FIXMessage) (m : BookMaps) : BookMaps :=
  if msg.msgType ≠ .marketDataSnapshot then m
  else
    let m := { m with bids := ∅, asks := ∅ }
    let m := if m.symbol.isEmpty && !msg.symbol.isEmpty then { m with symbol := msg.symbol } else m
    let m := (msg.entries.foldl applySnapshotEntry m).touch now
    { m with snapshotCount := m.snapshotCount + 1 }

/-- `apply_md_entry`. -/
def applyMdEntry (m : BookMaps) (e : MDEntry) : BookMaps :=
  let isBid : Bool := e.entryType = 0
  let isAsk : Bool := e.entryType = 1
  if !isBid && !isAsk then m
  else if e.updateAction = 0 ∨ e.updateAction = 1 then
    let level : PriceLevel := ⟨e.price, e.quantity, 0⟩
    if isBid then m.assign .bid e.price level else m.assign .ask e.price level
  else if e.updateAction = 2 then
    if isBid then m.erase .bid e.price else m.erase .ask e.price
  else m

/-- `apply_update`. -/
def applyUpdate (now : ℕ) (msg : FIXMessage) (m : BookMaps) : BookMaps :=
  if msg.msgType ≠ .marketDataIncremental then m
  else
    let m := (msg.entries.foldl applyMdEntry m).touch now
    { m with updateCount := m.updateCount + 1 }

/-- The loop of `prune_crossed`, on at most `n` turns: the keys of the two `begin()`s are
compared, and the entry of the first is erased. -/
def pruneLoop (asks : Std.ExtTreeMap ℚ PriceLevel askCmp) :
    ℕ → Std.ExtTreeMap ℚ PriceLevel bidCmp → Std.ExtTreeMap ℚ PriceLevel bidCmp
  | 0, bids => bids
  | n + 1, bids =>
    match bids.toList.head?, asks.toList.head? with
    | some b, some a => if b.1 ≥ a.1 then pruneLoop asks n (bids.erase b.1) else bids
    | _, _ => bids

/-- `prune_crossed`. -/
def pruneCrossed (m : BookMaps) : BookMaps :=
  { m with bids := pruneLoop m.asks m.bids.size m.bids }

/-- `get_snapshot`. -/
def getSnapshot (m : BookMaps) : OrderBookSnapshot where
  symbol := m.symbol
  exchange := m.exchange
  timestampMs := m.lastUpdateMs
  isSnapshot := true
  bids := m.bids.toList.map Prod.snd
  asks := m.asks.toList.map Prod.snd

/-- `best_bid`: the price field of the level at `begin()`. -/
def bestBid (m : BookMaps) : ℚ := (m.bids.toList.head?.map fun e => e.2.price).getD 0

/-- `best_ask`. -/
def bestAsk (m : BookMaps) : ℚ := (m.asks.toList.head?.map fun e => e.2.price).getD 0

/-- One call. -/
def applyOp (m : BookMaps) : BookOp → BookMaps
  | .applySnapshot now msg => m.applySnapshot now msg
  | .applyUpdate now msg => m.applyUpdate now msg
  | .setLevel now side price quantity orderCount => m.setLevel now side price quantity orderCount
  | .deleteLevel now side price => m.deleteLevel now side price
  | .clear now => m.clear now
  | .pruneCrossed => m.pruneCrossed

/-- A sequence of calls. -/
def run (ops : List BookOp) (m : BookMaps) : BookMaps := ops.foldl applyOp m

end BookMaps

/-! ## A book without its invariant -/

/-- The front entry of the map of a side is the front level under its price. -/
lemma Levels.head?_map {cmp : ℚ → ℚ → Ordering} [Std.TransCmp cmp] [Std.LawfulEqCmp cmp]
    (L : Levels cmp) : L.map.toList.head? = L.front?.map fun l => (l.price, l) := by
  rw [front?, toList, List.head?_map]
  cases hhead : L.map.toList.head? with
  | none => rfl
  | some e =>
    obtain ⟨p, l⟩ := e
    have hfind := Std.ExtTreeMap.mem_toList_iff_getElem?_eq_some.mp (List.mem_of_head? hhead)
    rw [← L.keyed p l hfind]
    rfl

namespace OrderBook

/-- The members of a book. -/
def maps (b : OrderBook) : BookMaps where
  symbol := b.symbol
  exchange := b.exchange
  bids := b.bids.map
  asks := b.asks.map
  lastUpdateMs := b.lastUpdateMs
  snapshotCount := b.snapshotCount
  updateCount := b.updateCount

lemma maps_putLevel (side : Side) (level : PriceLevel) (b : OrderBook) :
    (b.putLevel side level).maps = b.maps.assign side level.price level := by
  cases side <;> rfl

lemma maps_dropLevel (side : Side) (price : ℚ) (b : OrderBook) :
    (b.dropLevel side price).maps = b.maps.erase side price := by
  cases side <;> rfl

lemma maps_setLevel (now : ℕ) (side : Side) (price quantity : ℚ) (orderCount : ℤ)
    (b : OrderBook) : (b.setLevel now side price quantity orderCount).maps =
      b.maps.setLevel now side price quantity orderCount :=
  congrArg (BookMaps.touch now) (maps_putLevel side ⟨price, quantity, orderCount⟩ b)

lemma maps_deleteLevel (now : ℕ) (side : Side) (price : ℚ) (b : OrderBook) :
    (b.deleteLevel now side price).maps = b.maps.deleteLevel now side price :=
  congrArg (BookMaps.touch now) (maps_dropLevel side price b)

lemma maps_applySnapshotEntry (b : OrderBook) (e : MDEntry) :
    (b.applySnapshotEntry e).maps = b.maps.applySnapshotEntry e := by
  rw [applySnapshotEntry, entrySide, BookMaps.applySnapshotEntry]
  split_ifs
  · exact maps_putLevel ..
  · exact maps_putLevel ..
  · rfl

lemma maps_applySnapshot (now : ℕ) (msg : FIXMessage) (b : OrderBook) :
    (b.applySnapshot now msg).maps = b.maps.applySnapshot now msg := by
  have hloop : ∀ b : OrderBook, (msg.entries.foldl applySnapshotEntry b).maps =
      msg.entries.foldl BookMaps.applySnapshotEntry b.maps := fun b =>
    (List.foldl_hom maps fun b e => (maps_applySnapshotEntry b e).symm).symm
  rw [applySnapshot, BookMaps.applySnapshot]
  by_cases htype : msg.msgType = .marketDataSnapshot
  · rw [if_pos htype, if_neg (not_not.mpr htype)]
    have hend : ∀ {c : OrderBook} {m : BookMaps}, c.maps = m →
        ({ c.touch now with snapshotCount := c.snapshotCount + 1 } : OrderBook).maps =
          { m.touch now with snapshotCount := m.snapshotCount + 1 } := by
      rintro c m rfl
      rfl
    by_cases hname : (b.symbol.isEmpty && !msg.symbol.isEmpty) = true
    · dsimp only
      rw [if_pos hname, if_pos (show (b.maps.symbol.isEmpty && !msg.symbol.isEmpty) = true
        from hname)]
      exact hend (hloop _)
    · dsimp only
      rw [if_neg hname, if_neg (show ¬ (b.maps.symbol.isEmpty && !msg.symbol.isEmpty) = true
        from hname)]
      exact hend (hloop _)
  · rw [if_neg htype, if_pos (show msg.msgType ≠ .marketDataSnapshot from htype)]

lemma maps_applyMdEntry (b : OrderBook) (e : MDEntry) :
    (b.applyMdEntry e).maps = b.maps.applyMdEntry e := by
  rw [applyMdEntry, entrySide, BookMaps.applyMdEntry]
  by_cases hbid : e.entryType = 0
  · simp only [hbid, if_true, decide_true, Bool.not_true, Bool.false_and, Bool.false_eq_true,
      if_false]
    split_ifs
    · exact maps_putLevel ..
    · exact maps_dropLevel ..
    · rfl
  · by_cases hask : e.entryType = 1
    · simp only [hask, if_true, decide_true, Bool.not_true, Bool.and_false, Bool.false_eq_true,
        if_false, one_ne_zero, decide_false]
      split_ifs
      · exact maps_putLevel ..
      · exact maps_dropLevel ..
      · rfl
    · simp [hbid, hask]

lemma maps_applyUpdate (now : ℕ) (msg : FIXMessage) (b : OrderBook) :
    (b.applyUpdate now msg).maps = b.maps.applyUpdate now msg := by
  have hloop : (msg.entries.foldl applyMdEntry b).maps =
      msg.entries.foldl BookMaps.applyMdEntry b.maps :=
    (List.foldl_hom maps fun b e => (maps_applyMdEntry b e).symm).symm
  rw [applyUpdate, BookMaps.applyUpdate]
  by_cases htype : msg.msgType = .marketDataIncremental
  · rw [if_pos htype, if_neg (not_not.mpr htype)]
    exact congrArg (fun m : BookMaps =>
      { m.touch now with updateCount := m.updateCount + 1 }) hloop
  · rw [if_neg htype, if_pos (show msg.msgType ≠ .marketDataIncremental from htype)]

lemma map_pruneLoop (asks : Levels askCmp) (n : ℕ) (bids : Levels bidCmp) :
    (pruneLoop asks n bids).map = BookMaps.pruneLoop asks.map n bids.map := by
  induction n generalizing bids with
  | zero => rfl
  | succ n ih =>
    rw [pruneLoop, BookMaps.pruneLoop, Levels.head?_map, Levels.head?_map]
    cases bids.front? with
    | none => rfl
    | some b =>
      cases asks.front? with
      | none => rfl
      | some a =>
        simp only [Option.map_some]
        split_ifs
        · exact ih _
        · rfl

lemma maps_pruneCrossed (b : OrderBook) : b.pruneCrossed.maps = b.maps.pruneCrossed :=
  congrArg (fun bids => { b.maps with bids := bids }) (map_pruneLoop b.asks b.bids.size b.bids)

/-- **Simulation.**  A call does to the maps what it does to the book. -/
lemma maps_applyOp (b : OrderBook) (op : BookOp) : (b.applyOp op).maps = b.maps.applyOp op := by
  cases op with
  | applySnapshot now msg => exact maps_applySnapshot now msg b
  | applyUpdate now msg => exact maps_applyUpdate now msg b
  | setLevel now side price quantity orderCount =>
    exact maps_setLevel now side price quantity orderCount b
  | deleteLevel now side price => exact maps_deleteLevel now side price b
  | clear now => rfl
  | pruneCrossed => exact maps_pruneCrossed b

lemma maps_run (ops : List BookOp) (b : OrderBook) : (b.run ops).maps = b.maps.run ops :=
  (List.foldl_hom maps fun b op => (maps_applyOp b op).symm).symm

lemma bestBid_maps (b : OrderBook) : b.maps.bestBid = b.bestBid := by
  rw [BookMaps.bestBid, bestBid, maps, Levels.head?_map, Option.map_map]
  rfl

lemma bestAsk_maps (b : OrderBook) : b.maps.bestAsk = b.bestAsk := by
  rw [BookMaps.bestAsk, bestAsk, maps, Levels.head?_map, Option.map_map]
  rfl

end OrderBook

namespace BookMaps

/-- The maps that a sequence of calls reaches are those of a book. -/
lemma run_new (symbol exchange : Bytes) (ops : List BookOp) :
    (new symbol exchange).run ops = ((OrderBook.new symbol exchange).run ops).maps :=
  (OrderBook.maps_run ops (OrderBook.new symbol exchange)).symm

/-! ## The representation invariant -/

/-- A map of one side, its part of the snapshot and its best price represent one set of levels:
`before` is the order of the side, and the best price is an extremum of the keys. -/
structure SideRepresents (cmp : ℚ → ℚ → Ordering) [Std.TransCmp cmp] (before : ℚ → ℚ → Prop)
    (side : Std.ExtTreeMap ℚ PriceLevel cmp) (listed : List PriceLevel) (best : ℚ) : Prop where
  /-- A level is stored under its price. -/
  keyed : ∀ (p : ℚ) (l : PriceLevel), side[p]? = some l → l.price = p
  /-- The snapshot lists the levels best first, no price twice. -/
  sorted : listed.Pairwise fun l l' => before l.price l'.price
  /-- The snapshot lists the levels of the map and nothing else. -/
  live : ∀ l, l ∈ listed ↔ ∃ p : ℚ, side[p]? = some l
  /-- The best price is that of a level, and no other level comes before it. -/
  best_of_mem : ∀ p ∈ side, best ∈ side ∧ (best = p ∨ before best p)
  best_of_empty : (∀ p : ℚ, p ∉ side) → best = 0

/-- Both sides of the book represent their levels. -/
structure Represents (m : BookMaps) : Prop where
  bids : SideRepresents bidCmp (· > ·) m.bids m.getSnapshot.bids m.bestBid
  asks : SideRepresents askCmp (· < ·) m.asks m.getSnapshot.asks m.bestAsk

lemma sideRepresents_levels {cmp : ℚ → ℚ → Ordering} [Std.TransCmp cmp] [Std.LawfulEqCmp cmp]
    {before : ℚ → ℚ → Prop} (hcmp : ∀ p q, cmp p q = .lt ↔ before p q) (L : Levels cmp) :
    SideRepresents cmp before L.map L.toList ((L.front?.map PriceLevel.price).getD 0) where
  keyed := L.keyed
  sorted := L.toList_pairwise.imp fun h => (hcmp _ _).mp h
  live := by
    intro l
    constructor
    · intro h
      exact ⟨l.price, Levels.mem_toList.mp h⟩
    · rintro ⟨p, h⟩
      exact Levels.mem_toList_of_find h
  best_of_mem := by
    intro p hp
    obtain ⟨l, hl⟩ := Option.isSome_iff_exists.mp (Std.ExtTreeMap.mem_iff_isSome_getElem?.mp hp)
    cases hfront : L.front? with
    | none =>
      have hnone := Levels.isEmpty_iff.mp (Levels.front?_eq_none_iff.mp hfront) p
      exact absurd (hnone.symm.trans hl) (by simp)
    | some l₀ =>
      have hmem : (L.map[l₀.price]?).isSome := by
        rw [show L.map[l₀.price]? = some l₀ from Levels.find_of_front? hfront]
        rfl
      refine ⟨Std.ExtTreeMap.mem_iff_isSome_getElem?.mpr hmem, ?_⟩
      rw [← hcmp]
      exact Levels.front?_lt hfront hl
  best_of_empty := by
    intro h
    have hnone : L.front? = none := by
      rw [Levels.front?_eq_none_iff, Levels.isEmpty_iff]
      intro p
      exact Std.ExtTreeMap.getElem?_eq_none (h p)
    rw [hnone]
    rfl

lemma represents_maps (b : OrderBook) : b.maps.Represents where
  bids := by
    rw [OrderBook.bestBid_maps]
    exact sideRepresents_levels (fun _ _ => bidCmp_eq_lt) b.bids
  asks := by
    rw [OrderBook.bestAsk_maps]
    exact sideRepresents_levels (fun _ _ => askCmp_eq_lt) b.asks

/-- **The representation invariant.**  After every sequence of calls, every level is stored
under its price, the snapshot lists exactly the levels of the maps, bids strictly descending and
asks strictly ascending, and the best prices are the greatest bid and the least ask, or `0`; and
a message of the wrong type changes nothing at all. -/
theorem run_represents (symbol exchange : Bytes) (ops : List BookOp) :
    ((new symbol exchange).run ops).Represents ∧ ∀ (now : ℕ) (msg : FIXMessage),
      (msg.msgType ≠ .marketDataSnapshot →
        ((new symbol exchange).run ops).applySnapshot now msg = (new symbol exchange).run ops) ∧
      (msg.msgType ≠ .marketDataIncremental →
        ((new symbol exchange).run ops).applyUpdate now msg = (new symbol exchange).run ops) := by
  refine ⟨?_, ?_⟩
  · rw [run_new]
    exact represents_maps _
  · intro now msg
    exact ⟨fun h => if_pos h, fun h => if_pos h⟩

end BookMaps

end TickPlant
