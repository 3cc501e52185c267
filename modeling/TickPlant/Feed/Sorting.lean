/-
# Sorted updates

The clients of Coinbase and Kraken collect the changes of an update in one list for each side
and sort the two lists by price before they apply them and hand them on.  The order of a message
is thereby lost: changes of different prices do not interfere, but of two changes of one price
the later one has to win, and `std::sort` may put either of them last.

An update is applied as its message orders it, whatever the sort does, exactly if all its changes
of one price of one side state the same quantity (`sorted_updates_iff`).  For the other direction
a sort is built that puts a given change last among those of its price (`PriceSort.puttingLast`).
-/
import TickPlant.Feed.Clients

namespace TickPlant

open Lib

/-! ## Stable sorting -/

/-- A merge sort by a key keeps the elements of one key in their order. -/
lemma filter_mergeSort {α κ : Type*} [DecidableEq κ] {key : α → κ} {le : α → α → Bool}
    (htrans : ∀ a b c, le a b = true → le b c = true → le a c = true)
    (htotal : ∀ a b, (le a b || le b a) = true)
    (hkey : ∀ a b, key a = key b → le a b = true) (l : List α) (k : κ) :
    ((l.mergeSort le).filter fun x => key x = k) = l.filter fun x => key x = k := by
  have hpair : (l.filter fun x => key x = k).Pairwise fun a b => le a b = true := by
    refine List.pairwise_of_forall_mem_list ?_
    intro a ha b hb
    have ha' : key a = k := by simpa using List.of_mem_filter ha
    have hb' : key b = k := by simpa using List.of_mem_filter hb
    exact hkey a b (ha'.trans hb'.symm)
  have hsub := (List.sublist_mergeSort htrans htotal hpair List.filter_sublist).filter
    fun x => decide (key x = k)
  rw [List.filter_filter] at hsub
  simp only [Bool.and_self] at hsub
  refine (hsub.eq_of_length ?_).symm
  exact ((List.mergeSort_perm l le).filter _).length_eq.symm

/-- The list with its first occurrence of `x` moved to the end. -/
def moveLast {α : Type*} [DecidableEq α] (x : α) (l : List α) : List α :=
  if x ∈ l then l.erase x ++ [x] else l

lemma moveLast_perm {α : Type*} [DecidableEq α] (x : α) (l : List α) : (moveLast x l).Perm l := by
  rw [moveLast]
  split_ifs with h
  · exact (List.perm_append_singleton x (l.erase x)).trans (List.perm_cons_erase h).symm
  · exact List.Perm.refl l

namespace PriceSort

/-- A sort that puts `x` last among the levels of its price. -/
def puttingLast (x : PriceLevel) : PriceSort where
  bids l := FeedState.mergeSorts.bids (moveLast x l)
  asks l := FeedState.mergeSorts.asks (moveLast x l)
  bids_perm := fun l => (FeedState.mergeSorts.bids_perm _).trans (moveLast_perm x l)
  asks_perm := fun l => (FeedState.mergeSorts.asks_perm _).trans (moveLast_perm x l)
  bids_sorted := fun _ => FeedState.mergeSorts.bids_sorted _
  asks_sorted := fun _ => FeedState.mergeSorts.asks_sorted _

lemma filter_mergeSorts (l : List PriceLevel) (p : ℚ) :
    ((FeedState.mergeSorts.bids l).filter fun x => x.price = p) = l.filter (fun x => x.price = p) ∧
      ((FeedState.mergeSorts.asks l).filter fun x => x.price = p) =
        l.filter fun x => x.price = p := by
  constructor
  · refine filter_mergeSort ?_ ?_ ?_ l p
    · intro a b c hab hbc
      simp only [decide_eq_true_eq] at *
      exact hbc.trans hab
    · intro a b
      simpa using le_total b.price a.price
    · intro a b h
      simpa using h.ge
  · refine filter_mergeSort ?_ ?_ ?_ l p
    · intro a b c hab hbc
      simp only [decide_eq_true_eq] at *
      exact hab.trans hbc
    · intro a b
      simpa using le_total a.price b.price
    · intro a b h
      simpa using h.le

lemma lastNaming_puttingLast {x : PriceLevel} {l : List PriceLevel} (hx : x ∈ l) :
    lastNaming PriceLevel.price x.price ((puttingLast x).bids l) = some x ∧
      lastNaming PriceLevel.price x.price ((puttingLast x).asks l) = some x := by
  have hlast : lastNaming PriceLevel.price x.price (moveLast x l) = some x := by
    rw [moveLast, if_pos hx, lastNaming_concat, if_pos rfl]
  obtain ⟨hbids, hasks⟩ := filter_mergeSorts (moveLast x l) x.price
  exact ⟨(congrArg List.getLast? hbids).trans hlast, (congrArg List.getLast? hasks).trans hlast⟩

end PriceSort

/-! ## Changes in the order of the message -/

namespace OrderBook

/-- Changes applied one by one, in their order. -/
def applyInOrder (now : ℕ) (changes : List (Side × PriceLevel)) (b : OrderBook) : OrderBook :=
  changes.foldl (fun b c => b.applyDeltaLevel now c.1 c.2) b

end OrderBook

/-- The changes of one side. -/
def onSide (side : Side) (changes : List (Side × PriceLevel)) : List PriceLevel :=
  changes.filterMap fun c => if c.1 = side then some c.2 else none

/-- An update event of Coinbase, or an item of an update message of Kraken. -/
inductive ClientUpdate
  | coinbase (productId : Bytes) (updates : List CoinbaseUpdate)
  | kraken (symbol : Bytes) (bids asks : Option (List KrakenLevel))

/-- The change that an element of a Coinbase update states. -/
def coinbaseChange (upd : CoinbaseUpdate) : Option (Side × PriceLevel) :=
  match upd.side, upd.priceLevel, upd.newQuantity with
  | some s, some price, some qty =>
    if s = bytes "bid" then some (.bid, ⟨price, qty, 0⟩)
    else if s = bytes "offer" then some (.ask, ⟨price, qty, 0⟩)
    else none
  | _, _, _ => none

/-- The change that a level of a Kraken message states. -/
def krakenChange (side : Side) (lvl : KrakenLevel) : Side × PriceLevel :=
  (side, ⟨lvl.price, lvl.qty, 0⟩)

namespace ClientUpdate

/-- The message with this update only. -/
def message (nowNs : ℕ) : ClientUpdate → FeedMessage
  | coinbase productId updates =>
    .coinbase nowNs [⟨some (bytes "update"), some productId, some updates⟩]
  | kraken symbol bids asks => .kraken nowNs ⟨bytes "update", [⟨some symbol, bids, asks⟩]⟩

/-- The changes in the order of the message. -/
def changes : ClientUpdate → List (Side × PriceLevel)
  | coinbase _ updates => updates.filterMap coinbaseChange
  | kraken _ bids asks =>
    (bids.getD []).map (krakenChange .bid) ++ (asks.getD []).map (krakenChange .ask)

/-- All changes of one price of one side state the same quantity. -/
def Unambiguous (u : ClientUpdate) : Prop :=
  ∀ c ∈ u.changes, ∀ c' ∈ u.changes, c.1 = c'.1 → c.2.price = c'.2.price →
    c.2.quantity = c'.2.quantity

lemma onSide_coinbase (updates : List CoinbaseUpdate) :
    onSide .bid (updates.filterMap coinbaseChange) = coinbaseLevels (bytes "bid") updates ∧
      onSide .ask (updates.filterMap coinbaseChange) = coinbaseLevels (bytes "offer") updates := by
  have hne : bytes "offer" ≠ bytes "bid" := by decide
  rw [onSide, onSide, List.filterMap_filterMap, List.filterMap_filterMap, coinbaseLevels,
    coinbaseLevels]
  constructor
  all_goals
    congr 1
    funext upd
    obtain ⟨side, price, qty⟩ := upd
    cases side with
    | none => rfl
    | some side =>
      cases price with
      | none => rfl
      | some price =>
        cases qty with
        | none => rfl
        | some qty =>
          rw [coinbaseChange]
          by_cases hbid : side = bytes "bid"
          · simp [hbid, hne.symm]
          · by_cases hoffer : side = bytes "offer" <;> simp [hbid, hoffer, hne]

lemma onSide_kraken (bids asks : List KrakenLevel) :
    onSide .bid (bids.map (krakenChange .bid) ++ asks.map (krakenChange .ask)) =
        bids.map (fun lvl => ⟨lvl.price, lvl.qty, 0⟩) ∧
      onSide .ask (bids.map (krakenChange .bid) ++ asks.map (krakenChange .ask)) =
        asks.map fun lvl => ⟨lvl.price, lvl.qty, 0⟩ := by
  constructor <;> simp [onSide, krakenChange, Function.comp_def]

/-- What the client makes of the update: a batch of the changes, sorted. -/
lemma deliveries_message (u : ClientUpdate) (sort : PriceSort) (nowNs : ℕ) :
    ∃ d : Delivery, (u.message nowNs).deliveries sort = [d] ∧ d.nowNs = nowNs ∧
      d.snap.isSnapshot = false ∧ d.snap.bids = sort.bids (onSide .bid u.changes) ∧
      d.snap.asks = sort.asks (onSide .ask u.changes) := by
  have hupdate : isSnap (bytes "update") = some false := by decide
  cases u with
  | coinbase productId updates =>
    obtain ⟨hbids, hasks⟩ := onSide_coinbase updates
    simp only [message, FeedMessage.deliveries, coinbaseSnapshot, hupdate, Option.map_some,
      List.filterMap_cons, List.filterMap_nil, List.map_cons, List.map_nil]
    exact ⟨_, rfl, rfl, rfl, by rw [changes, hbids], by rw [changes, hasks]⟩
  | kraken symbol bids asks =>
    obtain ⟨hbids, hasks⟩ := onSide_kraken (bids.getD []) (asks.getD [])
    simp only [message, FeedMessage.deliveries, krakenSnapshots, krakenSnapshot, hupdate,
      Option.map_some, List.filterMap_cons, List.filterMap_nil, List.map_cons, List.map_nil]
    exact ⟨_, rfl, rfl, rfl, by rw [changes, hbids], by rw [changes, hasks]⟩

/-- No change of an update counts orders. -/
lemma orderCount_changes (u : ClientUpdate) : ∀ c ∈ u.changes, c.2.orderCount = 0 := by
  intro c hc
  cases u with
  | coinbase productId updates =>
    obtain ⟨upd, -, hupd⟩ := List.mem_filterMap.mp hc
    rw [coinbaseChange] at hupd
    split at hupd
    · split_ifs at hupd <;> obtain rfl := Option.some.inj hupd <;> rfl
    · cases hupd
  | kraken symbol bids asks =>
    rcases List.mem_append.mp hc with hc | hc <;> obtain ⟨lvl, -, rfl⟩ := List.mem_map.mp hc <;> rfl

end ClientUpdate

/-! ## Applying the changes -/

lemma onSide_cons (side : Side) (c : Side × PriceLevel) (cs : List (Side × PriceLevel)) :
    onSide side (c :: cs) = if c.1 = side then c.2 :: onSide side cs else onSide side cs := by
  rw [onSide, List.filterMap_cons]
  by_cases h : c.1 = side <;> simp [h, onSide]

lemma mem_onSide {side : Side} {l : PriceLevel} {cs : List (Side × PriceLevel)} :
    l ∈ onSide side cs ↔ (side, l) ∈ cs := by
  rw [onSide, List.mem_filterMap]
  constructor
  · rintro ⟨⟨side', l'⟩, hmem, h⟩
    split_ifs at h with hside
    obtain rfl := Option.some.inj h
    obtain rfl : side' = side := hside
    exact hmem
  · intro hmem
    exact ⟨(side, l), hmem, if_pos rfl⟩

namespace OrderBook

/-- Changes in their order change each side in its order, and set the clock. -/
lemma applyInOrder_eq (now : ℕ) (cs : List (Side × PriceLevel)) (b : OrderBook) :
    b.applyInOrder now cs =
      { b with
        bids := (onSide .bid cs).foldl Levels.change b.bids
        asks := (onSide .ask cs).foldl Levels.change b.asks
        lastUpdateMs := if cs = [] then b.lastUpdateMs else now } := by
  induction cs generalizing b with
  | nil => rfl
  | cons c cs ih =>
    have hfold : b.applyInOrder now (c :: cs) =
        (b.applyDeltaLevel now c.1 c.2).applyInOrder now cs := rfl
    rw [hfold, ih, onSide_cons, onSide_cons]
    obtain ⟨side, l⟩ := c
    by_cases hq : l.quantity = 0 <;> cases side <;>
      simp [applyDeltaLevel, deleteLevel, setLevel, dropLevel, putLevel, touch, Levels.change, hq]

/-- A delta is applied in its order, the bids first. -/
lemma applyDelta_eq_inOrder (now : ℕ) (snap : OrderBookSnapshot) (b : OrderBook) :
    b.applyDelta now snap =
      b.applyInOrder now (snap.bids.map (Side.bid, ·) ++ snap.asks.map (Side.ask, ·)) := by
  rw [applyDelta, applyInOrder, List.foldl_append, List.foldl_map, List.foldl_map]

end OrderBook

/-! ## Reordering one side -/

namespace Levels

variable {cmp : ℚ → ℚ → Ordering} [Std.TransCmp cmp] [Std.LawfulEqCmp cmp]

/-- If a price names a level uniquely, the order of the changes does not matter. -/
lemma changes_eq_of_perm {ls ls' : List PriceLevel} (hperm : ls'.Perm ls)
    (hsame : ∀ l ∈ ls, ∀ l' ∈ ls, l.price = l'.price → l = l') (L : Levels cmp) :
    ls'.foldl change L = ls.foldl change L := by
  ext1 p
  rw [writes_change.get_foldl, writes_change.get_foldl]
  have hlast : lastNaming PriceLevel.price p ls' = lastNaming PriceLevel.price p ls := by
    cases hy : lastNaming PriceLevel.price p ls with
    | none =>
      rw [lastNaming_eq_none] at hy ⊢
      exact fun l hl => hy l (hperm.mem_iff.mp hl)
    | some y =>
      obtain ⟨hymem, hyp⟩ := lastNaming_eq_some hy
      cases hx : lastNaming PriceLevel.price p ls' with
      | none => exact absurd hyp (lastNaming_eq_none.mp hx y (hperm.mem_iff.mpr hymem))
      | some x =>
        obtain ⟨hxmem, hxp⟩ := lastNaming_eq_some hx
        rw [hsame x (hperm.mem_iff.mp hxmem) y hymem (hxp.trans hyp.symm)]
  rw [hlast]

/-- If two orders of changes lead to the same side, their last changes of a price state the same
quantity. -/
lemma quantity_eq_of_changes_eq {ls ls' : List PriceLevel} {L : Levels cmp} {p : ℚ}
    {x y : PriceLevel} (h : ls'.foldl change L = ls.foldl change L)
    (hx : lastNaming PriceLevel.price p ls' = some x)
    (hy : lastNaming PriceLevel.price p ls = some y) : x.quantity = y.quantity := by
  have hfind := congrArg (Levels.find · p) h
  simp only [writes_change.get_foldl, hx, hy, Option.map_some, Option.getD_some] at hfind
  by_cases hxq : x.quantity = 0 <;> by_cases hyq : y.quantity = 0
  · rw [hxq, hyq]
  · simp [hxq, hyq] at hfind
  · simp [hxq, hyq] at hfind
  · rw [if_neg hxq, if_neg hyq, Option.some.injEq] at hfind
    rw [hfind]

end Levels

/-! ## What the sort does to an update -/

/-- A delivery of the update is applied in the order of the message: to the client's book, and to
any book that the list handed on is applied to without pruning. -/
def FeedState.AppliesInOrder (s : FeedState) (d : Delivery) (u : ClientUpdate) : Prop :=
  (s.deliver d).localBook d = (s.localBook d).applyInOrder (d.nowNs / 1000000) u.changes ∧
    ∀ b : OrderBook, b.applyDelta (d.nowNs / 1000000) d.snap =
      b.applyInOrder (d.nowNs / 1000000) u.changes

namespace ClientUpdate

lemma onSide_append (bids asks : List PriceLevel) :
    onSide .bid (bids.map (Side.bid, ·) ++ asks.map (Side.ask, ·)) = bids ∧
      onSide .ask (bids.map (Side.bid, ·) ++ asks.map (Side.ask, ·)) = asks := by
  constructor <;> simp [onSide]

/-- What a delivery leaves of the sides of a book. -/
lemma applyDelta_sides {u : ClientUpdate} {sort : PriceSort} {d : Delivery}
    (hbids : d.snap.bids = sort.bids (onSide .bid u.changes))
    (hasks : d.snap.asks = sort.asks (onSide .ask u.changes)) (now : ℕ) (b : OrderBook) :
    (b.applyDelta now d.snap).bids =
        (sort.bids (onSide .bid u.changes)).foldl Levels.change b.bids ∧
      (b.applyDelta now d.snap).asks =
        (sort.asks (onSide .ask u.changes)).foldl Levels.change b.asks := by
  obtain ⟨hside, hside'⟩ := onSide_append d.snap.bids d.snap.asks
  rw [OrderBook.applyDelta_eq_inOrder, OrderBook.applyInOrder_eq]
  dsimp only
  rw [hside, hside', hbids, hasks]
  exact ⟨rfl, rfl⟩

/-- An unambiguous update is applied as ordered, whatever the sort does. -/
lemma Unambiguous.applyDelta_eq {u : ClientUpdate} (h : u.Unambiguous) {sort : PriceSort}
    {d : Delivery} (hbids : d.snap.bids = sort.bids (onSide .bid u.changes))
    (hasks : d.snap.asks = sort.asks (onSide .ask u.changes)) (now : ℕ) (b : OrderBook) :
    b.applyDelta now d.snap = b.applyInOrder now u.changes := by
  have hsame : ∀ side, ∀ l ∈ onSide side u.changes, ∀ l' ∈ onSide side u.changes,
      l.price = l'.price → l = l' := by
    intro side l hl l' hl' hprice
    rw [mem_onSide] at hl hl'
    have hqty := h _ hl _ hl' rfl hprice
    have hcount := u.orderCount_changes _ hl
    have hcount' := u.orderCount_changes _ hl'
    obtain ⟨price, quantity, orderCount⟩ := l
    obtain ⟨price', quantity', orderCount'⟩ := l'
    dsimp only at *
    rw [hprice, hqty, hcount, hcount']
  have hperm := sort.bids_perm (onSide .bid u.changes)
  have hperm' := sort.asks_perm (onSide .ask u.changes)
  have hempty : d.snap.bids.map (Side.bid, ·) ++ d.snap.asks.map (Side.ask, ·) = [] ↔
      u.changes = [] := by
    rw [hbids, hasks, List.append_eq_nil_iff, List.map_eq_nil_iff, List.map_eq_nil_iff,
      ← List.length_eq_zero_iff, ← List.length_eq_zero_iff, hperm.length_eq, hperm'.length_eq,
      List.length_eq_zero_iff, List.length_eq_zero_iff]
    constructor
    · rintro ⟨hb, ha⟩
      rw [List.eq_nil_iff_forall_not_mem]
      rintro ⟨side, l⟩ hc
      cases side with
      | bid => exact absurd (mem_onSide.mpr hc) (by rw [hb]; exact List.not_mem_nil)
      | ask => exact absurd (mem_onSide.mpr hc) (by rw [ha]; exact List.not_mem_nil)
    · intro hnil
      rw [hnil]
      exact ⟨rfl, rfl⟩
  obtain ⟨hside, hside'⟩ := onSide_append d.snap.bids d.snap.asks
  rw [OrderBook.applyDelta_eq_inOrder, OrderBook.applyInOrder_eq, OrderBook.applyInOrder_eq, hside,
    hside', hbids, hasks, Levels.changes_eq_of_perm hperm (hsame .bid),
    Levels.changes_eq_of_perm hperm' (hsame .ask)]
  rw [hbids, hasks] at hempty
  simp only [hempty]

/-- In an update that is applied as ordered by every sort, each change states the quantity of the
last one of its price. -/
lemma quantity_eq_last {u : ClientUpdate} {nowNs : ℕ}
    (h : ∀ (sort : PriceSort) (s : FeedState), ∀ d ∈ (u.message nowNs).deliveries sort,
      s.AppliesInOrder d u) {side : Side} {x y : PriceLevel} (hx : x ∈ onSide side u.changes)
    (hy : lastNaming PriceLevel.price x.price (onSide side u.changes) = some y) :
    x.quantity = y.quantity := by
  obtain ⟨d, hd, -, -, hbids, hasks⟩ := u.deliveries_message (.puttingLast x) nowNs
  obtain ⟨-, happly⟩ := h (.puttingLast x) FeedState.start d (by rw [hd]; simp)
  have hbook := happly (OrderBook.new [] [])
  obtain ⟨hb, ha⟩ := applyDelta_sides hbids hasks (d.nowNs / 1000000) (OrderBook.new [] [])
  rw [hbook, OrderBook.applyInOrder_eq] at hb ha
  obtain ⟨hlast, hlast'⟩ := PriceSort.lastNaming_puttingLast hx
  cases side with
  | bid => exact Levels.quantity_eq_of_changes_eq hb.symm hlast hy
  | ask => exact Levels.quantity_eq_of_changes_eq ha.symm hlast' hy

end ClientUpdate

/-- **When sorting an update is harmless.**  An update event of Coinbase or an item of a Kraken
update is applied in the order of its message, for every outcome of the two sorts, in every state
and for every book that the engine may hold, if and only if all its changes of one price of one
side state the same quantity. -/
theorem sorted_updates_iff (u : ClientUpdate) (nowNs : ℕ) :
    (∀ (sort : PriceSort) (s : FeedState), ∀ d ∈ (u.message nowNs).deliveries sort,
      s.AppliesInOrder d u) ↔ u.Unambiguous := by
  constructor
  · rintro h ⟨side, l⟩ hc ⟨side', l'⟩ hc' hside hprice
    obtain rfl : side = side' := hside
    have hl := mem_onSide.mpr hc
    obtain ⟨y, hy⟩ : ∃ y, lastNaming PriceLevel.price l.price (onSide side u.changes) = some y := by
      by_contra hnone
      rw [not_exists, ← Option.eq_none_iff_forall_ne_some] at hnone
      exact lastNaming_eq_none.mp hnone l hl rfl
    have hprice' : l.price = l'.price := hprice
    have hlast := ClientUpdate.quantity_eq_last h hl hy
    rw [hprice'] at hy
    exact hlast.trans (ClientUpdate.quantity_eq_last h (mem_onSide.mpr hc') hy).symm
  · intro h sort s d hd
    obtain ⟨d', hd', -, hsnap, hbids, hasks⟩ := u.deliveries_message sort nowNs
    obtain rfl : d = d' := by simpa [hd'] using hd
    have happly := h.applyDelta_eq hbids hasks (d.nowNs / 1000000)
    refine ⟨?_, happly⟩
    rw [FeedState.localBook_deliver, OrderBook.applyLocal, if_neg (by rw [hsnap]; simp)]
    exact happly _

/-- An update of Coinbase that sets a bid and deletes it. -/
def setAndDelete : ClientUpdate :=
  .coinbase (bytes "BTC-USD") [⟨some (bytes "bid"), some 100, some 1⟩,
    ⟨some (bytes "bid"), some 100, some 0⟩]

/-- If the sort exchanges the two changes, the bid rests. -/
theorem set_and_delete_reordered :
    ¬ ∀ (u : ClientUpdate) (nowNs : ℕ) (sort : PriceSort) (s : FeedState),
      ∀ d ∈ (u.message nowNs).deliveries sort, s.AppliesInOrder d u := by
  intro hclaim
  have hside : onSide .bid setAndDelete.changes = [⟨100, 1, 0⟩, ⟨100, 0, 0⟩] := by decide +kernel
  have hx : ⟨100, 1, 0⟩ ∈ onSide .bid setAndDelete.changes := by rw [hside]; simp
  have hy : lastNaming PriceLevel.price 100 (onSide .bid setAndDelete.changes) =
      some ⟨100, 0, 0⟩ := by
    rw [hside]
    decide +kernel
  exact absurd (ClientUpdate.quantity_eq_last (hclaim setAndDelete 0) hx hy) (by norm_num)

end TickPlant
