/-
# The aggregates of the replay

Three stores follow one feed: the order map, the level aggregates of `l2_` and a book that
applies the events of the callback.  The abstract picture has only the first of them: the
level at a stock, a side and a price is the `aggregate` of the live orders that rest there.
The events always tell what becomes of `l2_` (`Followed`).  Its levels are the aggregates
(`Aggregated`) as long as the sums of the shares at each location are doubles: the code adds
and subtracts in a `double`, and a sum that it cannot hold is rounded.

An add, a reduction and a removal differ only in which orders they take from the location
and which they put there, so one lemma, `Aggregated.of_reports`, restores the invariant for
all three: `old` rested at the location before, `new` rests there afterwards, and every
other order stays.
-/
import TickPlant.Itch.Replay
import TickPlant.Lib.Values

namespace TickPlant

open Lib

namespace ITCHReplay

/-! ## The abstract levels -/

/-- The order rests at this stock, side and price. -/
def Order.RestsAt (o : Order) (stock : Bytes) (side : Side) (price : ℚ) : Prop :=
  o.stock = stock ∧ o.bookSide = side ∧ o.price = price

instance (o : Order) (stock : Bytes) (side : Side) (price : ℚ) :
    Decidable (o.RestsAt stock side price) := inferInstanceAs (Decidable (_ ∧ _ ∧ _))

/-- The orders of a list that rest at a location. -/
def restingAt (stock : Bytes) (side : Side) (price : ℚ) (l : List Order) : List Order :=
  l.filter fun o => o.RestsAt stock side price

section

variable {l new rest : List Order} {stock : Bytes} {side : Side} {price : ℚ}
  (hperm : l.Perm (new ++ rest)) (hloc : ∀ o ∈ new, o.RestsAt stock side price)
include hperm hloc

/-- Some orders rest at one location; the others are those of `rest`. -/
lemma restingAt_here :
    (restingAt stock side price l).Perm (new ++ restingAt stock side price rest) := by
  have hfilter := hperm.filter fun o => decide (o.RestsAt stock side price)
  rwa [List.filter_append, List.filter_eq_self.mpr fun o ho => decide_eq_true (hloc o ho)]
    at hfilter

lemma restingAt_elsewhere {stock' : Bytes} {side' : Side} {price' : ℚ}
    (hne : ¬ (stock = stock' ∧ side = side' ∧ price = price')) :
    (restingAt stock' side' price' l).Perm (restingAt stock' side' price' rest) := by
  have hfilter := hperm.filter fun o => decide (o.RestsAt stock' side' price')
  have hnil : new.filter (fun o => decide (o.RestsAt stock' side' price')) = [] := by
    rw [List.filter_eq_nil_iff]
    intro o ho
    rw [decide_eq_true_eq]
    rintro ⟨h₁, h₂, h₃⟩
    obtain ⟨g₁, g₂, g₃⟩ := hloc o ho
    exact hne ⟨g₁.symm.trans h₁, g₂.symm.trans h₂, g₃.symm.trans h₃⟩
  rwa [List.filter_append, hnil, List.nil_append] at hfilter

end

/-- The live orders. -/
def live (r : ITCHReplay) : List Order := values r.orders

/-- A live order and the others at its location. -/
lemma restingAt_live {r : ITCHReplay} {refNum : ℕ} {o : Order}
    (ho : r.orders.lookup refNum = some o) :
    (restingAt o.stock o.bookSide o.price r.live).Perm
      (o :: restingAt o.stock o.bookSide o.price (values (r.orders.erase refNum))) := by
  have hperm : r.live.Perm ([o] ++ values (r.orders.erase refNum)) := values_perm_erase ho
  exact restingAt_here hperm (by simp [Order.RestsAt])

/-- The level formed by the orders at one location, if there are any. -/
def aggregate (l : List Order) : Option LevelInfo :=
  if l = [] then none else some ⟨((l.map Order.remaining).sum : ℕ), l.length⟩

lemma aggregate_perm {l l' : List Order} (h : l.Perm l') : aggregate l = aggregate l' := by
  have hnil : l = [] ↔ l' = [] := by
    rw [← List.length_eq_zero_iff, ← List.length_eq_zero_iff, h.length_eq]
  simp only [aggregate, hnil, h.length_eq, (h.map Order.remaining).sum_eq]

/-- The shares and the number of the orders at a location, which are those of its level. -/
def total (l : List Order) : LevelInfo := ⟨((l.map Order.remaining).sum : ℕ), l.length⟩

lemma total_cons (o : Order) (l : List Order) :
    total (o :: l) = ⟨(total l).qty + o.remaining, (total l).count + 1⟩ := by
  simp [total, add_comm]

lemma aggregate_getD (l : List Order) : (aggregate l).getD {} = total l := by
  by_cases hl : l = []
  · subst hl
    simp [aggregate, total]
  · simp [aggregate, total, hl]

lemma aggregate_cons (o : Order) (l : List Order) :
    aggregate (o :: l) = some ⟨(total l).qty + o.remaining, (total l).count + 1⟩ := by
  rw [aggregate, if_neg (List.cons_ne_nil o l), ← total_cons]
  rfl

/-- The test by which the code erases a level is right for orders with shares. -/
lemma aggregate_eq_ite {l : List Order} (hl : ∀ o ∈ l, 0 < o.remaining) :
    aggregate l = if (total l).count ≤ 0 ∨ (total l).qty ≤ 0 then none else some (total l) := by
  rw [aggregate]
  refine if_congr ?_ rfl rfl
  cases l with
  | nil => simp [total]
  | cons o l =>
    have ho : 0 < o.remaining := hl o (by simp)
    have hqty : 0 < (total (o :: l)).qty := by
      have hsum : 0 < ((o :: l).map Order.remaining).sum := by
        rw [List.map_cons, List.sum_cons]
        omega
      exact Nat.cast_pos.mpr hsum
    have hcount : 0 < (total (o :: l)).count := by
      show 0 < ((l.length + 1 : ℕ) : ℤ)
      omega
    simp only [List.cons_ne_nil, false_iff, not_or, not_le]
    exact ⟨hcount, hqty⟩

/-! ## Events as changes of levels -/

/-- The levels of all books, by stock, side and price. -/
abbrev LevelView := Bytes → Side → ℚ → Option LevelInfo

/-- The level that an event leaves at its location. -/
def eventLevel (ev : L2Event) : Option LevelInfo :=
  match ev.type with
  | .set => some ⟨ev.quantity, ev.orderCount⟩
  | .delete => none

/-- The levels after an event. -/
def applyEvent (v : LevelView) (ev : L2Event) : LevelView := fun stock side price =>
  if ev.stock = stock ∧ ev.side = side ∧ ev.price = price then eventLevel ev
  else v stock side price

/-- The levels that a list of events builds from nothing. -/
def replayed (evs : List L2Event) : LevelView := evs.foldl applyEvent fun _ _ _ => none

lemma replayed_concat (evs : List L2Event) (ev : L2Event) :
    replayed (evs ++ [ev]) = applyEvent (replayed evs) ev := by
  simp [replayed]

/-- What one call of `emit` does: the levels change at the location of the event only, to
what the event says. -/
structure Reports (r r' : ITCHReplay) (ev : L2Event) : Prop where
  filter_eq : r'.filter = r.filter
  emitted_eq : r'.emitted = r.emitted ++ [ev]
  level_eq : r'.level = applyEvent r.level ev

/-- The levels are read from `l2_` only. -/
lemma level_congr {r r' : ITCHReplay} (hl2 : r'.l2 = r.l2) : r'.level = r.level := by
  ext stock side price : 3
  rw [level, level, sides, sides, hl2]

/-! ## Lookups after a write -/

namespace BookSides

lemma find_put (sides : BookSides) (side d : Side) (price p : ℚ) (info : LevelInfo) :
    (sides.put side price info).find d p =
      if side = d ∧ price = p then some info else sides.find d p := by
  cases side <;> cases d <;> simp [put, find, Std.ExtTreeMap.getElem?_insert]

lemma find_drop (sides : BookSides) (side d : Side) (price p : ℚ) :
    (sides.drop side price).find d p =
      if side = d ∧ price = p then none else sides.find d p := by
  cases side <;> cases d <;> simp [drop, find, Std.ExtTreeMap.getElem?_erase]

/-- Two books with the same levels are equal. -/
lemma ext_find {sides sides' : BookSides} (h : ∀ side p, sides.find side p = sides'.find side p) :
    sides = sides' := by
  cases sides
  cases sides'
  congr
  · exact Std.ExtTreeMap.ext_getElem? fun {p} => h .bid p
  · exact Std.ExtTreeMap.ext_getElem? fun {p} => h .ask p

lemma at?_of_find {sides : BookSides} {side : Side} {price : ℚ} {info : LevelInfo}
    (h : sides.find side price = some info) : sides.at? side price = .ok info := by
  rw [at?, h]

end BookSides

lemma sides_setSides (r : ITCHReplay) (stock s : Bytes) (x : BookSides) :
    (r.setSides stock x).sides s = if s = stock then x else r.sides s := by
  unfold sides setSides
  split
  · rename_i h
    rw [h, AList.lookup_insert, Option.getD_some]
  · rename_i h
    rw [AList.lookup_insert_ne h]

/-- A write of one level of one stock. -/
lemma level_setSides_put (r : ITCHReplay) (o : Order) (info : LevelInfo) (ts : ℕ) :
    (r.setSides o.stock ((r.sides o.stock).put o.bookSide o.price info)).level =
      applyEvent r.level (o.event .set info ts) := by
  ext s d p : 3
  by_cases hs : s = o.stock
  · subst hs
    simp [level, sides_setSides, BookSides.find_put, applyEvent, Order.event, eventLevel]
  · simp [level, sides_setSides, hs, applyEvent, Order.event, Ne.symm hs]

/-- The removal of one level of one stock. -/
lemma level_setSides_drop (r : ITCHReplay) (o : Order) (ts : ℕ) :
    (r.setSides o.stock ((r.sides o.stock).drop o.bookSide o.price)).level =
      applyEvent r.level (o.event .delete {} ts) := by
  ext s d p : 3
  by_cases hs : s = o.stock
  · subst hs
    simp [level, sides_setSides, BookSides.find_drop, applyEvent, Order.event, eventLevel]
  · simp [level, sides_setSides, hs, applyEvent, Order.event, Ne.symm hs]

/-- The event reads back the level that was just written. -/
lemma publish_eq (r : ITCHReplay) (o : Order) (info : LevelInfo) (ts : ℕ) :
    r.publish o info ts =
      .ok ((r.setSides o.stock ((r.sides o.stock).put o.bookSide o.price info)).emit
        (o.event .set info ts)) := by
  have hfind : ((r.sides o.stock).put o.bookSide o.price info).find o.bookSide o.price =
      some info := by
    simp [BookSides.find_put]
  rw [publish, sides_setSides, if_pos rfl, BookSides.at?_of_find hfind]
  rfl

/-! ## What each operation does -/

section Operations

variable {r : ITCHReplay}

lemma skips_eq_false (hfilter : r.filter = []) (stock : Bytes) : r.skips stock = false := by
  simp [skips, hfilter]

lemma addOrder_spec {o : Order} (hskip : r.skips o.stock = false) (ts : ℕ) :
    ∃ r', r.addOrder o ts = .ok r' ∧ r'.orders = r.orders.insert o.refNum o ∧
      Reports r r' (o.event .set
        ⟨roundDouble (((r.level o.stock o.bookSide o.price).getD {}).qty + o.remaining),
          ((r.level o.stock o.bookSide o.price).getD {}).count + 1⟩ ts) := by
  rw [addOrder, hskip, if_neg Bool.false_ne_true]
  simp only [publish_eq]
  exact ⟨_, rfl, rfl, rfl, rfl, level_setSides_put r o _ ts⟩

/-- A partial reduction of a live order. -/
lemma reduceOrder_spec {refNum byShares : ℕ} {o : Order} (hskip : r.skips o.stock = false)
    (ts : ℕ) (ho : r.orders.lookup refNum = some o) (hby : byShares < o.remaining) :
    ∃ r', r.reduceOrder refNum byShares ts = .ok r' ∧
      r'.orders = r.orders.insert refNum { o with remaining := o.remaining - byShares } ∧
      Reports r r' (o.event .set
        ⟨roundDouble (((r.level o.stock o.bookSide o.price).getD {}).qty - byShares),
          ((r.level o.stock o.bookSide o.price).getD {}).count⟩ ts) := by
  rw [reduceOrder, ho]
  simp only [hskip, Bool.false_eq_true, if_false, if_neg (not_le.mpr hby), publish_eq]
  exact ⟨_, rfl, rfl, rfl, rfl, level_setSides_put r o _ ts⟩

/-- A reduction by all the shares that are left is a removal. -/
lemma reduceOrder_eq_removeOrder {refNum byShares : ℕ} {o : Order}
    (hskip : r.skips o.stock = false) (ts : ℕ) (ho : r.orders.lookup refNum = some o)
    (hby : o.remaining ≤ byShares) :
    r.reduceOrder refNum byShares ts = r.removeOrder refNum ts := by
  rw [reduceOrder, ho]
  simp only [hskip, Bool.false_eq_true, if_false, if_pos hby]

/-- A removal returns nothing for a live order without a level. -/
lemma removeOrder_of_level_eq_none {refNum : ℕ} {o : Order} (hskip : r.skips o.stock = false)
    (ts : ℕ) (ho : r.orders.lookup refNum = some o)
    (hnone : r.level o.stock o.bookSide o.price = none) :
    r.removeOrder refNum ts = .error .outOfRange := by
  have hat : (r.sides o.stock).at? o.bookSide o.price = .error .outOfRange := by
    rw [level] at hnone
    rw [BookSides.at?, hnone]
  rw [removeOrder, ho]
  simp only [hskip, Bool.false_eq_true, if_false, hnone, hat]
  rfl

/-- The removal of a live order from a level that is there. -/
lemma removeOrder_spec {refNum : ℕ} {o : Order} {info : LevelInfo}
    (hskip : r.skips o.stock = false) (ts : ℕ) (ho : r.orders.lookup refNum = some o)
    (hinfo : r.level o.stock o.bookSide o.price = some info) :
    ∃ r', r.removeOrder refNum ts = .ok r' ∧ r'.orders = r.orders.erase refNum ∧
      Reports r r' (if info.count - 1 ≤ 0 ∨ roundDouble (info.qty - o.remaining) ≤ 0 then
          o.event .delete {} ts
        else o.event .set ⟨roundDouble (info.qty - o.remaining), info.count - 1⟩ ts) := by
  rw [removeOrder, ho]
  simp only [hskip, Bool.false_eq_true, if_false, hinfo]
  split
  · exact ⟨_, rfl, rfl, rfl, rfl, level_setSides_drop r o ts⟩
  · rw [publish_eq]
    exact ⟨_, rfl, rfl, rfl, rfl, level_setSides_put r o _ ts⟩

end Operations

/-! ## The invariants -/

/-- Every sum of the shares that rest at one location is a double. -/
def ExactSums (r : ITCHReplay) : Prop :=
  ∀ stock side price, roundDouble ((restingAt stock side price r.live).map Order.remaining).sum =
    ((restingAt stock side price r.live).map Order.remaining).sum

/-- Every live order has shares, and the events build the levels. -/
structure Followed (r : ITCHReplay) : Prop where
  filter_eq : r.filter = []
  remaining_pos : ∀ o ∈ r.live, 0 < o.remaining
  replayed_eq : r.level = replayed r.emitted

/-- The levels are the aggregates of the live orders. -/
def Aggregated (r : ITCHReplay) : Prop :=
  ∀ stock side price, r.level stock side price = aggregate (restingAt stock side price r.live)

/-- The events tell what an operation did, if it returns; from levels that are aggregates it
does return, and if the new sums are doubles, its levels are aggregates too. -/
structure Tracks (r : ITCHReplay) (op : Except Exn ITCHReplay) : Prop where
  followed : ∀ r', op = .ok r' → Followed r'
  aggregated : Aggregated r → ∃ r', op = .ok r' ∧ (r'.ExactSums → Aggregated r')

/-- Few shares in all have exact sums. -/
lemma exactSums_of_le {r : ITCHReplay} (h : (r.live.map Order.remaining).sum ≤ 2 ^ 53) :
    r.ExactSums := by
  intro stock side price
  have hsub : (restingAt stock side price r.live).Sublist r.live := List.filter_sublist
  have hle := (hsub.map Order.remaining).sum_le_sum (by simp)
  exact roundDouble_natCast (hle.trans h)

namespace Followed

variable {r r' : ITCHReplay}

lemma empty : Followed {} where
  filter_eq := rfl
  remaining_pos := by simp [live]
  replayed_eq := by
    ext stock side price : 3
    cases side <;> simp [level, sides, BookSides.find, replayed]

/-- Counters play no part. -/
lemma congr (h : Followed r) (hfilter : r'.filter = r.filter) (horders : r'.orders = r.orders)
    (hl2 : r'.l2 = r.l2) (hemitted : r'.emitted = r.emitted) : Followed r' := by
  have hlive : r'.live = r.live := by rw [live, live, horders]
  have hlevel := level_congr hl2
  exact ⟨hfilter.trans h.filter_eq, by rw [hlive]; exact h.remaining_pos,
    by rw [hlevel, hemitted]; exact h.replayed_eq⟩

/-- One event, after which the live orders have shares. -/
lemma of_reports {ev : L2Event} (h : Followed r) (hrep : Reports r r' ev)
    (hpos : ∀ o ∈ r'.live, 0 < o.remaining) : Followed r' where
  filter_eq := hrep.filter_eq.trans h.filter_eq
  remaining_pos := hpos
  replayed_eq := by rw [hrep.level_eq, hrep.emitted_eq, replayed_concat, h.replayed_eq]

/-- The orders that a removal leaves have shares. -/
lemma erase_pos (h : Followed r) (refNum : ℕ) :
    ∀ o ∈ values (r.orders.erase refNum), 0 < o.remaining := by
  intro o ho
  obtain ⟨k, hk⟩ := mem_values.mp ho
  by_cases hne : k = refNum
  · rw [hne, AList.lookup_erase] at hk
    cases hk
  · rw [AList.lookup_erase_ne hne] at hk
    exact h.remaining_pos o (mem_values.mpr ⟨k, hk⟩)

/-- The live orders after one of them was stored. -/
lemma insert_pos (h : Followed r) {refNum : ℕ} {o : Order}
    (horders : r'.orders = r.orders.insert refNum o) (hpos : 0 < o.remaining) :
    ∀ o ∈ r'.live, 0 < o.remaining := by
  intro o' ho'
  rw [live, horders, values_insert] at ho'
  rcases List.mem_cons.mp ho' with rfl | ho'
  · exact hpos
  · exact h.erase_pos refNum o' ho'

end Followed

namespace Aggregated

variable {r r' : ITCHReplay}

lemma empty : Aggregated {} := by
  intro stock side price
  cases side <;> simp [level, sides, BookSides.find, live, restingAt, aggregate]

lemma congr (h : Aggregated r) (horders : r'.orders = r.orders) (hl2 : r'.l2 = r.l2) :
    Aggregated r' := by
  have hlive : r'.live = r.live := by rw [live, live, horders]
  rw [Aggregated, level_congr hl2, hlive]
  exact h

/-- One event restores the invariant after the orders `old` at its location were replaced
by the orders `new`. -/
lemma of_reports {ev : L2Event} (h : Aggregated r) (old new rest : List Order)
    (hrep : Reports r r' ev) (hold : r.live.Perm (old ++ rest))
    (hnew : r'.live.Perm (new ++ rest))
    (hloc : ∀ o ∈ old ++ new, o.RestsAt ev.stock ev.side ev.price)
    (hev : eventLevel ev = aggregate (new ++ restingAt ev.stock ev.side ev.price rest)) :
    Aggregated r' := by
  intro stock side price
  obtain ⟨hlocOld, hlocNew⟩ := List.forall_mem_append.mp hloc
  rw [hrep.level_eq, applyEvent]
  split
  · -- at the location of the event, all of `new` rests
    rename_i hat
    obtain ⟨rfl, rfl, rfl⟩ := hat
    rw [hev, aggregate_perm (restingAt_here hnew hlocNew)]
  · -- elsewhere neither `old` nor `new` has an order
    rename_i hat
    rw [h, aggregate_perm (restingAt_elsewhere hold hlocOld hat),
      aggregate_perm (restingAt_elsewhere hnew hlocNew hat)]

/-- The level of a live order, split into the order and the others at its location. -/
lemma level_of_lookup (h : Aggregated r) {refNum : ℕ} {o : Order}
    (ho : r.orders.lookup refNum = some o) :
    r.level o.stock o.bookSide o.price =
      aggregate (o :: restingAt o.stock o.bookSide o.price (values (r.orders.erase refNum))) := by
  rw [h, aggregate_perm (restingAt_live ho)]

end Aggregated

/-- The sum at a location of exact sums, when the orders there are known. -/
lemma ExactSums.total_qty {r : ITCHReplay} (h : r.ExactSums) {new rest : List Order}
    {stock : Bytes} {side : Side} {price : ℚ} (hnew : r.live.Perm (new ++ rest))
    (hloc : ∀ o ∈ new, o.RestsAt stock side price) :
    roundDouble (total (new ++ restingAt stock side price rest)).qty =
      (total (new ++ restingAt stock side price rest)).qty := by
  have hsum : ((restingAt stock side price r.live).map Order.remaining).sum =
      ((new ++ restingAt stock side price rest).map Order.remaining).sum :=
    ((restingAt_here hnew hloc).map Order.remaining).sum_eq
  have hexact := h stock side price
  rwa [hsum] at hexact

namespace Followed

variable {r : ITCHReplay}

lemma addOrder (h : Followed r) {o : Order} (ts : ℕ) (hpos : 0 < o.remaining)
    (hfresh : o.refNum ∉ r.orders) : Tracks r (r.addOrder o ts) := by
  obtain ⟨r', hr', horders, hrep⟩ := addOrder_spec (skips_eq_false h.filter_eq o.stock) ts
  rw [hr']
  refine ⟨?_, fun hagg => ⟨r', rfl, fun hexact => ?_⟩⟩
  · rintro _ ⟨⟩
    exact h.of_reports hrep (h.insert_pos horders hpos)
  · have hnew : r'.live.Perm ([o] ++ r.live) := by
      rw [live, horders, values_insert, erase_of_not_mem hfresh]
      exact List.Perm.refl _
    have hat : ∀ o' ∈ [o], o'.RestsAt o.stock o.bookSide o.price := by simp [Order.RestsAt]
    have hqty := hexact.total_qty hnew hat
    refine hagg.of_reports [] [o] r.live hrep (List.Perm.refl _) hnew ?_ ?_
    · simp [Order.RestsAt, Order.event]
    · rw [List.singleton_append, total_cons] at hqty
      rw [List.singleton_append, aggregate_cons, hagg, aggregate_getD]
      simp only [eventLevel, Order.event, hqty]

lemma removeOrder (h : Followed r) (refNum ts : ℕ) : Tracks r (r.removeOrder refNum ts) := by
  cases ho : r.orders.lookup refNum with
  | none =>
    have hsame : r.removeOrder refNum ts = .ok r := by rw [ITCHReplay.removeOrder, ho]
    rw [hsame]
    refine ⟨?_, fun hagg => ⟨r, rfl, fun _ => hagg⟩⟩
    rintro _ ⟨⟩
    exact h
  | some o =>
    have hskip := skips_eq_false h.filter_eq o.stock
    cases hlevel : r.level o.stock o.bookSide o.price with
    | none =>
      -- the order rests, so an aggregate would have its level
      rw [removeOrder_of_level_eq_none hskip ts ho hlevel]
      refine ⟨(by rintro _ ⟨⟩), fun hagg => ?_⟩
      rw [hagg.level_of_lookup ho, aggregate_cons] at hlevel
      cases hlevel
    | some info =>
      obtain ⟨r', hr', horders, hrep⟩ := removeOrder_spec hskip ts ho hlevel
      rw [hr']
      have hlive : r'.live = values (r.orders.erase refNum) := by rw [live, horders]
      refine ⟨?_, fun hagg => ⟨r', rfl, fun hexact => ?_⟩⟩
      · rintro _ ⟨⟩
        exact h.of_reports hrep (by rw [hlive]; exact h.erase_pos refNum)
      · set rest := restingAt o.stock o.bookSide o.price (values (r.orders.erase refNum)) with hrest
        have hnew : r'.live.Perm ([] ++ values (r.orders.erase refNum)) := by
          rw [hlive]
          exact List.Perm.refl _
        rw [hagg.level_of_lookup ho, aggregate_cons, ← hrest] at hlevel
        have hat : ∀ o' ∈ ([] : List Order), o'.RestsAt o.stock o.bookSide o.price := by simp
        -- the sum of those that remain is a `double`, so the subtraction is exact
        have hqty : roundDouble (total rest).qty = (total rest).qty := by
          simpa using hexact.total_qty hnew hat
        obtain rfl := Option.some.inj hlevel
        simp only [add_sub_cancel_right, hqty] at hrep
        have hloc : ∀ ev, ev = (if (total rest).count ≤ 0 ∨ (total rest).qty ≤ 0 then
            o.event .delete {} ts else o.event .set (total rest) ts) →
            ev.stock = o.stock ∧ ev.side = o.bookSide ∧ ev.price = o.price := by
          rintro ev rfl
          split <;> exact ⟨rfl, rfl, rfl⟩
        obtain ⟨h₁, h₂, h₃⟩ := hloc _ rfl
        have hposRest : ∀ o' ∈ rest, 0 < o'.remaining := fun o' ho' =>
          h.erase_pos refNum o' (List.mem_of_mem_filter ho')
        refine hagg.of_reports [o] [] (values (r.orders.erase refNum)) hrep
          (values_perm_erase ho) hnew ?_ ?_
        · rw [h₁, h₂, h₃]
          simp [Order.RestsAt]
        · rw [h₁, h₂, h₃, List.nil_append, ← hrest, aggregate_eq_ite hposRest]
          split <;> rfl

lemma reduceOrder (h : Followed r) (refNum byShares ts : ℕ) :
    Tracks r (r.reduceOrder refNum byShares ts) := by
  cases ho : r.orders.lookup refNum with
  | none =>
    have hsame : r.reduceOrder refNum byShares ts = .ok r := by rw [ITCHReplay.reduceOrder, ho]
    rw [hsame]
    refine ⟨?_, fun hagg => ⟨r, rfl, fun _ => hagg⟩⟩
    rintro _ ⟨⟩
    exact h
  | some o =>
    have hskip := skips_eq_false h.filter_eq o.stock
    rcases Nat.lt_or_ge byShares o.remaining with hby | hby
    · obtain ⟨r', hr', horders, hrep⟩ := reduceOrder_spec hskip ts ho hby
      rw [hr']
      set reduced : Order := { o with remaining := o.remaining - byShares } with hreduced
      refine ⟨?_, fun hagg => ⟨r', rfl, fun hexact => ?_⟩⟩
      · rintro _ ⟨⟩
        exact h.of_reports hrep (h.insert_pos horders (Nat.sub_pos_of_lt hby))
      · have hnew : r'.live.Perm ([reduced] ++ values (r.orders.erase refNum)) := by
          rw [live, horders, values_insert]
          exact List.Perm.refl _
        have hat : ∀ o' ∈ [reduced], o'.RestsAt o.stock o.bookSide o.price := by
          simp [Order.RestsAt, Order.bookSide, reduced]
        have hqty := hexact.total_qty hnew hat
        refine hagg.of_reports [o] [reduced] (values (r.orders.erase refNum)) hrep
          (values_perm_erase ho) hnew ?_ ?_
        · simp [Order.RestsAt, Order.event, Order.bookSide, reduced]
        · rw [List.singleton_append, total_cons, hreduced, Nat.cast_sub hby.le,
            ← add_sub_assoc] at hqty
          rw [hagg.level_of_lookup ho, List.singleton_append, aggregate_cons, aggregate_cons,
            Option.getD_some, hreduced, Nat.cast_sub hby.le, ← add_sub_assoc]
          simp only [eventLevel, Order.event, hqty]
    · rw [reduceOrder_eq_removeOrder hskip ts ho hby]
      exact h.removeOrder refNum ts

end Followed

end ITCHReplay

end TickPlant
