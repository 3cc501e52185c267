/-
# One side of an order book

`OrderBook` keeps each side in a `std::map` from prices to `PriceLevel`s, the bids in
descending and the asks in ascending price order, so that `begin()` is the best level of
the side.  Every write of the code has the form `side[level.price] = level`, so the price
recorded in a level is always the key it is stored under; `Levels` carries that fact, and
a side in which it fails cannot be written down.

Prices and quantities are `double`s that the code stores, compares and, for the derived
quantities, divides; they are taken as exact rationals.
-/
import TickPlant.Lib.Writes
import TickPlant.Text

namespace TickPlant

/-- One aggregated price level on either side of a book. -/
structure PriceLevel where
  price : ℚ
  quantity : ℚ
  /-- The number of individual orders at this level, `0` if the feed does not say. -/
  orderCount : ℤ
deriving DecidableEq, Repr

/-- `std::greater<double>`, the order of the bids. -/
def bidCmp (a b : ℚ) : Ordering := compare b a

/-- `std::less<double>`, the order of the asks. -/
def askCmp (a b : ℚ) : Ordering := compare a b

instance : Std.TransCmp bidCmp := @Std.TransCmp.opposite ℚ compare _

instance : Std.LawfulEqCmp bidCmp := @Std.LawfulEqCmp.opposite ℚ compare _ _

instance : Std.TransCmp askCmp := inferInstanceAs (Std.TransCmp (compare : ℚ → ℚ → Ordering))

instance : Std.LawfulEqCmp askCmp :=
  inferInstanceAs (Std.LawfulEqCmp (compare : ℚ → ℚ → Ordering))

@[simp] lemma bidCmp_eq_lt {a b : ℚ} : bidCmp a b = .lt ↔ b < a := by
  simp [bidCmp, compare_lt_iff_lt]

@[simp] lemma askCmp_eq_lt {a b : ℚ} : askCmp a b = .lt ↔ a < b := by
  simp [askCmp, compare_lt_iff_lt]

/-- One side of a book: the levels by price, each under its own price. -/
structure Levels (cmp : ℚ → ℚ → Ordering) [Std.TransCmp cmp] where
  /-- The `std::map` of the side. -/
  map : Std.ExtTreeMap ℚ PriceLevel cmp
  /-- A level is stored under its price. -/
  keyed : ∀ (p : ℚ) (l : PriceLevel), map[p]? = some l → l.price = p

namespace Levels

variable {cmp : ℚ → ℚ → Ordering} [Std.TransCmp cmp]

/-- The level stored at a price. -/
def find (L : Levels cmp) (p : ℚ) : Option PriceLevel := L.map[p]?

/-- The levels in the order the map iterates over them, best level first. -/
def toList (L : Levels cmp) : List PriceLevel := L.map.toList.map Prod.snd

/-- `begin()`, if the side is not empty. -/
def front? (L : Levels cmp) : Option PriceLevel := L.toList.head?

/-- `size()`. -/
def size (L : Levels cmp) : ℕ := L.map.size

/-- `empty()`. -/
def isEmpty (L : Levels cmp) : Bool := L.toList.isEmpty

/-- The side with no levels. -/
def empty : Levels cmp where
  map := ∅
  keyed := by simp

variable [Std.LawfulEqCmp cmp]

/-- `side[l.price] = l`. -/
def insert (L : Levels cmp) (l : PriceLevel) : Levels cmp where
  map := L.map.insert l.price l
  keyed := by
    intro p l' h
    rw [Std.ExtTreeMap.getElem?_insert] at h
    split at h
    · rename_i hp
      rw [Std.LawfulEqCmp.compare_eq_iff_eq] at hp
      rw [← hp, ← Option.some.inj h]
    · exact L.keyed p l' h

/-- `side.erase(p)`. -/
def erase (L : Levels cmp) (p : ℚ) : Levels cmp where
  map := L.map.erase p
  keyed := by
    intro q l h
    rw [Std.ExtTreeMap.getElem?_erase] at h
    split at h
    · exact absurd h (by simp)
    · exact L.keyed q l h

/-! ## Lookup -/

omit [Std.LawfulEqCmp cmp] in
lemma price_of_find {L : Levels cmp} {p : ℚ} {l : PriceLevel} (h : L.find p = some l) :
    l.price = p := L.keyed p l h

omit [Std.LawfulEqCmp cmp] in
@[simp] lemma find_empty (p : ℚ) : (empty : Levels cmp).find p = none := by
  simp [find, empty]

lemma find_insert (L : Levels cmp) (l : PriceLevel) (p : ℚ) :
    (L.insert l).find p = if l.price = p then some l else L.find p := by
  simp [find, insert, Std.ExtTreeMap.getElem?_insert]

lemma find_erase (L : Levels cmp) (p q : ℚ) :
    (L.erase p).find q = if p = q then none else L.find q := by
  simp [find, erase, Std.ExtTreeMap.getElem?_erase]

/-- A side is a store of levels that the insertions write. -/
lemma writes_insert :
    Lib.Writes (find : Levels cmp → ℚ → Option PriceLevel) insert PriceLevel.price some :=
  fun L l p => find_insert L l p

/-- After a run of insertions a price holds the last level inserted at it. -/
lemma find_inserts (ls : List PriceLevel) (L : Levels cmp) (p : ℚ) :
    (ls.foldl insert L).find p =
      ((ls.filter fun l => l.price = p).getLast?).or (L.find p) := by
  rw [writes_insert.get_foldl, Lib.lastNaming]
  cases (ls.filter fun l => l.price = p).getLast? <;> rfl

/-- A side that is built by insertions holds the last level inserted at each price. -/
lemma find_inserts_empty (ls : List PriceLevel) (p : ℚ) :
    (ls.foldl insert (empty : Levels cmp)).find p = Lib.lastNaming PriceLevel.price p ls := by
  rw [find_inserts, find_empty, Option.or_none]
  rfl

/-- Two sides with the same levels are equal. -/
@[ext] lemma ext {L L' : Levels cmp} (h : ∀ p, L.find p = L'.find p) : L = L' := by
  cases L
  cases L'
  congr
  exact Std.ExtTreeMap.ext_getElem? (fun {k} => h k)

/-! ## Iteration -/

lemma mem_toList {L : Levels cmp} {l : PriceLevel} :
    l ∈ L.toList ↔ L.find l.price = some l := by
  rw [toList, List.mem_map]
  constructor
  · rintro ⟨⟨p, l'⟩, hmem, rfl⟩
    rw [Std.ExtTreeMap.mem_toList_iff_getElem?_eq_some] at hmem
    have hp : l'.price = p := L.keyed p l' hmem
    rw [find, hp]
    exact hmem
  · intro h
    exact ⟨(l.price, l), Std.ExtTreeMap.mem_toList_iff_getElem?_eq_some.mpr h, rfl⟩

lemma mem_toList_of_find {L : Levels cmp} {p : ℚ} {l : PriceLevel} (h : L.find p = some l) :
    l ∈ L.toList := by
  rw [mem_toList, price_of_find h]
  exact h

/-- The levels are listed in strictly increasing order of the side's comparison. -/
lemma toList_pairwise (L : Levels cmp) :
    L.toList.Pairwise fun l l' => cmp l.price l'.price = .lt := by
  rw [toList, List.pairwise_map]
  refine List.Pairwise.imp_of_mem ?_ (Std.ExtTreeMap.ordered_keys_toList (t := L.map))
  rintro ⟨p, l⟩ ⟨q, l'⟩ hl hl' hlt
  rw [Std.ExtTreeMap.mem_toList_iff_getElem?_eq_some] at hl hl'
  rw [L.keyed p l hl, L.keyed q l' hl']
  exact hlt

lemma isEmpty_iff {L : Levels cmp} : L.isEmpty = true ↔ ∀ p, L.find p = none := by
  rw [isEmpty, List.isEmpty_iff]
  constructor
  · intro h p
    by_contra hne
    obtain ⟨l, hl⟩ := Option.ne_none_iff_exists'.mp hne
    have hmem := mem_toList_of_find hl
    rw [h] at hmem
    exact absurd hmem (by simp)
  · intro h
    rw [List.eq_nil_iff_forall_not_mem]
    intro l hl
    rw [mem_toList, h] at hl
    exact absurd hl (by simp)

omit [Std.LawfulEqCmp cmp] in
lemma front?_eq_none_iff {L : Levels cmp} : L.front? = none ↔ L.isEmpty = true := by
  rw [front?, isEmpty, List.head?_eq_none_iff, List.isEmpty_iff]

/-- The front level is a level of the side. -/
lemma find_of_front? {L : Levels cmp} {l : PriceLevel} (h : L.front? = some l) :
    L.find l.price = some l :=
  mem_toList.mp (List.mem_of_head? h)

/-- The front level precedes every other level of the side. -/
lemma front?_lt {L : Levels cmp} {l l' : PriceLevel} {p : ℚ} (h : L.front? = some l)
    (h' : L.find p = some l') : l.price = p ∨ cmp l.price p = .lt := by
  have hmem := mem_toList_of_find h'
  have hp := L.toList_pairwise
  obtain ⟨rest, hrest⟩ := List.head?_eq_some_iff.mp h
  rw [hrest] at hmem hp
  rcases List.mem_cons.mp hmem with rfl | hmem
  · exact Or.inl (price_of_find h')
  · right
    rw [← price_of_find h']
    exact (List.pairwise_cons.mp hp).1 l' hmem

/-- The front level of a side that has been built by insertions is the last one of its price,
and its price is one that no other precedes. -/
lemma front?_inserts {ls : List PriceLevel} {m : PriceLevel} (hm : m ∈ ls)
    (hbest : ∀ l ∈ ls, m.price = l.price ∨ cmp m.price l.price = .lt) :
    (ls.foldl insert (empty : Levels cmp)).front? = Lib.lastNaming PriceLevel.price m.price ls := by
  obtain ⟨last, hlast⟩ : ∃ last, Lib.lastNaming PriceLevel.price m.price ls = some last := by
    by_contra hnone
    have := Lib.lastNaming_eq_none.mp (Option.eq_none_iff_forall_ne_some.mpr fun x hx =>
      hnone ⟨x, hx⟩)
    exact this m hm rfl
  have hat : (ls.foldl insert (empty : Levels cmp)).find m.price = some last := by
    rw [find_inserts_empty, hlast]
  cases hfront : (ls.foldl insert (empty : Levels cmp)).front? with
  | none =>
    have hempty := isEmpty_iff.mp (front?_eq_none_iff.mp hfront) m.price
    rw [hat] at hempty
    cases hempty
  | some f =>
    have hf := find_of_front? hfront
    rw [find_inserts_empty] at hf
    have hprice : f.price = m.price := by
      rcases hbest f (Lib.lastNaming_eq_some hf).1 with heq | hlt
      · exact heq.symm
      · rcases front?_lt hfront hat with heq | hlt'
        · exact heq
        · rw [Std.OrientedCmp.gt_of_lt hlt'] at hlt
          cases hlt
    rw [hprice] at hf
    exact hf.symm

/-! ## A side that is inserted in its order -/

/-- Levels in the order of the side, each at a price of its own. -/
def Ascending (cmp : ℚ → ℚ → Ordering) (ls : List PriceLevel) : Prop :=
  ls.Pairwise fun l l' => cmp l.price l'.price = .lt

omit [Std.LawfulEqCmp cmp] in
lemma Ascending.nodup_prices {ls : List PriceLevel} (h : Ascending cmp ls) :
    (ls.map PriceLevel.price).Nodup := by
  refine List.pairwise_map.mpr (h.imp fun {l l'} hlt heq => ?_)
  have hself : cmp l'.price l'.price = .eq := Std.ReflCmp.compare_self
  rw [heq, hself] at hlt
  cases hlt

/-- Levels that are inserted in the order of the side are listed as they came. -/
lemma toList_inserts {ls : List PriceLevel} (h : Ascending cmp ls) :
    (ls.foldl insert (empty : Levels cmp)).toList = ls := by
  have hmem : ∀ l, l ∈ (ls.foldl insert (empty : Levels cmp)).toList ↔ l ∈ ls := by
    intro l
    rw [mem_toList, find_inserts_empty]
    refine ⟨fun hl => (Lib.lastNaming_eq_some hl).1, fun hl => ?_⟩
    cases hlast : Lib.lastNaming PriceLevel.price l.price ls with
    | none => exact absurd rfl (Lib.lastNaming_eq_none.mp hlast l hl)
    | some l' =>
      obtain ⟨hl', hprice⟩ := Lib.lastNaming_eq_some hlast
      rw [List.inj_on_of_nodup_map h.nodup_prices hl' hl hprice]
  have hlisted : Ascending cmp (ls.foldl insert (empty : Levels cmp)).toList := toList_pairwise _
  have hperm := (List.perm_ext_iff_of_nodup hlisted.nodup_prices.of_map
    h.nodup_prices.of_map).mpr hmem
  refine hperm.eq_of_pairwise (fun a b _ _ hlt hgt => ?_) hlisted h
  rw [Std.OrientedCmp.gt_of_lt hlt] at hgt
  cases hgt

/-! ## Size -/

omit [Std.LawfulEqCmp cmp] in
lemma size_erase {L : Levels cmp} {p : ℚ} {l : PriceLevel} (h : L.find p = some l) :
    (L.erase p).size = L.size - 1 := by
  have hmem : p ∈ L.map := Std.ExtTreeMap.mem_iff_isSome_getElem?.mpr (by
    show (L.find p).isSome = true
    rw [h]; rfl)
  simp [size, erase, Std.ExtTreeMap.size_erase, hmem]

lemma size_pos {L : Levels cmp} {p : ℚ} {l : PriceLevel} (h : L.find p = some l) :
    0 < L.size := by
  have hmem := mem_toList_of_find h
  have hlen : L.toList.length = L.size := by simp [toList, size]
  rw [← hlen]
  exact List.length_pos_of_mem hmem

end Levels

end TickPlant
