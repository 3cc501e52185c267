/-
# Runs of keyed writes

A store holds a value at every key, and is changed one key at a time: an operation names a
key, what the store holds there afterwards depends on the operation alone, and every other key
keeps its value.  After a run of operations a key holds the value of the last operation that
names it (`Writes.get_foldl`).

So a run may be reordered freely as long as the operations on one key keep their order.  A
`Reordering` is a bijection between the positions of two lists that does this; the two lists
have the same operations on every key, in the same order (`Reordering.filter_eq`), and their
runs leave the same values (`Reordering.get_foldl`).
-/
import Mathlib

namespace TickPlant.Lib

variable {σ ι κ α : Type*} [DecidableEq κ]

/-- The last element of a list that has the key `k`. -/
def lastNaming (key : ι → κ) (k : κ) (ops : List ι) : Option ι :=
  (ops.filter fun o => key o = k).getLast?

variable {key : ι → κ} {k : κ}

lemma lastNaming_concat (ops : List ι) (o : ι) :
    lastNaming key k (ops ++ [o]) = if key o = k then some o else lastNaming key k ops := by
  rw [lastNaming, List.filter_append]
  by_cases ho : key o = k
  · rw [if_pos ho, List.filter_cons_of_pos (by simpa using ho), List.filter_nil,
      List.getLast?_concat]
  · rw [if_neg ho, List.filter_cons_of_neg (by simpa using ho), List.filter_nil,
      List.append_nil]
    rfl

lemma lastNaming_eq_some {ops : List ι} {o : ι} (h : lastNaming key k ops = some o) :
    o ∈ ops ∧ key o = k := by
  have hmem := List.mem_of_getLast? h
  exact ⟨List.mem_of_mem_filter hmem, by simpa using List.of_mem_filter hmem⟩

lemma lastNaming_eq_none {ops : List ι} : lastNaming key k ops = none ↔ ∀ o ∈ ops, key o ≠ k := by
  simp [lastNaming]

/-! ## The last operation on a key decides -/

/-- Every operation `o` writes `value o` at `key o`, and nothing else. -/
def Writes (get : σ → κ → α) (step : σ → ι → σ) (key : ι → κ) (value : ι → α) : Prop :=
  ∀ s o k, get (step s o) k = if key o = k then value o else get s k

namespace Writes

variable {get : σ → κ → α} {step : σ → ι → σ} {value : ι → α}

/-- **The last write wins.** -/
lemma get_foldl (h : Writes get step key value) (ops : List ι) (s : σ) (k : κ) :
    get (ops.foldl step s) k = ((lastNaming key k ops).map value).getD (get s k) := by
  induction ops using List.reverseRecOn with
  | nil => rfl
  | append_singleton ops o ih =>
    rw [List.foldl_append, List.foldl_cons, List.foldl_nil, h, ih, lastNaming_concat]
    by_cases ho : key o = k
    · rw [if_pos ho, if_pos ho]
      rfl
    · rw [if_neg ho, if_neg ho]

/-- A key that no operation names keeps its value. -/
lemma get_foldl_of_not_named (h : Writes get step key value) {ops : List ι} {k : κ}
    (hnot : ∀ o ∈ ops, key o ≠ k) (s : σ) : get (ops.foldl step s) k = get s k := by
  rw [h.get_foldl, lastNaming_eq_none.mpr hnot]
  rfl

/-- The value at a key that some operation names does not depend on what was there. -/
lemma get_foldl_of_named (h : Writes get step key value) {ops : List ι} {k : κ}
    (hnamed : ∃ o ∈ ops, key o = k) (s s' : σ) :
    get (ops.foldl step s) k = get (ops.foldl step s') k := by
  rw [h.get_foldl, h.get_foldl]
  cases hlast : lastNaming key k ops with
  | none =>
    obtain ⟨o, ho, hk⟩ := hnamed
    exact absurd hk (lastNaming_eq_none.mp hlast o ho)
  | some o => rfl

end Writes

/-! ## Reorderings -/

/-- A reordering of a list that keeps the order of the elements with one key. -/
structure Reordering (key : ι → κ) (l l' : List ι) where
  /-- Where an element is moved to. -/
  pos : Fin l.length ≃ Fin l'.length
  get_pos : ∀ i, l'.get (pos i) = l.get i
  keeps : ∀ i j, i < j → key (l.get i) = key (l.get j) → pos i < pos j

namespace Reordering

variable {l l' : List ι}

/-- The positions of the elements with the key `k`, in order. -/
def positions (key : ι → κ) (k : κ) (l : List ι) : List (Fin l.length) :=
  (List.finRange l.length).filter fun i => key (l.get i) = k

@[simp] lemma mem_positions {i : Fin l.length} : i ∈ positions key k l ↔ key (l.get i) = k := by
  simp [positions]

lemma positions_pairwise : (positions key k l).Pairwise (· < ·) :=
  (List.pairwise_lt_finRange _).filter _

lemma map_get_positions : (positions key k l).map l.get = l.filter fun o => key o = k := by
  conv_rhs => rw [← List.map_get_finRange l]
  rw [List.filter_map]
  rfl

/-- The positions of one key are moved to the positions of that key, in order. -/
lemma map_pos_positions (r : Reordering key l l') :
    (positions key k l).map r.pos = positions key k l' := by
  refine List.Pairwise.eq_of_mem_iff (r := (· < ·)) ?_ positions_pairwise ?_
  · rw [List.pairwise_map]
    refine positions_pairwise.imp_of_mem ?_
    intro i j hi hj hlt
    rw [mem_positions] at hi hj
    exact r.keeps i j hlt (hi.trans hj.symm)
  · intro i'
    obtain ⟨i, rfl⟩ := r.pos.surjective i'
    rw [mem_positions, r.get_pos, List.mem_map]
    constructor
    · rintro ⟨j, hj, heq⟩
      rwa [← r.pos.injective heq, ← mem_positions]
    · intro hi
      exact ⟨i, mem_positions.mpr hi, rfl⟩

/-- A reordering has the same elements with the key `k`, in the same order. -/
lemma filter_eq (r : Reordering key l l') (k : κ) :
    (l.filter fun o => key o = k) = l'.filter fun o => key o = k := by
  rw [← map_get_positions, ← map_get_positions, ← r.map_pos_positions, List.map_map]
  congr 1
  funext i
  exact (r.get_pos i).symm

/-- A reordered run leaves the same values. -/
lemma get_foldl (r : Reordering key l l') {get : σ → κ → α} {step : σ → ι → σ} {value : ι → α}
    (h : Writes get step key value) (s : σ) (k : κ) :
    get (l.foldl step s) k = get (l'.foldl step s) k := by
  rw [h.get_foldl, h.get_foldl, lastNaming, lastNaming, r.filter_eq]

end Reordering

end TickPlant.Lib
