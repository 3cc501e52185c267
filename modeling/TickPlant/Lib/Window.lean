/-
# A ring that is overwritten in turn

The values of a growing list are written one after the other into `K` slots, the value at
position `i` into the slot `i % K`.  The slots then hold the last `K` values of the list, in
some order, whatever they held at the beginning.
-/
import Mathlib

namespace TickPlant.Lib

variable {α : Type*} {K : ℕ} [NeZero K]

/-- The last `K` values of `l` are in their slots. -/
def Recent (slots : Fin K → α) (l : List α) : Prop :=
  ∀ i (h : i < l.length), l.length ≤ i + K → slots (Fin.ofNat K i) = l[i]

namespace Recent

variable {slots : Fin K → α} {l : List α}

lemma nil (slots : Fin K → α) : Recent slots [] := fun _ h => absurd h (Nat.not_lt_zero _)

/-- Positions that are less than `K` apart have different slots. -/
lemma slot_ne {i j : ℕ} (hlt : i < j) (hj : j < i + K) : Fin.ofNat K i ≠ Fin.ofNat K j := by
  intro heq
  have hmod : i % K = j % K := congrArg Fin.val heq
  have hij := Nat.mod_injOn_Ico i K (by simp; omega) (by simp; omega) hmod
  omega

/-- The next value. -/
lemma push (h : Recent slots l) (x : α) :
    Recent (Function.update slots (Fin.ofNat K l.length) x) (l ++ [x]) := by
  intro i hi hrecent
  rw [List.length_append, List.length_singleton] at hi hrecent
  rcases Nat.lt_or_eq_of_le (Nat.le_of_lt_succ hi) with hlt | rfl
  · rw [Function.update_of_ne (slot_ne hlt (by omega)), List.getElem_append_left hlt]
    exact h i hlt (by omega)
  · rw [Function.update_self, List.getElem_concat_length rfl]

/-- As long as the list is not longer than the ring, the slots are in its order. -/
lemma take_eq (h : Recent slots l) (hle : l.length ≤ K) :
    (List.ofFn slots).take l.length = l := by
  refine List.ext_getElem (by simp [hle]) ?_
  intro i _ hi
  rw [List.getElem_take, List.getElem_ofFn, ← h i hi (by omega)]
  exact congrArg slots (Fin.ext (Nat.mod_eq_of_lt (by omega)).symm)

omit [NeZero K] in
lemma range'_mod_perm (a : ℕ) : ((List.range' a K).map (· % K)).Perm (List.range K) := by
  have hmod := Nat.multiset_Ico_map_mod a K
  rw [show Multiset.Ico a (a + K) = (List.range' a K : Multiset ℕ) by
    simp [Multiset.Ico, Nat.Ico_eq_range']] at hmod
  exact Multiset.coe_eq_coe.mp hmod

/-- **The slots hold the last `K` values.** -/
lemma perm (h : Recent slots l) :
    ((List.ofFn slots).take l.length).Perm (l.drop (l.length - K)) := by
  rcases Nat.le_or_le l.length K with hle | hle
  · rw [h.take_eq hle, Nat.sub_eq_zero_of_le hle, List.drop_zero]
  · have hslots : List.ofFn slots = (List.range K).map fun i => slots (Fin.ofNat K i) := by
      refine List.ext_getElem (by simp) ?_
      intro i hi _
      rw [List.length_ofFn] at hi
      simp [Fin.ofNat, Nat.mod_eq_of_lt hi]
    have hrecent : l.drop (l.length - K) =
        (List.range' (l.length - K) K).map fun i => slots (Fin.ofNat K i) := by
      refine List.ext_getElem (by simp; omega) ?_
      intro i hi _
      rw [List.length_drop] at hi
      rw [List.getElem_drop, List.getElem_map, List.getElem_range', one_mul]
      exact (h _ (by omega) (by omega)).symm
    rw [List.take_of_length_le (by simp [hle]), hslots, hrecent]
    have hperm := (range'_mod_perm (K := K) (l.length - K)).symm.map fun i => slots (Fin.ofNat K i)
    rw [List.map_map] at hperm
    refine hperm.trans (List.Perm.of_eq (List.map_congr_left fun i _ => ?_))
    exact congrArg slots (Fin.ext (Nat.mod_mod i K))

end Recent

end TickPlant.Lib
