/-
# Grouping a list and visiting its pairs

Two loops that often come together: the elements of a list are distributed over the buckets
of a map, and inside each bucket every two elements are visited, once in each order.  For a
list without repetition the pairs visited are the ordered pairs of distinct elements with
equal keys, each exactly once, whatever the order of the list and of the buckets
(`buckets_pairs`).
-/
import Mathlib

namespace TickPlant.Lib

variable {α β κ : Type*}

/-! ## Pairs -/

/-- The pairs met by a double loop over the positions `i < j`, each in both orders. -/
def pairs : List α → List (α × α)
  | [] => []
  | x :: xs => (xs.flatMap fun y => [(x, y), (y, x)]) ++ pairs xs

lemma pairs_map (f : α → β) (l : List α) : pairs (l.map f) = (pairs l).map (Prod.map f f) := by
  induction l with
  | nil => rfl
  | cons x xs ih =>
    rw [List.map_cons, pairs, pairs, ih, List.map_append, List.flatMap_map, List.map_flatMap]
    rfl

lemma mem_pairs {l : List α} (hl : l.Nodup) {p : α × α} :
    p ∈ pairs l ↔ p.1 ∈ l ∧ p.2 ∈ l ∧ p.1 ≠ p.2 := by
  obtain ⟨a, b⟩ := p
  induction l with
  | nil => simp [pairs]
  | cons x xs ih =>
    obtain ⟨hx, hxs⟩ := List.nodup_cons.mp hl
    have hne : ∀ {y}, y ∈ xs → x ≠ y := fun hy h => hx (h ▸ hy)
    simp only [pairs, List.mem_append, List.mem_flatMap, List.mem_cons, List.not_mem_nil, or_false,
      Prod.mk.injEq, ih hxs]
    constructor
    · rintro (⟨y, hy, ⟨rfl, rfl⟩ | ⟨rfl, rfl⟩⟩ | ⟨ha, hb, hab⟩)
      · exact ⟨Or.inl rfl, Or.inr hy, hne hy⟩
      · exact ⟨Or.inr hy, Or.inl rfl, (hne hy).symm⟩
      · exact ⟨Or.inr ha, Or.inr hb, hab⟩
    · rintro ⟨rfl | ha, rfl | hb, hab⟩
      · exact absurd rfl hab
      · exact Or.inl ⟨b, hb, Or.inl ⟨rfl, rfl⟩⟩
      · exact Or.inl ⟨a, ha, Or.inr ⟨rfl, rfl⟩⟩
      · exact Or.inr ⟨ha, hb, hab⟩

lemma nodup_pairs {l : List α} (hl : l.Nodup) : (pairs l).Nodup := by
  induction l with
  | nil => exact List.nodup_nil
  | cons x xs ih =>
    obtain ⟨hx, hxs⟩ := List.nodup_cons.mp hl
    rw [pairs, List.nodup_append]
    refine ⟨?_, ih hxs, ?_⟩
    · rw [List.nodup_flatMap]
      constructor
      · intro y hy
        have hne : x ≠ y := fun h => hx (h ▸ hy)
        simp [hne]
      · refine hxs.imp_of_mem ?_
        intro y z hy hz hyz p hp hp'
        have hxy : x ≠ y := fun h => hx (h ▸ hy)
        have hxz : x ≠ z := fun h => hx (h ▸ hz)
        simp only [List.mem_cons, List.not_mem_nil, or_false] at hp hp'
        rcases hp with rfl | rfl <;> rcases hp' with h | h <;> simp_all
    · rintro p hp q hq rfl
      rw [mem_pairs hxs] at hq
      obtain ⟨y, -, hp⟩ := List.mem_flatMap.mp hp
      simp only [List.mem_cons, List.not_mem_nil, or_false] at hp
      rcases hp with rfl | rfl
      · exact hx hq.1
      · exact hx hq.2.1

/-! ## Buckets -/

variable [DecidableEq κ]

/-- `m[k].push_back(x)`. -/
def pushBucket (m : AList fun _ : κ => List α) (k : κ) (x : α) : AList fun _ : κ => List α :=
  m.insert k ((m.lookup k).getD [] ++ [x])

/-- The buckets of the list under the key function `k`. -/
def buckets (k : α → κ) (l : List α) : AList fun _ : κ => List α :=
  l.foldl (fun m x => pushBucket m (k x) x) ∅

lemma buckets_concat (k : α → κ) (l : List α) (x : α) :
    buckets k (l ++ [x]) = pushBucket (buckets k l) (k x) x := by
  rw [buckets, List.foldl_append]
  rfl

/-- A bucket holds the elements with its key, in the order of the list. -/
lemma lookup_buckets (k : α → κ) (l : List α) (s : κ) :
    (buckets k l).lookup s =
      if s ∈ l.map k then some (l.filter fun x => decide (k x = s)) else none := by
  induction l using List.reverseRecOn with
  | nil => rfl
  | append_singleton l x ih =>
    rw [buckets_concat, pushBucket]
    by_cases hs : k x = s
    · subst hs
      have hin : k x ∈ (l ++ [x]).map k := by simp
      rw [AList.lookup_insert, ih, if_pos hin]
      split
      · simp
      · rename_i hmem
        have hnil : l.filter (fun y => decide (k y = k x)) = [] := by
          rw [List.filter_eq_nil_iff]
          intro y hy heq
          exact hmem (List.mem_map.mpr ⟨y, hy, by simpa using heq⟩)
        simp [hnil]
    · rw [AList.lookup_insert_ne (Ne.symm hs), ih]
      simp [hs, Ne.symm hs]

/-- The entries of the buckets, by key. -/
lemma entries_buckets (k : α → κ) (l : List α) :
    (buckets k l).entries =
      (buckets k l).keys.map fun s => ⟨s, l.filter fun x => decide (k x = s)⟩ := by
  rw [AList.keys, List.keys, List.map_map]
  conv_lhs => rw [← List.map_id (buckets k l).entries]
  refine List.map_congr_left ?_
  rintro ⟨s, xs⟩ hmem
  have hlook : (buckets k l).lookup s = some xs := AList.mem_lookup_iff.mpr hmem
  rw [lookup_buckets] at hlook
  split at hlook
  · rw [← Option.some.inj hlook]; rfl
  · exact absurd hlook (by simp)

lemma mem_keys_buckets {k : α → κ} {l : List α} {x : α} (hx : x ∈ l) :
    k x ∈ (buckets k l).keys := by
  have hmem : k x ∈ buckets k l := by
    rw [← AList.lookup_isSome, lookup_buckets, if_pos (List.mem_map.mpr ⟨x, hx, rfl⟩)]
    rfl
  exact AList.mem_keys.mp hmem

/-- **The pairs visited inside the buckets** are the ordered pairs of distinct elements with
equal keys. -/
lemma buckets_pairs [DecidableEq α] {k : α → κ} {l : List α} (hl : l.Nodup) {keys : List κ}
    (hkeys : keys.Nodup) (hmem : ∀ x ∈ l, k x ∈ keys) :
    ((keys.flatMap fun s => pairs (l.filter fun x => decide (k x = s)) : List (α × α)) :
        Multiset (α × α)) =
      (l.toFinset.offDiag.filter fun p => k p.1 = k p.2).val := by
  have hmem_iff : ∀ (p : α × α) (s : κ), p ∈ pairs (l.filter fun x => decide (k x = s)) ↔
      p.1 ∈ l ∧ p.2 ∈ l ∧ p.1 ≠ p.2 ∧ k p.1 = s ∧ k p.2 = s := by
    intro p s
    rw [mem_pairs (hl.filter _)]
    simp only [List.mem_filter, decide_eq_true_eq]
    tauto
  refine (Multiset.Nodup.ext ?_ (Finset.nodup _)).mpr ?_
  · rw [Multiset.coe_nodup, List.nodup_flatMap]
    refine ⟨fun s _ => nodup_pairs (hl.filter _), hkeys.imp ?_⟩
    intro s s' hne p hp hp'
    exact hne ((((hmem_iff p s).mp hp).2.2.2.1).symm.trans ((hmem_iff p s').mp hp').2.2.2.1)
  · intro p
    simp only [Multiset.mem_coe, List.mem_flatMap, hmem_iff, Finset.mem_val, Finset.mem_filter,
      Finset.mem_offDiag, List.mem_toFinset]
    constructor
    · rintro ⟨s, -, h1, h2, hne, hs, hs'⟩
      exact ⟨⟨h1, h2, hne⟩, hs.trans hs'.symm⟩
    · rintro ⟨⟨h1, h2, hne⟩, hk⟩
      exact ⟨k p.1, hmem _ h1, h1, h2, hne, rfl, hk.symm⟩

end TickPlant.Lib
