/-
# Ranks and running sums

The element of rank `j` of a list is the one at position `j` of the sorted list.  A
property that passes from an element to all smaller ones holds of the element of rank `j`
exactly if more than `j` elements have it; this turns counts into ranks.  In particular, when
the elements are sorted into buckets by a monotone function, the running sum of the bucket
sizes first exceeds `j` at the bucket of the element of rank `j`.
-/
import Mathlib

namespace TickPlant.Lib

/-! ## The element of a rank -/

section Rank

variable {α : Type*} [LinearOrder α]

/-- The elements in ascending order. -/
def ascending (l : List α) : List α := l.mergeSort (· ≤ ·)

/-- The element of rank `j`, counted from `0`. -/
def atRank (l : List α) (j : ℕ) : Option α := (ascending l)[j]?

variable {l : List α}

lemma ascending_perm (l : List α) : (ascending l).Perm l := List.mergeSort_perm _ _

@[simp] lemma length_ascending (l : List α) : (ascending l).length = l.length :=
  (ascending_perm l).length_eq

lemma pairwise_ascending (l : List α) : (ascending l).Pairwise (· ≤ ·) :=
  List.pairwise_mergeSort' _ l

/-- The order in which the elements come does not matter. -/
lemma ascending_congr {l' : List α} (h : l.Perm l') : ascending l = ascending l' :=
  ((ascending_perm l).trans (h.trans (ascending_perm l').symm)).eq_of_pairwise
    (fun _ _ _ _ => le_antisymm) (pairwise_ascending l) (pairwise_ascending l')

@[simp] lemma atRank_singleton (x : α) : atRank [x] 0 = some x := by simp [atRank, ascending]

lemma exists_atRank {j : ℕ} (hj : j < l.length) : ∃ x, atRank l j = some x :=
  ⟨_, List.getElem?_eq_getElem (by rwa [length_ascending])⟩

lemma lt_length_of_atRank {j : ℕ} {x : α} (h : atRank l j = some x) : j < l.length := by
  rw [← length_ascending l]
  exact (List.getElem?_eq_some_iff.mp h).1

lemma mem_of_atRank {j : ℕ} {x : α} (h : atRank l j = some x) : x ∈ l :=
  (ascending_perm l).mem_iff.mp (List.mem_of_getElem? h)

/-- Elements of higher rank are not smaller. -/
lemma atRank_mono {i j : ℕ} {x y : α} (hij : i ≤ j) (hx : atRank l i = some x)
    (hy : atRank l j = some y) : x ≤ y := by
  rcases Nat.lt_or_eq_of_le hij with hlt | rfl
  · obtain ⟨hi, rfl⟩ := List.getElem?_eq_some_iff.mp hx
    obtain ⟨hj, rfl⟩ := List.getElem?_eq_some_iff.mp hy
    exact List.pairwise_iff_getElem.mp (pairwise_ascending l) i j hi hj hlt
  · rw [hx] at hy
    exact (Option.some.inj hy).le

/-- Every element has a rank. -/
lemma exists_rank {x : α} (hx : x ∈ l) : ∃ j, j < l.length ∧ atRank l j = some x := by
  obtain ⟨j, hj⟩ := List.getElem?_of_mem ((ascending_perm l).mem_iff.mpr hx)
  exact ⟨j, lt_length_of_atRank hj, hj⟩

/-- In a sorted list the elements with a property that passes down come first. -/
lemma lt_countP_iff_of_pairwise {s : List α} (hs : s.Pairwise (· ≤ ·)) {p : α → Bool}
    (hp : ∀ x y, x ≤ y → p y = true → p x = true) (j : ℕ) :
    j < s.countP p ↔ ∃ x, s[j]? = some x ∧ p x = true := by
  induction s generalizing j with
  | nil => simp
  | cons a s ih =>
    obtain ⟨ha, hs'⟩ := List.pairwise_cons.mp hs
    by_cases hpa : p a = true
    · rw [List.countP_cons_of_pos hpa]
      cases j with
      | zero => simp [hpa]
      | succ j =>
        rw [Nat.add_lt_add_iff_right, ih hs', List.getElem?_cons_succ]
    · -- no later element has the property either
      have hnone : ∀ y ∈ a :: s, ¬ p y = true := by
        intro y hy hpy
        rcases List.mem_cons.mp hy with rfl | hy
        · exact hpa hpy
        · exact hpa (hp a y (ha y hy) hpy)
      rw [List.countP_eq_zero.mpr hnone]
      constructor
      · intro h
        exact absurd h (Nat.not_lt_zero j)
      · rintro ⟨x, hx, hpx⟩
        exact absurd hpx (hnone x (List.mem_of_getElem? hx))

/-- **Counts and ranks.** -/
lemma lt_countP_iff {p : α → Bool} (hp : ∀ x y, x ≤ y → p y = true → p x = true) (j : ℕ) :
    j < l.countP p ↔ ∃ x, atRank l j = some x ∧ p x = true := by
  rw [← (ascending_perm l).countP_eq p]
  exact lt_countP_iff_of_pairwise (pairwise_ascending l) hp j

end Rank

/-! ## Running sums -/

/-- The position at which the running sum of the counts, from `acc` on, reaches the target. -/
def firstReaching (target : ℕ) : ℕ → List ℕ → Option ℕ
  | _, [] => none
  | acc, c :: cs =>
    if target ≤ acc + c then some 0 else (firstReaching target (acc + c) cs).map (· + 1)

lemma firstReaching_eq_none {target acc : ℕ} {cs : List ℕ} (h : acc + cs.sum < target) :
    firstReaching target acc cs = none := by
  induction cs generalizing acc with
  | nil => rfl
  | cons c cs ih =>
    rw [List.sum_cons] at h
    rw [firstReaching, if_neg (by omega), ih (by omega), Option.map_none]

lemma firstReaching_eq_some {target acc i : ℕ} {cs : List ℕ} (hi : i < cs.length)
    (hreach : target ≤ acc + (cs.take (i + 1)).sum)
    (hfirst : ∀ j, j < i → acc + (cs.take (j + 1)).sum < target) :
    firstReaching target acc cs = some i := by
  induction cs generalizing acc i with
  | nil => exact absurd hi (Nat.not_lt_zero i)
  | cons c cs ih =>
    rw [firstReaching]
    cases i with
    | zero =>
      rw [if_pos (by simpa using hreach)]
    | succ i =>
      have hzero : acc + c < target := by simpa using hfirst 0 (Nat.succ_pos i)
      rw [if_neg (by omega), ih (i := i) (by simpa using hi)]
      · rfl
      · rw [List.take_succ_cons, List.sum_cons] at hreach
        omega
      · intro j hj
        have hlt := hfirst (j + 1) (by omega)
        rw [List.take_succ_cons, List.sum_cons] at hlt
        omega

section Buckets

variable {α : Type*} {b : α → ℕ} {l : List α}

/-- How many elements lie in each of the first `n` buckets. -/
def bucketCounts (b : α → ℕ) (l : List α) (n : ℕ) : List ℕ :=
  (List.range n).map fun i => l.countP fun x => b x = i

@[simp] lemma length_bucketCounts (b : α → ℕ) (l : List α) (n : ℕ) :
    (bucketCounts b l n).length = n := by
  simp [bucketCounts]

/-- The buckets below `n` together. -/
lemma sum_bucketCounts (b : α → ℕ) (l : List α) (n : ℕ) :
    (bucketCounts b l n).sum = l.countP fun x => b x < n := by
  induction n with
  | zero => simp [bucketCounts]
  | succ n ih =>
    rw [bucketCounts, List.range_succ, List.map_append, List.sum_append, List.map_singleton,
      List.sum_singleton]
    rw [bucketCounts] at ih
    rw [ih]
    clear ih
    -- an element of a bucket below `n + 1` lies below `n` or in the bucket `n`
    induction l with
    | nil => rfl
    | cons x l ih =>
      simp only [List.countP_cons, decide_eq_true_eq]
      split_ifs <;> omega

lemma take_bucketCounts {n i : ℕ} (hi : i ≤ n) :
    (bucketCounts b l n).take i = bucketCounts b l i := by
  rw [bucketCounts, ← List.map_take, List.take_range, Nat.min_eq_left hi]
  rfl

/-- One more element. -/
lemma bucketCounts_concat (b : α → ℕ) (l : List α) (n : ℕ) (x : α) :
    bucketCounts b (l ++ [x]) n =
      (bucketCounts b l n).set (b x) ((bucketCounts b l n).getD (b x) 0 + 1) := by
  apply List.ext_getElem
  · simp
  · intro i hi hi'
    rw [List.length_set, length_bucketCounts] at hi'
    rw [List.getElem_set]
    simp only [bucketCounts, List.getElem_map, List.getElem_range, List.countP_append,
      List.countP_singleton, decide_eq_true_eq]
    split_ifs with hx
    · rw [hx, List.getD_eq_getElem _ _ (by simpa using hi'), List.getElem_map, List.getElem_range]
    · rw [Nat.add_zero]

/-- **The bucket of a rank.**  The running sum of the bucket sizes first exceeds `j` at the
bucket of the element of rank `j`. -/
lemma firstReaching_bucketCounts [LinearOrder α] (hb : Monotone b) {n j : ℕ} {x : α}
    (hx : atRank l j = some x) (hn : b x < n) :
    firstReaching (j + 1) 0 (bucketCounts b l n) = some (b x) := by
  have hrank : ∀ i, j < l.countP (fun y => b y < i) ↔ b x < i := by
    intro i
    rw [lt_countP_iff fun y z hyz hz => by
      simp only [decide_eq_true_eq] at hz ⊢
      exact lt_of_le_of_lt (hb hyz) hz]
    rw [hx]
    simp
  apply firstReaching_eq_some
  · rw [length_bucketCounts]
    exact hn
  · rw [take_bucketCounts hn, sum_bucketCounts, zero_add]
    exact (hrank (b x + 1)).mpr (Nat.lt_succ_self _)
  · intro i hi
    rw [take_bucketCounts (by omega), sum_bucketCounts, zero_add, Nat.lt_succ_iff, ← not_lt,
      hrank (i + 1)]
    omega

end Buckets

end TickPlant.Lib
