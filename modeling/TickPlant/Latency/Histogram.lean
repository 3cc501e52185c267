/-
# The histogram of latencies

`HDRHistogram` counts values in buckets of width 10, the last of which takes everything from
its lower bound on, and keeps the exact minimum and maximum.  A percentile strictly between
`0` and `100` is the midpoint of the bucket in which the running count first reaches the
target rank.  The target rank is computed in floating-point arithmetic: `getPercentile` takes the
rounding as an argument, `Rounding.double` for what the code does and `Rounding.exact` for exact
arithmetic.

After any sequence of `record` calls the counts are those of the recorded values
(`Summary`), so the bucket that is reported is that of the value of the target rank
(`getPercentile_eq`).  What follows for the order of the percentiles and for their distance
from the values is the subject of the last two sections.
-/
import TickPlant.Lib.Rank
import TickPlant.Lib.Double
import TickPlant.Queue.Mpsc

namespace TickPlant.Latency

open Lib Mpsc

/-- `HDRHistogram`; `significant_figures` is stored by the class and has no effect. -/
structure HDRHistogram where
  maxValue : ℕ
  counts : List ℕ
  totalCount : ℕ
  minValue : ℕ
  maxValueRecorded : ℕ

namespace HDRHistogram

/-- `calculate_bucket_count`. -/
def calculateBucketCount (maxValue : ℕ) : ℕ := max (min (maxValue / 10) 100000) 1000

/-- The constructor. -/
def new (maxValue : UInt64) : HDRHistogram where
  maxValue := maxValue.toNat
  counts := List.replicate (calculateBucketCount maxValue.toNat) 0
  totalCount := 0
  minValue := 2 ^ 64 - 1
  maxValueRecorded := 0

/-- `value_to_index`. -/
def valueToIndex (h : HDRHistogram) (value : ℕ) : ℕ := min (value / 10) (h.counts.length - 1)

/-- `index_to_value`, the midpoint of the bucket. -/
def indexToValue (index : ℕ) : ℕ := index * 10 + 5

/-- The body of `record`, with the value clamped. -/
def recordClamped (h : HDRHistogram) (value : ℕ) : HDRHistogram :=
  let index := h.valueToIndex value
  if index < h.counts.length then
    { h with
      counts := h.counts.set index (wrap (h.counts.getD index 0 + 1))
      totalCount := wrap (h.totalCount + 1)
      minValue := if value < h.minValue then value else h.minValue
      maxValueRecorded := if value > h.maxValueRecorded then value else h.maxValueRecorded }
  else h

/-- `record(value)`. -/
def record (h : HDRHistogram) (value : UInt64) : HDRHistogram :=
  h.recordClamped (if value.toNat > h.maxValue then h.maxValue else value.toNat)

/-- The loop of `get_percentile`, from the bucket `i` on. -/
def scan (targetCount : ℕ) : ℕ → ℕ → List ℕ → Option ℕ
  | _, _, [] => none
  | i, accumulated, c :: counts =>
    let accumulated := wrap (accumulated + c)
    if accumulated ≥ targetCount then some (indexToValue i)
    else scan targetCount (i + 1) accumulated counts

/-- `target_count`: the quotient, the count as a `double`, the product and the sum are rounded. -/
def targetCount (r : Rounding) (percentile : ℚ) (totalCount : ℕ) : ℕ :=
  ⌊r.round (r.round (r.round (percentile / 100) * r.round totalCount) + 1 / 2)⌋₊

/-- `get_percentile`. -/
def getPercentile (h : HDRHistogram) (r : Rounding) (percentile : ℚ) : ℕ :=
  if h.totalCount = 0 then 0
  else if percentile ≥ 100 then h.maxValueRecorded
  else if percentile ≤ 0 then h.minValue
  else
    (scan (targetCount r percentile h.totalCount) 0 0 h.counts).getD h.maxValueRecorded

/-- `get_min`. -/
def getMin (h : HDRHistogram) : ℕ := if h.minValue = 2 ^ 64 - 1 then 0 else h.minValue

/-- `get_max`. -/
def getMax (h : HDRHistogram) : ℕ := h.maxValueRecorded

/-! ## The recorded values -/

/-- The histogram after a sequence of `record` calls. -/
def recordAll (maxValue : UInt64) (values : List UInt64) : HDRHistogram :=
  values.foldl record (new maxValue)

/-- The values as they are recorded. -/
def clamped (maxValue : UInt64) (values : List UInt64) : List ℕ :=
  values.map fun v => min v.toNat maxValue.toNat

/-- The bucket of a value. -/
def bucket (maxValue value : ℕ) : ℕ := min (value / 10) (calculateBucketCount maxValue - 1)

lemma bucketCount_pos (maxValue : ℕ) : 1000 ≤ calculateBucketCount maxValue := le_max_right _ _

lemma bucket_lt (maxValue value : ℕ) : bucket maxValue value < calculateBucketCount maxValue := by
  have := bucketCount_pos maxValue
  rw [bucket]
  omega

lemma bucket_mono (maxValue : ℕ) : Monotone (bucket maxValue) := by
  intro v w hvw
  rw [bucket, bucket]
  omega

/-- The histogram holds the values `ws`. -/
structure Summary (h : HDRHistogram) (maxValue : ℕ) (ws : List ℕ) : Prop where
  maxValue_eq : h.maxValue = maxValue
  counts_eq : h.counts = bucketCounts (bucket maxValue) ws (calculateBucketCount maxValue)
  total_eq : h.totalCount = ws.length
  min_le : ∀ w ∈ ws, h.minValue ≤ w
  min_mem : ws ≠ [] → h.minValue ∈ ws
  le_max : ∀ w ∈ ws, w ≤ h.maxValueRecorded
  max_mem : ws ≠ [] → h.maxValueRecorded ∈ ws
  empty : ws = [] → h.minValue = 2 ^ 64 - 1 ∧ h.maxValueRecorded = 0

lemma summary_new (maxValue : UInt64) : Summary (new maxValue) maxValue.toNat [] where
  maxValue_eq := rfl
  counts_eq := by simp [new, bucketCounts]
  total_eq := rfl
  min_le := fun _ hw => absurd hw List.not_mem_nil
  min_mem := fun h => absurd rfl h
  le_max := fun _ hw => absurd hw List.not_mem_nil
  max_mem := fun h => absurd rfl h
  empty := fun _ => ⟨rfl, rfl⟩

/-- One more value. -/
lemma Summary.recordClamped {h : HDRHistogram} {maxValue : ℕ} {ws : List ℕ}
    (hs : Summary h maxValue ws) {w : ℕ} (hw : w < 2 ^ 64) (hlen : ws.length + 1 < 2 ^ 64) :
    Summary (h.recordClamped w) maxValue (ws ++ [w]) := by
  have hindex : h.valueToIndex w = bucket maxValue w := by
    rw [valueToIndex, hs.counts_eq, length_bucketCounts, bucket]
  have hlt : h.valueToIndex w < h.counts.length := by
    rw [hindex, hs.counts_eq, length_bucketCounts]
    exact bucket_lt maxValue w
  rw [HDRHistogram.recordClamped, if_pos hlt]
  refine ⟨hs.maxValue_eq, ?_, ?_, ?_, ?_, ?_, ?_, fun h => absurd h (by simp)⟩
  · have hcount : h.counts.getD (h.valueToIndex w) 0 + 1 < 2 ^ 64 := by
      have hle : h.counts.getD (h.valueToIndex w) 0 ≤ ws.length := by
        rw [List.getD_eq_getElem _ _ hlt]
        simp only [hs.counts_eq, bucketCounts, List.getElem_map, List.getElem_range]
        exact List.countP_le_length
      omega
    show h.counts.set _ (wrap _) = _
    rw [wrap, Nat.mod_eq_of_lt hcount, bucketCounts_concat, hindex, hs.counts_eq]
  · show wrap (h.totalCount + 1) = (ws ++ [w]).length
    rw [hs.total_eq, wrap, Nat.mod_eq_of_lt hlen, List.length_append, List.length_singleton]
  · intro v hv
    show (if w < h.minValue then w else h.minValue) ≤ v
    rcases List.mem_append.mp hv with hv | hv
    · have := hs.min_le v hv
      split_ifs <;> omega
    · rw [List.mem_singleton.mp hv]
      split_ifs <;> omega
  · intro _
    show (if w < h.minValue then w else h.minValue) ∈ ws ++ [w]
    split_ifs with hmin
    · simp
    · by_cases hnil : ws = []
      · -- the first value is the largest possible one
        have := (hs.empty hnil).1
        have hww : h.minValue = w := by omega
        simp [hww]
      · exact List.mem_append_left _ (hs.min_mem hnil)
  · intro v hv
    show v ≤ if w > h.maxValueRecorded then w else h.maxValueRecorded
    rcases List.mem_append.mp hv with hv | hv
    · have := hs.le_max v hv
      split_ifs <;> omega
    · rw [List.mem_singleton.mp hv]
      split_ifs <;> omega
  · intro _
    show (if w > h.maxValueRecorded then w else h.maxValueRecorded) ∈ ws ++ [w]
    split_ifs with hmax
    · simp
    · by_cases hnil : ws = []
      · have := (hs.empty hnil).2
        have hww : h.maxValueRecorded = w := by omega
        simp [hww]
      · exact List.mem_append_left _ (hs.max_mem hnil)

/-- **The histogram after any sequence of `record` calls.** -/
lemma summary_recordAll (maxValue : UInt64) (values : List UInt64)
    (hlen : values.length < 2 ^ 64) :
    Summary (recordAll maxValue values) maxValue.toNat (clamped maxValue values) := by
  induction values using List.reverseRecOn with
  | nil => exact summary_new maxValue
  | append_singleton values v ih =>
    rw [List.length_append, List.length_singleton] at hlen
    have hs := ih (by omega)
    rw [recordAll, List.foldl_concat, clamped, List.map_append, List.map_singleton]
    have hclamp : (if v.toNat > (recordAll maxValue values).maxValue then
        (recordAll maxValue values).maxValue else v.toNat) = min v.toNat maxValue.toNat := by
      rw [hs.maxValue_eq]
      split_ifs <;> omega
    show Summary ((recordAll maxValue values).record v) _ _
    rw [record, hclamp]
    refine hs.recordClamped ?_ (by rw [clamped, List.length_map]; omega)
    exact lt_of_le_of_lt (min_le_left _ _) v.toNat_lt

/-! ## The reported bucket -/

/-- The loop of `get_percentile` reports the bucket in which the running sum reaches the
target, as long as the sum stays within its type. -/
lemma scan_eq {target i acc : ℕ} {counts : List ℕ} (hsum : acc + counts.sum < 2 ^ 64) :
    scan target i acc counts =
      (firstReaching target acc counts).map fun j => indexToValue (i + j) := by
  induction counts generalizing i acc with
  | nil => rfl
  | cons c counts ih =>
    rw [List.sum_cons] at hsum
    have hwrap : wrap (acc + c) = acc + c := Nat.mod_eq_of_lt (by omega)
    rw [scan, firstReaching, hwrap]
    by_cases hreach : target ≤ acc + c
    · rw [if_pos hreach, if_pos hreach]
      rfl
    · rw [if_neg hreach, if_neg hreach, ih (by omega), Option.map_map]
      congr 1
      funext j
      simp only [Function.comp_apply]
      congr 1
      omega

/-- The target rank in exact arithmetic. -/
lemma targetCount_exact (p : ℚ) (n : ℕ) :
    targetCount .exact p n = ⌊p / 100 * n + 1 / 2⌋₊ := rfl

/-- In exact arithmetic, the target rank is at most the number of values. -/
lemma targetCount_le {p : ℚ} (hp : p < 100) (n : ℕ) : targetCount .exact p n ≤ n := by
  have hn : (0 : ℚ) ≤ n := Nat.cast_nonneg n
  have hle : p / 100 * n + 1 / 2 < (n : ℚ) + 1 := by
    have : p / 100 * n ≤ 1 * n := by
      apply mul_le_mul_of_nonneg_right _ hn
      rw [div_le_one (by norm_num)]
      exact hp.le
    linarith
  rw [targetCount_exact, ← Nat.lt_succ_iff, Nat.floor_lt' (Nat.succ_ne_zero n)]
  exact_mod_cast hle

/-- A larger percentile has no smaller target rank. -/
lemma targetCount_mono {p q : ℚ} (hpq : p ≤ q) (n : ℕ) :
    targetCount .exact p n ≤ targetCount .exact q n := by
  apply Nat.floor_mono
  have hn : (0 : ℚ) ≤ n := Nat.cast_nonneg n
  have hparts := div_le_div_of_nonneg_right hpq (by norm_num : (0 : ℚ) ≤ 100)
  have := mul_le_mul_of_nonneg_right hparts hn
  show p / 100 * n + 1 / 2 ≤ q / 100 * n + 1 / 2
  linarith

/-- The bucket of the value of rank `k`, counted from `1`; the first bucket for `0`. -/
def rankBucket (maxValue : ℕ) (ws : List ℕ) : ℕ → ℕ
  | 0 => 0
  | k + 1 => ((atRank ws k).map (bucket maxValue)).getD 0

lemma rankBucket_succ {maxValue k v : ℕ} {ws : List ℕ} (hv : atRank ws k = some v) :
    rankBucket maxValue ws (k + 1) = bucket maxValue v := by
  rw [rankBucket, hv]
  rfl

lemma rankBucket_mono {maxValue k l : ℕ} {ws : List ℕ} (hkl : k ≤ l) (hl : l ≤ ws.length) :
    rankBucket maxValue ws k ≤ rankBucket maxValue ws l := by
  cases k with
  | zero => exact Nat.zero_le _
  | succ k =>
    obtain ⟨l, rfl⟩ : ∃ l', l = l' + 1 := ⟨l - 1, by omega⟩
    obtain ⟨v, hv⟩ := exists_atRank (l := ws) (j := k) (by omega)
    obtain ⟨w, hw⟩ := exists_atRank (l := ws) (j := l) (by omega)
    rw [rankBucket_succ hv, rankBucket_succ hw]
    exact bucket_mono maxValue (atRank_mono (by omega) hv hw)

/-- The loop of `get_percentile` over the counts of the values. -/
lemma Summary.scan_eq {h : HDRHistogram} {maxValue : ℕ} {ws : List ℕ} (hs : Summary h maxValue ws)
    (hlen : ws.length < 2 ^ 64) (target : ℕ) :
    scan target 0 0 h.counts = (firstReaching target 0
      (bucketCounts (bucket maxValue) ws (calculateBucketCount maxValue))).map indexToValue := by
  have hsum : 0 + h.counts.sum < 2 ^ 64 := by
    rw [hs.counts_eq, sum_bucketCounts, zero_add]
    exact lt_of_le_of_lt List.countP_le_length hlen
  rw [HDRHistogram.scan_eq hsum, hs.counts_eq]
  simp only [Nat.zero_add]

/-- **What `get_percentile` reports strictly between `0` and `100`**, for a target rank that the
values have. -/
lemma Summary.getPercentile_eq {h : HDRHistogram} {maxValue : ℕ} {ws : List ℕ}
    (hs : Summary h maxValue ws) (hlen : ws.length < 2 ^ 64) (hne : ws ≠ []) {r : Rounding} {p : ℚ}
    (h0 : 0 < p) (h100 : p < 100) (hle : targetCount r p ws.length ≤ ws.length) :
    h.getPercentile r p = indexToValue (rankBucket maxValue ws (targetCount r p ws.length)) := by
  have hpos : 0 < ws.length := List.length_pos_iff.mpr hne
  rw [getPercentile, hs.total_eq, if_neg (by omega), if_neg (not_le.mpr h100),
    if_neg (not_le.mpr h0), hs.scan_eq hlen]
  have hN := bucketCount_pos maxValue
  cases hk : targetCount r p ws.length with
  | zero =>
    -- the first bucket reaches the rank `0` whatever it holds
    rw [firstReaching_eq_some (i := 0) (by rw [length_bucketCounts]; omega) (Nat.zero_le _)
      fun j hj => absurd hj (Nat.not_lt_zero j)]
    rfl
  | succ k =>
    rw [hk] at hle
    obtain ⟨v, hv⟩ := exists_atRank (l := ws) (j := k) (by omega)
    rw [firstReaching_bucketCounts (bucket_mono maxValue) hv (bucket_lt maxValue v),
      rankBucket_succ hv]
    rfl

/-- For a larger target rank, the loop runs through all buckets. -/
lemma Summary.getPercentile_of_lt {h : HDRHistogram} {maxValue : ℕ} {ws : List ℕ}
    (hs : Summary h maxValue ws) (hlen : ws.length < 2 ^ 64) (hne : ws ≠ []) {r : Rounding} {p : ℚ}
    (h0 : 0 < p) (h100 : p < 100) (hlt : ws.length < targetCount r p ws.length) :
    h.getPercentile r p = h.maxValueRecorded := by
  have hpos : 0 < ws.length := List.length_pos_iff.mpr hne
  have hsum : 0 + (bucketCounts (bucket maxValue) ws (calculateBucketCount maxValue)).sum <
      targetCount r p ws.length := by
    rw [sum_bucketCounts, zero_add]
    exact lt_of_le_of_lt List.countP_le_length hlt
  rw [getPercentile, hs.total_eq, if_neg (by omega), if_neg (not_le.mpr h100),
    if_neg (not_le.mpr h0), hs.scan_eq hlen, firstReaching_eq_none hsum]
  rfl

/-! ## Distance from the values -/

/-- The midpoint of a bucket and a value in it. -/
lemma abs_indexToValue_sub_le_iff (maxValue v : ℕ) :
    |(indexToValue (bucket maxValue v) : ℤ) - v| ≤ 10 ↔
      v ≤ 10 * calculateBucketCount maxValue + 5 := by
  have hN := bucketCount_pos maxValue
  rw [indexToValue, bucket, abs_le]
  rcases Nat.lt_or_ge (v / 10) (calculateBucketCount maxValue) with hlt | hge
  · rw [Nat.min_eq_left (by omega)]
    omega
  · -- the last bucket takes every larger value
    rw [Nat.min_eq_right (by omega)]
    omega

/-- Nothing is clamped when all values are in range. -/
lemma clamped_eq {maxValue : UInt64} {values : List UInt64} (hmax : ∀ v ∈ values, v ≤ maxValue) :
    clamped maxValue values = values.map UInt64.toNat := by
  apply List.map_congr_left
  intro v hv
  exact Nat.min_eq_left (UInt64.le_iff_toNat_le.mp (hmax v hv))

/-- What is reported for the rank `k` of the values `ws` lies within 10 of `v`: the bucket of the
value of that rank ends at most 5 below `v` and begins at most 5 above it, where the rank `0` has
the first bucket; a rank that is too large is reported as the largest value. -/
def RankNear (maxValue : ℕ) (ws : List ℕ) (k v : ℕ) : Prop :=
  if k ≤ ws.length then
    10 * rankBucket maxValue ws k ≤ v + 5 ∧ v ≤ 10 * (rankBucket maxValue ws k + 1) + 5
  else ∀ w ∈ ws, w ≤ v + 10

/-- The value of a rank is near what is reported for it, unless it is far beyond the last
bucket. -/
lemma rankNear_self_iff {maxValue k v : ℕ} {ws : List ℕ} (hv : atRank ws k = some v)
    (hk : k + 1 ≤ ws.length) :
    RankNear maxValue ws (k + 1) v ↔ v ≤ 10 * calculateBucketCount maxValue + 5 := by
  have hnear := abs_indexToValue_sub_le_iff maxValue v
  rw [indexToValue, abs_le] at hnear
  rw [RankNear, if_pos hk, rankBucket_succ hv, ← hnear]
  omega

/-- The reported percentile and a value. -/
lemma Summary.abs_getPercentile_sub_le_iff {h : HDRHistogram} {maxValue : ℕ} {ws : List ℕ}
    (hs : Summary h maxValue ws) (hlen : ws.length < 2 ^ 64) {r : Rounding} {p : ℚ} (h0 : 0 < p)
    (h100 : p < 100) {v : ℕ} (hv : v ∈ ws) :
    |(h.getPercentile r p : ℤ) - v| ≤ 10 ↔
      RankNear maxValue ws (targetCount r p ws.length) v := by
  have hne : ws ≠ [] := List.ne_nil_of_mem hv
  rw [RankNear]
  split_ifs with hle
  · rw [hs.getPercentile_eq hlen hne h0 h100 hle, indexToValue, abs_le]
    omega
  · rw [hs.getPercentile_of_lt hlen hne h0 h100 (by omega), abs_le]
    have hvmax := hs.le_max v hv
    constructor
    · intro hnear w hw
      have := hs.le_max w hw
      omega
    · intro hall
      have := hall _ (hs.max_mem hne)
      omega

/-- **When a percentile is accurate.**  For values in range, the reported percentile is within 10
of the value of the exact target rank exactly if that value is near what is reported for the rank
that the code computes in double precision.  Where the two ranks agree, this is so exactly if the
value is at most 5 above the upper bound of the last bucket. -/
theorem percentile_accurate_iff (maxValue : UInt64) (values : List UInt64)
    (hlen : values.length < 2 ^ 64) (hmax : ∀ v ∈ values, v ≤ maxValue) (p : ℚ) (h0 : 0 < p)
    (h100 : p < 100) (hk : 1 ≤ targetCount .exact p values.length) :
    ∃ v, atRank (values.map UInt64.toNat) (targetCount .exact p values.length - 1) = some v ∧
      (|((recordAll maxValue values).getPercentile .double p : ℤ) - v| ≤ 10 ↔
        RankNear maxValue.toNat (values.map UInt64.toNat)
          (targetCount .double p values.length) v) ∧
      (targetCount .double p values.length = targetCount .exact p values.length →
        (RankNear maxValue.toNat (values.map UInt64.toNat)
            (targetCount .double p values.length) v ↔
          v ≤ 10 * calculateBucketCount maxValue.toNat + 5)) := by
  have hs := summary_recordAll maxValue values hlen
  rw [clamped_eq hmax] at hs
  have hle := targetCount_le h100 values.length
  have hlength : (values.map UInt64.toNat).length = values.length := List.length_map _
  obtain ⟨v, hv⟩ := exists_atRank (l := values.map UInt64.toNat)
    (j := targetCount .exact p values.length - 1) (by omega)
  refine ⟨v, hv, ?_, fun hranks => ?_⟩
  · rw [← hlength]
    exact hs.abs_getPercentile_sub_le_iff (by omega) h0 h100 (mem_of_atRank hv)
  · obtain ⟨k, hk'⟩ : ∃ k, targetCount .exact p values.length = k + 1 :=
      ⟨_, (Nat.sub_add_cancel hk).symm⟩
    rw [hk', Nat.add_sub_cancel] at hv
    rw [hranks, hk']
    exact rankNear_self_iff hv (by omega)

/-- The third of four values in the histogram that the latency monitor uses. -/
theorem percentile_accurate_fourValues :
    let values : List UInt64 := [40000, 17, 250, 3]
    ∃ v, atRank (values.map UInt64.toNat) 2 = some v ∧
      |((recordAll 10000000 values).getPercentile .double 75 : ℤ) - v| ≤ 10 := by
  intro values
  have hexact : targetCount .exact 75 values.length = 3 := by decide +kernel
  have hdouble : targetCount .double 75 values.length = 3 := by decide +kernel
  obtain ⟨v, hv, hnear, hagree⟩ := percentile_accurate_iff 10000000 values
    (by norm_num [values]) (by simp [values]) 75 (by norm_num) (by norm_num)
    (by rw [hexact]; norm_num)
  rw [hexact] at hv
  have hle : v ≤ 40000 :=
    (by decide : ∀ w ∈ values.map UInt64.toNat, w ≤ 40000) v (mem_of_atRank hv)
  have hcount : calculateBucketCount (10000000 : UInt64).toNat = 100000 := rfl
  refine ⟨v, hv, hnear.mpr ((hagree (by rw [hexact, hdouble])).mpr ?_)⟩
  rw [hcount]
  exact hle.trans (by norm_num)

/-- The two ranks differ: 29 of 100 parts of 50 values and a half are 15, but less in double
precision. -/
example : targetCount .exact 29 50 = 15 ∧ targetCount .double 29 50 = 14 := by decide +kernel

/-- A latency of 5 ms, recorded in the histogram that the latency monitor uses, is reported
as just under 1 ms. -/
theorem large_latency_misreported :
    ¬ ∀ (maxValue : UInt64) (values : List UInt64), values.length < 2 ^ 64 →
      (∀ v ∈ values, v ≤ maxValue) → ∀ p : ℚ, 0 < p → p < 100 →
        1 ≤ targetCount .exact p values.length → ∀ v,
          atRank (values.map UInt64.toNat) (targetCount .exact p values.length - 1) = some v →
            |((recordAll maxValue values).getPercentile .double p : ℤ) - v| ≤ 10 := by
  intro hclaim
  have hexact : targetCount .exact 50 [(5000000 : UInt64)].length = 1 := by decide +kernel
  have hdouble : targetCount .double 50 [(5000000 : UInt64)].length = 1 := by decide +kernel
  have hv : atRank ([5000000].map UInt64.toNat) 0 = some 5000000 := atRank_singleton _
  have hmax : ∀ v ∈ [(5000000 : UInt64)], v ≤ 10000000 := by simp
  have hle := hclaim 10000000 [5000000] (by norm_num) hmax 50 (by norm_num) (by norm_num)
    hexact.ge 5000000 (by rw [hexact]; exact hv)
  have hs := summary_recordAll 10000000 [5000000] (by norm_num)
  rw [clamped_eq hmax] at hs
  rw [hs.abs_getPercentile_sub_le_iff (by norm_num) (by norm_num) (by norm_num) (by simp),
    List.length_map, hdouble, rankNear_self_iff hv (by simp)] at hle
  have hcount : calculateBucketCount (10000000 : UInt64).toNat = 100000 := rfl
  rw [hcount] at hle
  omega

/-! ## Order of the percentiles -/

/-- What the reported value of a percentile strictly between `0` and `100` must satisfy to lie
between `low`, at most the smallest value `lo`, and the largest value `hi`: the value of the
target rank is not in the bucket of `lo` with `low` above its midpoint, nor in the bucket of
`hi` with `hi` below it.  The rank `0` is reported as `5`. -/
def Fits (maxValue : ℕ) (ws : List ℕ) (low lo hi : ℕ) (percentile : ℚ) : Prop :=
  match targetCount .exact percentile ws.length with
  | 0 => low ≤ 5 ∧ 5 ≤ hi
  | k + 1 => ∀ v, atRank ws k = some v →
    (bucket maxValue v = bucket maxValue lo → low ≤ indexToValue (bucket maxValue lo)) ∧
      (bucket maxValue v = bucket maxValue hi → indexToValue (bucket maxValue hi) ≤ hi)

/-- The midpoint of a later bucket lies above a value. -/
lemma le_indexToValue_of_bucket_lt {maxValue v w : ℕ} (h : bucket maxValue v < bucket maxValue w) :
    v ≤ indexToValue (bucket maxValue w) := by
  rw [bucket, bucket] at h
  rw [indexToValue, bucket]
  omega

/-- The midpoint of an earlier bucket lies below a value. -/
lemma indexToValue_le_of_bucket_lt {maxValue v w : ℕ} (h : bucket maxValue v < bucket maxValue w) :
    indexToValue (bucket maxValue v) ≤ w := by
  rw [bucket, bucket] at h
  rw [indexToValue, bucket]
  omega

/-- The smallest and the largest value. -/
structure Extremes (ws : List ℕ) (lo hi : ℕ) : Prop where
  lo_mem : lo ∈ ws
  hi_mem : hi ∈ ws
  lo_le : ∀ w ∈ ws, lo ≤ w
  le_hi : ∀ w ∈ ws, w ≤ hi

lemma fits_iff {maxValue low lo hi : ℕ} {ws : List ℕ} (hex : Extremes ws lo hi) (hlow : low ≤ lo)
    {p : ℚ} (hp : p < 100) :
    Fits maxValue ws low lo hi p ↔
      low ≤ indexToValue (rankBucket maxValue ws (targetCount .exact p ws.length)) ∧
        indexToValue (rankBucket maxValue ws (targetCount .exact p ws.length)) ≤ hi := by
  have hle := targetCount_le hp ws.length
  rw [Fits]
  cases hk : targetCount .exact p ws.length with
  | zero => exact Iff.rfl
  | succ k =>
    obtain ⟨v, hv⟩ := exists_atRank (l := ws) (j := k) (by omega)
    have hmem := mem_of_atRank hv
    have hlo := bucket_mono maxValue (hex.lo_le v hmem)
    have hhi := bucket_mono maxValue (hex.le_hi v hmem)
    rw [rankBucket_succ hv]
    constructor
    · intro hfits
      obtain ⟨hlower, hupper⟩ := hfits v hv
      refine ⟨?_, ?_⟩
      · rcases Nat.lt_or_eq_of_le hlo with hlt | heq
        · exact hlow.trans (le_indexToValue_of_bucket_lt hlt)
        · rw [← heq]
          exact hlower heq.symm
      · rcases Nat.lt_or_eq_of_le hhi with hlt | heq
        · exact indexToValue_le_of_bucket_lt hlt
        · rw [heq]
          exact hupper heq
    · rintro ⟨hlower, hupper⟩ v' hv'
      rw [hv] at hv'
      obtain rfl := Option.some.inj hv'
      exact ⟨fun heq => heq ▸ hlower, fun heq => heq ▸ hupper⟩

/-- The recorded extremes are those of the values. -/
lemma Summary.extremes {h : HDRHistogram} {maxValue : ℕ} {ws : List ℕ}
    (hs : Summary h maxValue ws) (hne : ws ≠ []) :
    Extremes ws h.minValue h.maxValueRecorded :=
  ⟨hs.min_mem hne, hs.max_mem hne, hs.min_le, hs.le_max⟩

/-- The extremes are the values of the least and the greatest rank. -/
lemma Extremes.rank_hi {ws : List ℕ} {lo hi : ℕ} (h : Extremes ws lo hi) :
    atRank ws (ws.length - 1) = some hi := by
  have hpos := List.length_pos_of_mem h.hi_mem
  obtain ⟨v, hv⟩ := exists_atRank (l := ws) (j := ws.length - 1) (by omega)
  obtain ⟨j, hj, hrank⟩ := exists_rank h.hi_mem
  have hle := atRank_mono (by omega : j ≤ ws.length - 1) hrank hv
  rw [hv, le_antisymm hle (h.le_hi v (mem_of_atRank hv))]

/-- The minimum that bounds the percentiles from `p` on: `get_min()` takes the largest
`uint64_t` for "nothing recorded", while `get_percentile(0)` does not. -/
def lowest (lo : ℕ) (p : ℚ) : ℕ := if lo = 2 ^ 64 - 1 ∧ 0 < p then 0 else lo

lemma lowest_le (lo : ℕ) (p : ℚ) : lowest lo p ≤ lo := by
  rw [lowest]
  split_ifs <;> omega

/-- The percentiles, with exact target ranks, are in order, between the minimum and the maximum. -/
def Ordered (h : HDRHistogram) (p q : ℚ) : Prop :=
  h.getMin ≤ h.getPercentile .exact p ∧ h.getPercentile .exact p ≤ h.getPercentile .exact q ∧
    h.getPercentile .exact q ≤ h.getMax

/-- What is reported strictly between `0` and `100`. -/
lemma Summary.ordered_iff {h : HDRHistogram} {maxValue : ℕ} {ws : List ℕ}
    (hs : Summary h maxValue ws) (hlen : ws.length < 2 ^ 64) (hne : ws ≠ []) {p q : ℚ}
    (h0 : 0 ≤ p) (hpq : p ≤ q) (h100 : q ≤ 100) :
    Ordered h p q ↔ ∀ x, x = p ∨ x = q → 0 < x → x < 100 →
      lowest h.minValue p ≤ h.getPercentile .exact x ∧
        h.getPercentile .exact x ≤ h.maxValueRecorded := by
  have htotal : ¬ h.totalCount = 0 := by
    rw [hs.total_eq, List.length_eq_zero_iff]
    exact hne
  have hmin_le_max : h.minValue ≤ h.maxValueRecorded := hs.min_le _ (hs.max_mem hne)
  have hzero : h.getPercentile .exact 0 = h.minValue := by
    rw [getPercentile, if_neg htotal, if_neg (by norm_num), if_pos le_rfl]
  have hhundred : h.getPercentile .exact 100 = h.maxValueRecorded := by
    rw [getPercentile, if_neg htotal, if_pos le_rfl]
  have hgetMin : ∀ {x : ℚ}, 0 < x → lowest h.minValue x = h.getMin := by
    intro x hx
    rw [lowest, getMin]
    simp [hx]
  have hmono : ∀ {x y : ℚ}, 0 < x → x ≤ y → y < 100 →
      h.getPercentile .exact x ≤ h.getPercentile .exact y := by
    intro x y hx hxy hy
    rw [hs.getPercentile_eq hlen hne hx (lt_of_le_of_lt hxy hy) (targetCount_le (hxy.trans_lt hy) _),
      hs.getPercentile_eq hlen hne (lt_of_lt_of_le hx hxy) hy (targetCount_le hy _), indexToValue,
      indexToValue]
    have hle : rankBucket maxValue ws (targetCount .exact x ws.length) ≤
        rankBucket maxValue ws (targetCount .exact y ws.length) :=
      rankBucket_mono (targetCount_mono hxy ws.length) (targetCount_le hy ws.length)
    omega
  have hgetMin_le : h.getMin ≤ h.minValue := by
    rw [getMin]
    split_ifs <;> omega
  rcases h0.eq_or_lt with rfl | hp
  · have hlow : lowest h.minValue 0 = h.minValue := by simp [lowest]
    rw [Ordered, hzero, hlow, getMax]
    rcases hpq.eq_or_lt with rfl | hq
    · refine iff_of_true ⟨hgetMin_le, hzero.ge, hzero.trans_le hmin_le_max⟩ ?_
      rintro x (rfl | rfl) hx
      · exact absurd hx (lt_irrefl _)
      · exact absurd hx (lt_irrefl _)
    rcases h100.eq_or_lt with rfl | hq'
    · refine iff_of_true ⟨hgetMin_le, hhundred.symm ▸ hmin_le_max, hhundred.le⟩ ?_
      rintro x (rfl | rfl) hx hx'
      · exact absurd hx (lt_irrefl _)
      · exact absurd hx' (lt_irrefl _)
    · constructor
      · rintro ⟨-, hlower, hupper⟩ x (rfl | rfl) hx -
        · exact absurd hx (lt_irrefl _)
        · exact ⟨hlower, hupper⟩
      · intro hx
        exact ⟨hgetMin_le, hx q (Or.inr rfl) hq hq'⟩
  · rw [Ordered, hgetMin hp, getMax]
    rcases h100.eq_or_lt with rfl | hq
    · rw [hhundred]
      rcases hpq.eq_or_lt with rfl | hp'
      · rw [hhundred]
        refine iff_of_true ⟨hgetMin_le.trans hmin_le_max, le_rfl, le_rfl⟩ ?_
        rintro x (rfl | rfl) - hx
        · exact absurd hx (lt_irrefl _)
        · exact absurd hx (lt_irrefl _)
      · constructor
        · rintro ⟨hlower, hupper, -⟩ x (rfl | rfl) - hx
          · exact ⟨hlower, hupper⟩
          · exact absurd hx (lt_irrefl _)
        · intro hx
          obtain ⟨hlower, hupper⟩ := hx p (Or.inl rfl) hp hp'
          exact ⟨hlower, hupper, le_rfl⟩
    · -- between the two, the percentiles are in order anyway
      have hordered := hmono hp hpq hq
      constructor
      · rintro ⟨hlower, -, hupper⟩ x (rfl | rfl) - -
        · exact ⟨hlower, hordered.trans hupper⟩
        · exact ⟨hlower.trans hordered, hupper⟩
      · intro hx
        exact ⟨(hx p (Or.inl rfl) hp (lt_of_le_of_lt hpq hq)).1, hordered,
          (hx q (Or.inr rfl) (lt_of_lt_of_le hp hpq) hq).2⟩

/-- The last bucket that is reported is that of the largest value. -/
lemma Extremes.rankBucket_length {maxValue lo hi : ℕ} {ws : List ℕ} (h : Extremes ws lo hi) :
    rankBucket maxValue ws ws.length = bucket maxValue hi := by
  have hpos := List.length_pos_of_mem h.hi_mem
  have hlen : ws.length - 1 + 1 = ws.length := Nat.sub_add_cancel hpos
  have heq : rankBucket maxValue ws (ws.length - 1 + 1) = bucket maxValue hi :=
    rankBucket_succ h.rank_hi
  rwa [hlen] at heq

/-- A percentile so small that its target rank is `0`. -/
lemma targetCount_small {n : ℕ} (hn : 0 < n) : targetCount .exact (25 / n) n = 0 := by
  have hn' : (n : ℚ) ≠ 0 := Nat.cast_ne_zero.mpr hn.ne'
  rw [targetCount_exact, Nat.floor_eq_zero]
  field_simp
  norm_num

/-- A percentile below `100` whose target rank is that of the largest value. -/
lemma targetCount_large {n : ℕ} (hn : 0 < n) : targetCount .exact (100 - 50 / n) n = n := by
  have hn' : (n : ℚ) ≠ 0 := Nat.cast_ne_zero.mpr hn.ne'
  have heq : (100 - 50 / (n : ℚ)) / 100 * n + 1 / 2 = n := by
    field_simp
    ring
  rw [targetCount_exact, heq, Nat.floor_natCast]

/-- All percentiles are in order when the smallest value is at most `5` and the largest is
not below the midpoint of its bucket. -/
lemma Summary.forall_ordered_iff {h : HDRHistogram} {maxValue : ℕ} {ws : List ℕ}
    (hs : Summary h maxValue ws) (hlen : ws.length < 2 ^ 64) (hne : ws ≠ []) :
    (∀ p q : ℚ, 0 ≤ p → p ≤ q → q ≤ 100 → Ordered h p q) ↔
      h.minValue ≤ 5 ∧
        indexToValue (bucket maxValue h.maxValueRecorded) ≤ h.maxValueRecorded := by
  have hex := hs.extremes hne
  have hpos : 0 < ws.length := List.length_pos_iff.mpr hne
  have hpos' : (1 : ℚ) ≤ ws.length := by exact_mod_cast hpos
  constructor
  · intro hall
    refine ⟨?_, ?_⟩
    · have hsmall : (0 : ℚ) < 25 / ws.length := by positivity
      have hsmall' : (25 : ℚ) / ws.length < 100 := by
        rw [div_lt_iff₀ (by linarith)]
        linarith
      have hord := (hs.ordered_iff hlen hne le_rfl hsmall.le hsmall'.le).mp
        (hall 0 _ le_rfl hsmall.le hsmall'.le) _ (Or.inr rfl) hsmall hsmall'
      rw [hs.getPercentile_eq hlen hne hsmall hsmall' (targetCount_le hsmall' _),
        targetCount_small hpos] at hord
      have hlow : lowest h.minValue 0 = h.minValue := by simp [lowest]
      rw [hlow] at hord
      exact hord.1
    · have hfrac : (50 : ℚ) / ws.length ≤ 50 := div_le_self (by norm_num) hpos'
      have hfrac' : (0 : ℚ) < 50 / ws.length := by positivity
      have hlarge : (0 : ℚ) < 100 - 50 / ws.length := by linarith
      have hlarge' : (100 : ℚ) - 50 / ws.length < 100 := by linarith
      have hord := (hs.ordered_iff hlen hne hlarge.le le_rfl hlarge'.le).mp
        (hall _ _ hlarge.le le_rfl hlarge'.le) _ (Or.inr rfl) hlarge hlarge'
      rw [hs.getPercentile_eq hlen hne hlarge hlarge' (targetCount_le hlarge' _),
        targetCount_large hpos, hex.rankBucket_length] at hord
      exact hord.2
  · rintro ⟨hlo, hhi⟩ p q h0 hpq h100
    rw [hs.ordered_iff hlen hne h0 hpq h100]
    intro x _ hx hx'
    rw [hs.getPercentile_eq hlen hne hx hx' (targetCount_le hx' _)]
    have hle : rankBucket maxValue ws (targetCount .exact x ws.length) ≤
        rankBucket maxValue ws ws.length :=
      rankBucket_mono (targetCount_le hx' ws.length) le_rfl
    rw [hex.rankBucket_length] at hle
    have hlow := lowest_le h.minValue p
    rw [indexToValue] at hhi ⊢
    omega

/-- **When the percentiles are in order.**  For a histogram with at least one recorded value:
`get_min() ≤ get_percentile(p) ≤ get_percentile(q) ≤ get_max()` holds exactly if those of the
two percentiles that lie strictly between `0` and `100` fit between the extremes; and it
holds for all percentiles exactly if the smallest value is at most `5` and the largest is
not below the midpoint of its bucket. -/
theorem percentiles_ordered_iff (maxValue : UInt64) (values : List UInt64) (hne : values ≠ [])
    (hlen : values.length < 2 ^ 64) :
    ∃ lo hi, Extremes (clamped maxValue values) lo hi ∧
      (∀ p q : ℚ, 0 ≤ p → p ≤ q → q ≤ 100 →
        (Ordered (recordAll maxValue values) p q ↔ ∀ x, x = p ∨ x = q → 0 < x → x < 100 →
          Fits maxValue.toNat (clamped maxValue values) (lowest lo p) lo hi x)) ∧
      ((∀ p q : ℚ, 0 ≤ p → p ≤ q → q ≤ 100 → Ordered (recordAll maxValue values) p q) ↔
        lo ≤ 5 ∧ indexToValue (bucket maxValue.toNat hi) ≤ hi) := by
  have hs := summary_recordAll maxValue values hlen
  have hne' : clamped maxValue values ≠ [] := by simpa [clamped] using hne
  have hlen' : (clamped maxValue values).length < 2 ^ 64 := by simpa [clamped] using hlen
  have hex := hs.extremes hne'
  refine ⟨_, _, hex, ?_, hs.forall_ordered_iff hlen' hne'⟩
  intro p q h0 hpq h100
  rw [hs.ordered_iff hlen' hne' h0 hpq h100]
  have hfits : ∀ x, 0 < x → x < 100 →
      (Fits maxValue.toNat (clamped maxValue values)
        (lowest (recordAll maxValue values).minValue p) (recordAll maxValue values).minValue
        (recordAll maxValue values).maxValueRecorded x ↔
      lowest (recordAll maxValue values).minValue p ≤
          (recordAll maxValue values).getPercentile .exact x ∧
        (recordAll maxValue values).getPercentile .exact x ≤
          (recordAll maxValue values).maxValueRecorded) := by
    intro x hx hx'
    rw [fits_iff hex (lowest_le _ p) hx', hs.getPercentile_eq hlen' hne' hx hx'
      (targetCount_le hx' _)]
  constructor
  · intro h x hxpq hx hx'
    exact (hfits x hx hx').mpr (h x hxpq hx hx')
  · intro h x hxpq hx hx'
    exact (hfits x hx hx').mp (h x hxpq hx hx')

/-- The quartiles of the values `3` and `17` are in order. -/
theorem percentiles_ordered_3_17 : Ordered (recordAll 1000 [3, 17]) 25 75 := by
  obtain ⟨lo, hi, hex, -, hall⟩ := percentiles_ordered_iff 1000 [3, 17] (by simp) (by norm_num)
  have hvalues : clamped 1000 [3, 17] = [3, 17] := by decide
  rw [hvalues] at hex
  have hlo := hex.lo_le 3 (by simp)
  have hhi := hex.le_hi 17 (by simp)
  have hmem := hex.hi_mem
  simp only [List.mem_cons, List.not_mem_nil, or_false] at hmem
  have heq : hi = 17 := by omega
  refine hall.mpr ⟨by omega, ?_⟩ 25 75 (by norm_num) (by norm_num) (by norm_num)
  rw [heq]
  decide

/-- One latency of `0` is recorded: the median is reported as `5`, above the maximum. -/
theorem median_above_maximum :
    ¬ ∀ (maxValue : UInt64) (values : List UInt64), values ≠ [] → values.length < 2 ^ 64 →
      ∀ p q : ℚ, 0 ≤ p → p ≤ q → q ≤ 100 → Ordered (recordAll maxValue values) p q := by
  intro hclaim
  have hord := hclaim 1000 [0] (by simp) (by norm_num) 50 50 (by norm_num) le_rfl (by norm_num)
  have hs := summary_recordAll 1000 [0] (by norm_num)
  have hmax : (recordAll 1000 [0]).getMax = 0 := by decide +kernel
  have hle := hord.2.2
  rw [hmax, hs.getPercentile_eq (by norm_num [clamped]) (by simp [clamped]) (by norm_num)
    (by norm_num) (targetCount_le (by norm_num) _), indexToValue] at hle
  omega

end HDRHistogram

end TickPlant.Latency
