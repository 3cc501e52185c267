/-
# The samples behind the percentiles

`record` writes the latencies one after the other into a ring of `SAMPLE_BUFFER_SIZE` slots,
and `calculate_percentile` sorts as many slots as have been written since the last reset.
`sample_index` counts the samples and says how many slots are in use, so the counter coming
round after `2 ^ 64` samples has the effect of a reset: the ring fills up anew, and until it
is full the percentiles speak of the samples since then (`percentile_forgets`).
-/
import TickPlant.Lib.Rank
import TickPlant.Lib.Window
import TickPlant.Latency.ExchangeStats

namespace TickPlant.Latency.ExchangeStats

open Lib

/-- `reset`, which leaves the samples in their slots. -/
def reset (m : ExchangeStats) : ExchangeStats :=
  { m with
    count := 0
    totalNs := 0
    minNs := 2 ^ 64 - 1
    maxNs := 0
    sampleIndex := 0
    occupancySamples := fun _ => 0 }

/-- `calculate_percentile(ex, percentile)`. -/
def calculatePercentile (ex : ExchangeStats) (percentile : ℤ) : ℕ :=
  let sampleCount := min ex.sampleIndex sampleBufferSize
  if sampleCount = 0 then 0
  else
    let sortedSamples := ascending ((List.ofFn ex.samples).take sampleCount)
    let idx := (percentile * sampleCount % 2 ^ 64).toNat / 100
    sortedSamples.getD (if idx ≥ sampleCount then sampleCount - 1 else idx) 0

/-- Statistics that nothing has been recorded in since their construction or a reset. -/
inductive Fresh : ExchangeStats → Prop
  | constructed : Fresh init
  | reset (m : ExchangeStats) : Fresh m.reset

lemma Fresh.sampleIndex_eq {m : ExchangeStats} (h : Fresh m) : m.sampleIndex = 0 := by
  cases h <;> rfl

/-! ## The ring -/

/-- The calls since `sample_index` was last `0`. -/
def sinceZero (cs : List Call) : List Call := cs.drop (cs.length - cs.length % 2 ^ 64)

lemma length_sinceZero (cs : List Call) : (sinceZero cs).length = cs.length % 2 ^ 64 := by
  have := Nat.mod_le cs.length (2 ^ 64)
  rw [sinceZero, List.length_drop]
  omega

lemma sinceZero_concat (cs : List Call) (c : Call) :
    sinceZero (cs ++ [c]) = sinceZero cs ++ [c] ∧
        (cs.length + 1) % 2 ^ 64 = cs.length % 2 ^ 64 + 1 ∨
      sinceZero (cs ++ [c]) = [] ∧ (cs.length + 1) % 2 ^ 64 = 0 := by
  have hle := Nat.mod_le cs.length (2 ^ 64)
  have hlength : (cs ++ [c]).length = cs.length + 1 := by simp
  by_cases hround : (cs.length + 1) % 2 ^ 64 = 0
  · refine Or.inr ⟨?_, hround⟩
    rw [sinceZero, hlength, hround, Nat.sub_zero, ← hlength, List.drop_length]
  · have hmod : (cs.length + 1) % 2 ^ 64 = cs.length % 2 ^ 64 + 1 := by omega
    refine Or.inl ⟨?_, hmod⟩
    rw [sinceZero, hlength, hmod, Nat.add_sub_add_right, sinceZero,
      List.drop_append_of_le_length (by omega)]

/-- The samples since `sample_index` was last `0` are in the ring. -/
lemma recent_records {m : ExchangeStats} (hm : m.sampleIndex = 0) (cs : List Call) :
    (cs.foldl record m).sampleIndex = (sinceZero cs).length ∧
      Recent (cs.foldl record m).samples ((sinceZero cs).map Call.latencyNs) := by
  induction cs using List.reverseRecOn with
  | nil => exact ⟨hm, .nil _⟩
  | append_singleton cs c ih =>
    obtain ⟨hindex, hrecent⟩ := ih
    have hnext : ((cs ++ [c]).foldl record m).sampleIndex = (cs.length + 1) % 2 ^ 64 := by
      rw [List.foldl_concat, record, hindex, length_sinceZero, Nat.mod_add_mod]
    rcases sinceZero_concat cs c with ⟨hsince, hmod⟩ | ⟨hsince, hmod⟩
    · refine ⟨by rw [hnext, hsince, hmod, List.length_append, length_sinceZero]; rfl, ?_⟩
      have hpush := hrecent.push c.latencyNs
      rw [List.length_map, ← hindex] at hpush
      rw [hsince, List.map_append, List.foldl_concat]
      exact hpush
    · rw [hsince]
      exact ⟨by rw [hnext, hmod]; rfl, .nil _⟩

/-! ## The percentiles -/

/-- The index into the samples, for a percentile between `0` and `100`. -/
lemma index_eq {percentile n : ℕ} (hp : percentile ≤ 100) (hn : n ≤ sampleBufferSize) :
    ((percentile : ℤ) * n % 2 ^ 64).toNat / 100 = percentile * n / 100 := by
  have hmul : percentile * n < 2 ^ 64 :=
    lt_of_le_of_lt (Nat.mul_le_mul hp hn) (by norm_num [sampleBufferSize])
  have hmod : (percentile : ℤ) * n % 2 ^ 64 = (percentile * n : ℕ) := by
    rw [← Nat.cast_mul]
    exact Int.emod_eq_of_lt (Int.natCast_nonneg _) (by exact_mod_cast hmul)
  rw [hmod, Int.toNat_natCast]

/-- `calculate_percentile` is a sample of the last, by its rank. -/
lemma atRank_calculatePercentile {s : ExchangeStats} {l : List ℕ} (hne : l ≠ [])
    (hindex : s.sampleIndex = l.length) (hrecent : Recent s.samples l) {percentile : ℕ}
    (hp : percentile ≤ 100) :
    atRank (l.drop (l.length - sampleBufferSize))
        (min (percentile * min l.length sampleBufferSize / 100)
          (min l.length sampleBufferSize - 1)) =
      some (s.calculatePercentile percentile) := by
  have hpos : 0 < l.length := List.length_pos_iff.mpr hne
  have hsize : 0 < sampleBufferSize := by simp [sampleBufferSize]
  have hwindow : ascending ((List.ofFn s.samples).take (min l.length sampleBufferSize)) =
      ascending (l.drop (l.length - sampleBufferSize)) := by
    have htake := List.take_eq_take_min (l := List.ofFn s.samples) (i := l.length)
    rw [List.length_ofFn] at htake
    rw [← htake]
    exact ascending_congr hrecent.perm
  rw [calculatePercentile, hindex]
  generalize hn : min l.length sampleBufferSize = n at hwindow ⊢
  have hcount : n ≠ 0 := by omega
  have hle : n ≤ sampleBufferSize := by omega
  have hidx : (if percentile * n / 100 ≥ n then n - 1 else percentile * n / 100) =
      min (percentile * n / 100) (n - 1) := by
    split <;> omega
  have hlt : min (percentile * n / 100) (n - 1) <
      (ascending (l.drop (l.length - sampleBufferSize))).length := by
    rw [length_ascending, List.length_drop]
    omega
  simp only [if_neg hcount, index_eq hp hle, hidx, hwindow]
  rw [atRank, List.getD_eq_getElem?_getD, List.getElem?_eq_getElem hlt, Option.getD_some]

/-! ## The last samples -/

/-- The last latencies, as many as the ring has slots. -/
def lastLatencies (cs : List Call) : List ℕ :=
  (cs.map Call.latencyNs).drop (cs.length - sampleBufferSize)

/-- While the counter has not come round, or once the ring has filled up again since, it holds
the last samples. -/
lemma lastLatencies_eq {cs : List Call}
    (h : cs.length < 2 ^ 64 ∨ sampleBufferSize ≤ cs.length % 2 ^ 64) :
    min (sinceZero cs).length sampleBufferSize = min cs.length sampleBufferSize ∧
      ((sinceZero cs).map Call.latencyNs).drop ((sinceZero cs).length - sampleBufferSize) =
        lastLatencies cs := by
  have hle := Nat.mod_le cs.length (2 ^ 64)
  have hlength := length_sinceZero cs
  refine ⟨by omega, ?_⟩
  have hdrop : cs.length - cs.length % 2 ^ 64 + (cs.length % 2 ^ 64 - sampleBufferSize) =
      cs.length - sampleBufferSize := by omega
  rw [hlength, sinceZero, List.map_drop, List.drop_drop, hdrop, lastLatencies]

/-- **The percentiles speak of the last samples.**  After a positive number of calls of `record`
that is smaller than `2 ^ 64`, or a number that the counter is far enough into another round
at, the slots in use hold the last latencies, and each percentile is the one of its rank. -/
theorem percentile_of_last {m : ExchangeStats} (hm : Fresh m) {cs : List Call} (hne : cs ≠ [])
    (hlength : cs.length < 2 ^ 64 ∨ sampleBufferSize ≤ cs.length % 2 ^ 64) :
    ((List.ofFn (cs.foldl record m).samples).take (min cs.length sampleBufferSize)).Perm
        (lastLatencies cs) ∧
      ∀ percentile : ℕ, percentile ≤ 100 →
        atRank (lastLatencies cs)
            (min (percentile * min cs.length sampleBufferSize / 100)
              (min cs.length sampleBufferSize - 1)) =
          some ((cs.foldl record m).calculatePercentile percentile) := by
  obtain ⟨hindex, hrecent⟩ := recent_records hm.sampleIndex_eq cs
  obtain ⟨hmin, hlast⟩ := lastLatencies_eq hlength
  have hsome : (sinceZero cs).map Call.latencyNs ≠ [] := by
    have hpos := List.length_pos_iff.mpr hne
    have hsince := length_sinceZero cs
    have hsize : 0 < sampleBufferSize := by simp [sampleBufferSize]
    rw [← List.length_pos_iff, List.length_map]
    omega
  rw [← hmin, ← hlast]
  refine ⟨?_, fun percentile hp => ?_⟩
  · have hperm := hrecent.perm
    have htake := List.take_eq_take_min (l := List.ofFn (cs.foldl record m).samples)
      (i := (sinceZero cs).length)
    rw [List.length_map, htake, List.length_ofFn] at hperm
    exact hperm
  · have hrank := atRank_calculatePercentile hsome (by rw [hindex, List.length_map]) hrecent hp
    rw [List.length_map] at hrank
    exact hrank

/-- A single sample after a reset; the slots still hold the samples from before it. -/
theorem percentile_of_last_single :
    (([⟨9, 0⟩, ⟨9, 0⟩].foldl record init).reset.record ⟨7, 0⟩).calculatePercentile 50 = 7 := by
  have hne : [(⟨7, 0⟩ : Call)] ≠ [] := by simp
  have hrank := (percentile_of_last (.reset ([⟨9, 0⟩, ⟨9, 0⟩].foldl record init)) hne
    (Or.inl (by norm_num))).2 50 (by norm_num)
  have hsingle : atRank (lastLatencies [⟨7, 0⟩]) 0 = some 7 := atRank_singleton 7
  have heq := hsingle.symm.trans hrank
  exact (Option.some.inj heq).symm

/-- When the counter has come round, the samples are forgotten: `2 ^ 64` samples of `1`. -/
theorem percentile_forgets : ∃ cs : List Call, cs ≠ [] ∧
    (cs.foldl record init).calculatePercentile 50 = 0 ∧
      atRank (lastLatencies cs)
        (min (50 * min cs.length sampleBufferSize / 100)
          (min cs.length sampleBufferSize - 1)) = some 1 := by
  obtain ⟨n, hn⟩ : ∃ n, n = 2 ^ 64 := ⟨_, rfl⟩
  have hlength : (List.replicate n (⟨1, 0⟩ : Call)).length = n := List.length_replicate
  have hsize : sampleBufferSize = 10000 := rfl
  refine ⟨List.replicate n ⟨1, 0⟩, ?_, ?_, ?_⟩
  · rw [ne_eq, List.replicate_eq_nil_iff]
    omega
  · have hindex := (recent_records (m := init) rfl (List.replicate n ⟨1, 0⟩)).1
    rw [length_sinceZero, hlength, hn, Nat.mod_self] at hindex
    rw [calculatePercentile, hn, hindex, Nat.zero_min]
    rfl
  · have hlast : (lastLatencies (List.replicate n ⟨1, 0⟩)).length = min n sampleBufferSize := by
      rw [lastLatencies, List.length_drop, List.length_map, hlength]
      omega
    obtain ⟨x, hx⟩ := exists_atRank (l := lastLatencies (List.replicate n ⟨1, 0⟩))
      (j := min (50 * min n sampleBufferSize / 100) (min n sampleBufferSize - 1)) (by omega)
    obtain ⟨c, hc, rfl⟩ := List.mem_map.mp (List.mem_of_mem_drop (mem_of_atRank hx))
    rw [hlength, hx, List.eq_of_mem_replicate hc]

end TickPlant.Latency.ExchangeStats
