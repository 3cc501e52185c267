/-
# From cycles to nanoseconds

`cycles_to_ns` multiplies by a thousand million before it divides by the frequency, in 64-bit
arithmetic.  The result is the floor of the quotient exactly if the product is smaller than
`2 ^ 64` (`cyclesToNs_eq_iff`), which at any frequency is so for the first `18446744073`
cycles.  A clock of three thousand million cycles a second gets there in about six seconds:
`now_ns`, which converts the counter itself, then falls back to `0`, and so does the
measurement of an interval of that length.
-/
import TickPlant.Text
import TickPlant.Latency.ExchangeStats

namespace TickPlant.Latency

/-! ## The conversions -/

/-- `TSCCalibrator`, calibrated. -/
structure TSCCalibrator where
  tscFrequency : UInt64

namespace TSCCalibrator

variable (c : TSCCalibrator)

/-- `cycles_to_ns(cycles)`. -/
def cyclesToNs (cycles : UInt64) : UInt64 := cycles * 1000000000 / c.tscFrequency

/-- `now_ns()`, when the counter reads `tsc`. -/
def nowNs (tsc : UInt64) : UInt64 := c.cyclesToNs tsc

/-- The result of a `ScopedTimer` constructed at `start` and destroyed at `stop`. -/
def scopedTimer (start stop : UInt64) : UInt64 := c.cyclesToNs (stop - start)

end TSCCalibrator

/-! ## The tracker -/

/-- `MAX_EXCHANGES`. -/
def maxExchanges : ℕ := 5

instance : NeZero maxExchanges := ⟨by simp [maxExchanges]⟩

/-- `QueueLatencyTracker`; the names and the other members of the exchanges side by side. -/
structure QueueLatencyTracker where
  names : Fin maxExchanges → Bytes
  exchanges : Fin maxExchanges → ExchangeStats
  exchangeCount : ℕ

namespace QueueLatencyTracker

/-- `get_exchange_index(name)`. -/
def getExchangeIndex (t : QueueLatencyTracker) (name : Bytes) : Fin maxExchanges :=
  ((List.finRange maxExchanges).find? fun i => i.val < t.exchangeCount ∧ t.names i = name).getD 0

/-- `record_operation(exchange, start_tsc, end_tsc, queue_occupancy)`. -/
def recordOperation (t : QueueLatencyTracker) (c : TSCCalibrator) (exchange : Bytes)
    (startTsc endTsc : UInt64) (queueOccupancy : ℕ) : QueueLatencyTracker :=
  if startTsc = 0 ∨ endTsc = 0 then t
  else if endTsc ≤ startTsc then t
  else
    let latencyNs := c.cyclesToNs (endTsc - startTsc)
    let idx := t.getExchangeIndex exchange
    { t with
      exchanges := Function.update t.exchanges idx
        ((t.exchanges idx).record ⟨latencyNs.toNat, queueOccupancy⟩) }

/-- The tracker with one more sample for an exchange. -/
def withSample (t : QueueLatencyTracker) (exchange : Bytes) (call : ExchangeStats.Call) :
    QueueLatencyTracker :=
  { t with
    exchanges := Function.update t.exchanges (t.getExchangeIndex exchange)
      ((t.exchanges (t.getExchangeIndex exchange)).record call) }

lemma recordOperation_eq {t : QueueLatencyTracker} {c : TSCCalibrator} {exchange : Bytes}
    {startTsc endTsc : UInt64} {queueOccupancy : ℕ} (hstart : startTsc ≠ 0)
    (hlt : startTsc < endTsc) :
    t.recordOperation c exchange startTsc endTsc queueOccupancy =
      t.withSample exchange ⟨(c.cyclesToNs (endTsc - startTsc)).toNat, queueOccupancy⟩ := by
  have hend : endTsc ≠ 0 := by
    rintro rfl
    exact absurd (UInt64.lt_iff_toNat_lt.mp hlt) (Nat.not_lt_zero _)
  rw [recordOperation, if_neg (not_or.mpr ⟨hstart, hend⟩), if_neg (UInt64.not_le.mpr hlt)]
  rfl

/-- Samples with different latencies leave different trackers. -/
lemma withSample_inj {t : QueueLatencyTracker} {exchange : Bytes} {x y queueOccupancy : ℕ}
    (h : t.withSample exchange ⟨x, queueOccupancy⟩ = t.withSample exchange ⟨y, queueOccupancy⟩) :
    x = y := by
  have hstats := congrFun (congrArg exchanges h) (t.getExchangeIndex exchange)
  simp only [withSample, Function.update_self] at hstats
  have hslot := congrFun (congrArg ExchangeStats.samples hstats)
    (Fin.ofNat sampleBufferSize (t.exchanges (t.getExchangeIndex exchange)).sampleIndex)
  simpa [ExchangeStats.record] using hslot

end QueueLatencyTracker

/-! ## When the conversion is exact -/

/-- A quotient that has lost a multiple of `m` from its dividend is off, if it is divided by at
most `m`. -/
lemma mod_div_eq_div_iff {m f x : ℕ} (hf : 0 < f) (hfm : f ≤ m) :
    x % m / f = x / f ↔ x < m := by
  refine ⟨fun h => ?_, fun h => by rw [Nat.mod_eq_of_lt h]⟩
  by_contra hge
  have hsub : x % m ≤ x - m := by
    rw [Nat.mod_eq_sub_mod (not_lt.mp hge)]
    exact Nat.mod_le _ _
  have hlt : x % m / f < x / f :=
    calc x % m / f < x % m / f + 1 := Nat.lt_succ_self _
      _ = (x % m + f) / f := (Nat.add_div_right _ hf).symm
      _ ≤ x / f := Nat.div_le_div_right (by omega)
  omega

namespace TSCCalibrator

variable {c : TSCCalibrator}

lemma toNat_cyclesToNs (cycles : UInt64) :
    (c.cyclesToNs cycles).toNat = cycles.toNat * 10 ^ 9 % 2 ^ 64 / c.tscFrequency.toNat := by
  rw [cyclesToNs, UInt64.toNat_div, UInt64.toNat_mul]
  rfl

/-- A conversion is exact if and only if its product fits into 64 bits. -/
lemma cyclesToNs_eq_iff (hf : 0 < c.tscFrequency.toNat) (cycles : UInt64) :
    (c.cyclesToNs cycles).toNat = cycles.toNat * 10 ^ 9 / c.tscFrequency.toNat ↔
      cycles.toNat * 10 ^ 9 < 2 ^ 64 := by
  rw [toNat_cyclesToNs]
  exact mod_div_eq_div_iff hf c.tscFrequency.toNat_lt.le

lemma cyclesToNs_le (hf : 0 < c.tscFrequency.toNat) {a b : UInt64} (hab : a ≤ b)
    (hb : b.toNat * 10 ^ 9 < 2 ^ 64) : c.cyclesToNs a ≤ c.cyclesToNs b := by
  have hle : a.toNat * 10 ^ 9 ≤ b.toNat * 10 ^ 9 :=
    Nat.mul_le_mul_right _ (UInt64.le_iff_toNat_le.mp hab)
  rw [UInt64.le_iff_toNat_le, (cyclesToNs_eq_iff hf a).mpr (lt_of_le_of_lt hle hb),
    (cyclesToNs_eq_iff hf b).mpr hb]
  exact Nat.div_le_div_right hle

/-- The length of an interval is converted exactly if and only if its product fits. -/
lemma interval_eq_iff (hf : 0 < c.tscFrequency.toNat) {start stop : UInt64}
    (hle : start ≤ stop) :
    (c.cyclesToNs (stop - start)).toNat =
        (stop.toNat - start.toNat) * 10 ^ 9 / c.tscFrequency.toNat ↔
      (stop.toNat - start.toNat) * 10 ^ 9 < 2 ^ 64 := by
  rw [← UInt64.toNat_sub_of_le _ _ hle]
  exact cyclesToNs_eq_iff hf _

/-- **When cycles become nanoseconds.**  Two counts are both converted exactly, and in their
order, if and only if the larger one, times a thousand million, is smaller than `2 ^ 64`; and
the length of an interval is reported and recorded exactly under the same condition on the
length.  The frequency does not matter. -/
theorem conversions_exact_iff (hf : 0 < c.tscFrequency.toNat) :
    (∀ a b : UInt64, a ≤ b →
      ((c.cyclesToNs a).toNat = a.toNat * 10 ^ 9 / c.tscFrequency.toNat ∧
          (c.cyclesToNs b).toNat = b.toNat * 10 ^ 9 / c.tscFrequency.toNat ∧
          c.nowNs a ≤ c.nowNs b ↔
        b.toNat * 10 ^ 9 < 2 ^ 64)) ∧
      (∀ start stop : UInt64, start ≤ stop →
        ((c.scopedTimer start stop).toNat =
            (stop.toNat - start.toNat) * 10 ^ 9 / c.tscFrequency.toNat ↔
          (stop.toNat - start.toNat) * 10 ^ 9 < 2 ^ 64)) ∧
      ∀ (t : QueueLatencyTracker) (exchange : Bytes) (queueOccupancy : ℕ)
        (start stop : UInt64), start ≠ 0 → start < stop →
        (t.recordOperation c exchange start stop queueOccupancy =
            t.withSample exchange
              ⟨(stop.toNat - start.toNat) * 10 ^ 9 / c.tscFrequency.toNat, queueOccupancy⟩ ↔
          (stop.toNat - start.toNat) * 10 ^ 9 < 2 ^ 64) := by
  refine ⟨?_, ?_, ?_⟩
  · intro a b hab
    have hle : a.toNat * 10 ^ 9 ≤ b.toNat * 10 ^ 9 :=
      Nat.mul_le_mul_right _ (UInt64.le_iff_toNat_le.mp hab)
    refine ⟨fun h => (cyclesToNs_eq_iff hf b).mp h.2.1, fun hb => ⟨?_, ?_, ?_⟩⟩
    · exact (cyclesToNs_eq_iff hf a).mpr (lt_of_le_of_lt hle hb)
    · exact (cyclesToNs_eq_iff hf b).mpr hb
    · exact cyclesToNs_le hf hab hb
  · intro start stop hle
    exact interval_eq_iff hf hle
  · intro t exchange queueOccupancy start stop hstart hlt
    have hle := UInt64.le_of_lt hlt
    rw [QueueLatencyTracker.recordOperation_eq hstart hlt, ← interval_eq_iff hf hle]
    exact ⟨QueueLatencyTracker.withSample_inj, fun h => by rw [h]⟩

/-- A clock of three thousand million cycles a second, one cycle before its limit and at it. -/
theorem conversions_exact_3000000000 :
    ((⟨3000000000⟩ : TSCCalibrator).cyclesToNs 18446744073).toNat = 6148914691 := by
  have hexact := (conversions_exact_iff (c := ⟨3000000000⟩) (by simp)).1
    18446744073 18446744073 (UInt64.le_refl _)
  exact (hexact.mpr (by simp)).1

/-- One cycle later the clock is back at `0`, and an interval of that many cycles, over six
seconds, is reported as `0` nanoseconds. -/
theorem now_falls_back :
    (⟨3000000000⟩ : TSCCalibrator).nowNs 18446744074 = 0 ∧
      (⟨3000000000⟩ : TSCCalibrator).scopedTimer 1 18446744075 = 0 ∧
      ¬ (⟨3000000000⟩ : TSCCalibrator).nowNs 18446744073 ≤
          (⟨3000000000⟩ : TSCCalibrator).nowNs 18446744074 := by
  decide

end TSCCalibrator

end TickPlant.Latency
