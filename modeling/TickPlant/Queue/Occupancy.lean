/-
# The size of the MPSC ring buffer

`size()` loads `tail_`, then `head_`, and returns their difference as a `size_t`; between
the two loads the producers and the consumer go on.  Two things can carry the difference
out of `0 .. Size`.  The consumer may pop an item that was pushed after `tail_` was loaded:
then `head_` is ahead of the loaded tail and the difference wraps.  And `try_pop` hands a
slot back before it advances `head_`: in between, a producer may claim that slot again, and
`Size + 1` positions lie between the two counters.  In every other call the value is at most
`Size`.
-/
import TickPlant.Queue.MpscFifo

namespace TickPlant.Mpsc

open Lib

variable {P T : Type} {c : RingSize}

/-- `MPSCRingBuffer::size`, with `tail_` loaded in `s₀` and `head_` in `s₁`. -/
def sizeBetween (s₀ s₁ : State P T) : ℕ := wrap (s₀.ring.tail + (2 ^ 64 - s₁.ring.head))

/-- `MPSCRingBuffer::capacity`. -/
def capacity (c : RingSize) : ℕ := c.size

/-- The consumer has popped an item that was pushed after `tail_` was loaded. -/
def Overtaken (s₀ s₁ : State P T) : Prop := s₀.pushed.length < s₁.popped.length

/-- When `tail_` is loaded, the consumer has handed back a slot, the producers have filled
the buffer again, and `head_` is not advanced before it is loaded. -/
def Lagging (c : RingSize) (s₀ s₁ : State P T) : Prop :=
  (∃ pos item, s₀.consumer = .storeHead pos item) ∧
    s₀.pushed.length = s₀.reclaimed + c.size ∧ s₁.popped.length = s₀.popped.length

/-- `head_` is one behind the slots handed back while the consumer is about to store it. -/
lemma Inv.head_lag {s : State P T} (h : Inv c s) :
    s.reclaimed = s.popped.length ∨
      (∃ pos item, s.consumer = .storeHead pos item) ∧ s.reclaimed = s.popped.length + 1 := by
  have hcons := h.cons
  have hhead := h.head_eq
  cases hpc : s.consumer with
  | storeHead pos item =>
    rw [hpc] at hcons
    obtain ⟨hpos, hrec, -⟩ := hcons
    exact Or.inr ⟨⟨pos, item, rfl⟩, by omega⟩
  | loadSeq pos => rw [hpc] at hcons; exact Or.inl (hcons.1.symm.trans hhead)
  | readData pos => rw [hpc] at hcons; exact Or.inl (hcons.1.symm.trans hhead)
  | storeSeq pos item => rw [hpc] at hcons; exact Or.inl (hcons.1.symm.trans hhead)
  | _ => rw [hpc] at hcons; exact Or.inl (hcons.symm.trans hhead)

/-- A consumer about to store `head_` has handed back one slot more than it has returned. -/
lemma Inv.reclaimed_of_storeHead {s : State P T} (h : Inv c s) {pos : ℕ} {item : T}
    (hpc : s.consumer = .storeHead pos item) : s.reclaimed = s.popped.length + 1 := by
  have hcons := h.cons
  rw [hpc] at hcons
  obtain ⟨hpos, hrec, -⟩ := hcons
  rw [hrec, ← hpos, h.head_eq]

/-- The two loads differ by at most `Size`, up to the lag of `head_`. -/
lemma Inv.pushed_le {s : State P T} (h : Inv c s) :
    s.pushed.length ≤ s.popped.length + c.size + 1 := by
  have hle := h.claimed_le
  rcases h.head_lag with hrec | ⟨-, hrec⟩ <;> omega

/-- More than `Size` positions lie between the counters only while `head_` lags behind a
refilled buffer. -/
lemma Inv.refilled {s : State P T} (h : Inv c s)
    (hlt : s.popped.length + c.size < s.pushed.length) :
    (∃ pos item, s.consumer = .storeHead pos item) ∧
      s.pushed.length = s.reclaimed + c.size := by
  have hle := h.claimed_le
  rcases h.head_lag with hrec | ⟨hpc, hrec⟩
  · omega
  · exact ⟨hpc, by omega⟩

/-- The difference of two words, the first not below the second. -/
lemma wrap_sub_of_le {a b : ℕ} (hle : b ≤ a) (ha : a < 2 ^ 64) :
    wrap (a + (2 ^ 64 - b)) = a - b := by
  rw [wrap]
  omega

/-- The difference of two words below `2 ^ 63`, the first below the second. -/
lemma wrap_sub_of_lt {a b : ℕ} (hlt : a < b) (hb : b < 2 ^ 63) :
    2 ^ 63 < wrap (a + (2 ^ 64 - b)) := by
  rw [wrap]
  omega

variable [DecidableEq P]

/-- The histories only grow along a run. -/
lemma length_le_of_run {s t : State P T} {as : List (Action P T)} (hrun : Run (Step c) s as t) :
    s.pushed.length ≤ t.pushed.length ∧ s.popped.length ≤ t.popped.length :=
  hrun.invariant
    (I := fun u => s.pushed.length ≤ u.pushed.length ∧ s.popped.length ≤ u.popped.length)
    ⟨le_rfl, le_rfl⟩ fun _ _ _ h hs =>
      ⟨h.1.trans (length_le_of_step hs).1, h.2.trans (length_le_of_step hs).2⟩

/-- **When `size()` stays within the capacity.**  In every interleaving with fewer than
`2 ^ 63` successful pushes, the value that `size()` returns is at most `Size` unless the
consumer overtakes the loaded tail, or lags behind a refilled buffer. -/
theorem size_le_capacity_iff (c : RingSize) (d : ℕ → T) (as bs : List (Action P T))
    (s₀ s₁ : State P T) (hrun : Run (Step c) (State.init d) as s₀)
    (hbetween : Run (Step c) s₀ bs s₁) (hlen : s₁.pushed.length < 2 ^ 63) :
    sizeBetween s₀ s₁ ≤ capacity c ↔ ¬ Overtaken s₀ s₁ ∧ ¬ Lagging c s₀ s₁ := by
  obtain ⟨hpushed, hpopped⟩ := length_le_of_run hbetween
  have h₀ : Inv c s₀ := inv_run hrun (by omega)
  have h₁ : Inv c s₁ := inv_run (hrun.trans hbetween) hlen
  have hret : s₁.popped.length ≤ s₁.pushed.length := h₁.popped_le.length_le
  have hsize := c.size_le
  rw [sizeBetween, capacity, h₀.tail_eq, h₁.head_eq]
  by_cases hover : s₀.pushed.length < s₁.popped.length
  · -- the counters are in the wrong order and the difference wraps
    have hwrap := wrap_sub_of_lt hover (by omega)
    exact iff_of_false (by omega) fun h => h.1 hover
  rw [wrap_sub_of_le (by omega) (by omega)]
  constructor
  · rintro hle
    refine ⟨hover, ?_⟩
    rintro ⟨⟨pos, item, hpc⟩, hfull, hsame⟩
    have hrec := h₀.reclaimed_of_storeHead hpc
    omega
  · rintro ⟨-, hlag⟩
    by_contra hlt
    obtain ⟨hpc, hfull⟩ := h₀.refilled (by omega)
    have hle := h₀.pushed_le
    exact hlag ⟨hpc, hfull, by omega⟩

/-- A buffer of size `2` is filled, the consumer hands back the first slot, and a third item
takes it before `head_` is stored. -/
def refillBehindHead : List (Action Bool ℕ) :=
  [.callPush false 7, .push false false, .push false false, .push false false,
    .push false false, .push false false, .callPush false 8, .push false false,
    .push false false, .push false false, .push false false, .push false false,
    .callPop, .pop 0, .pop 0, .pop 0, .pop 0, .callPush false 9, .push false false,
    .push false false, .push false false, .push false false, .push false false]

/-- The state after `refillBehindHead`. -/
def afterRefill : State Bool ℕ :=
  (refillBehindHead.foldlM (step sizeTwo) (State.init fun _ => 0)).get (by decide)

/-- A call of `size()` that stands alone at this moment returns `3`. -/
theorem size_after_refill :
    sizeBetween afterRefill afterRefill = 3 ∧
      (sizeBetween afterRefill afterRefill ≤ capacity sizeTwo ↔
        ¬ Overtaken afterRefill afterRefill ∧ ¬ Lagging sizeTwo afterRefill afterRefill) :=
  ⟨by decide, size_le_capacity_iff sizeTwo (fun _ => 0) refillBehindHead [] afterRefill
    afterRefill (Run.of_foldlM (Option.some_get _).symm) (.nil _) (by decide)⟩

/-- One producer pushes `7` and the consumer pops it. -/
def pushThenPop : List (Action Bool ℕ) :=
  [.callPush false 7, .push false false, .push false false, .push false false,
    .push false false, .push false false, .callPop, .pop 0, .pop 0, .pop 0, .pop 0, .pop 0]

/-- The state after `pushThenPop`. -/
def afterPushThenPop : State Bool ℕ :=
  (pushThenPop.foldlM (step sizeTwo) (State.init fun _ => 0)).get (by decide)

/-- While a push and the pop of its item fall between the two loads, `size()` returns
`2 ^ 64 - 1`. -/
theorem size_exceeds_capacity :
    ¬ ∀ (c : RingSize) (d : ℕ → ℕ) (as bs : List (Action Bool ℕ)) (s₀ s₁ : State Bool ℕ),
      Run (Step c) (State.init d) as s₀ → Run (Step c) s₀ bs s₁ →
        sizeBetween s₀ s₁ ≤ capacity c := by
  intro hclaim
  have hle := hclaim sizeTwo (fun _ => 0) [] pushThenPop (State.init fun _ => 0)
    afterPushThenPop (.nil _) (Run.of_foldlM (Option.some_get _).symm)
  revert hle
  decide

end TickPlant.Mpsc
