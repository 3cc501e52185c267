/-
# What the MPSC ring buffer guarantees

In every interleaving with fewer than `2 ^ 63` successful pushes, `try_pop` returns the
items in the order their compare-exchange succeeded, without loss or repetition, and no
producer writes into a slot whose item has not been consumed.  A producer is refused only
when `Size` claimed positions have not been handed back, provided the number of pushes and
`Size` together stay within `2 ^ 63`.

The last proviso is needed.  A producer that has loaded `tail_` and is then suspended while
the others push and pop finds a counter that is ahead of its position; the signed
difference reads "ahead" only up to `2 ^ 63 - 1`.  With `Size = 2`, a producer suspended at
position `0` during `2 ^ 63 - 1` pushes finds the counter `2 ^ 63` and is refused by an
empty buffer.
-/
import TickPlant.Queue.MpscInv
import TickPlant.Queue.Sequential

namespace TickPlant.Mpsc

open Lib

variable {P T : Type} {c : RingSize}

/-- The number of items that the consumer has read out of the buffer. -/
def State.taken (s : State P T) : ℕ :=
  match s.consumer with
  | .storeSeq _ _ => s.reclaimed + 1
  | _ => s.reclaimed

/-- The slot `i` holds an item that has been written and not been read out. -/
def HoldsUnconsumed (c : RingSize) (s : State P T) (i : ℕ) : Prop :=
  ∃ q, c.slot q = i ∧ s.taken ≤ q ∧ q < s.pushed.length ∧
    (s.ring.sequence i = q + 1 ∨ ∃ p item, s.producers p = .storeSeq item q)

/-- `Size` claimed positions have not been handed back. -/
def Full (c : RingSize) (s : State P T) : Prop := s.reclaimed + c.size ≤ s.pushed.length

lemma reclaimed_le_taken (s : State P T) : s.reclaimed ≤ s.taken := by
  rw [State.taken]
  split
  · exact Nat.le_succ _
  · exact le_rfl

/-- A producer writes only into slots whose items have been consumed. -/
lemma Inv.write_exclusive {s : State P T} (h : Inv c s) {p : P} {item : T} {pos : ℕ}
    (hpc : s.producers p = .writeData item pos) : ¬ HoldsUnconsumed c s (c.slot pos) := by
  rintro ⟨q, hslot, htaken, hq, hwritten⟩
  have hcl : Claimed c s item pos := by
    have hok := h.prod p
    rw [hpc] at hok
    exact hok
  have hle := h.claimed_le
  have hlt := hcl.lt
  have hqpos : q = pos :=
    RingSize.slot_inj (le_trans (reclaimed_le_taken s) htaken) hcl.1 (by omega) (by omega) hslot
  subst hqpos
  rcases hwritten with hseq | ⟨p', item', hp'⟩
  · have := hcl.2.2
    omega
  · have : p' = p := h.writers_inj p' p q (by rw [hp']; rfl) (by rw [hpc]; rfl)
    rw [this, hpc] at hp'
    exact absurd hp' (by simp)

/-- A counter behind the producer's position is that of an unreclaimed round. -/
lemma Inv.full_of_seq_lt {s : State P T} (h : Inv c s) {pos : ℕ} (hpos : pos ≤ s.pushed.length)
    (hseq : s.ring.sequence (c.slot pos) < pos) : Full c s := by
  obtain ⟨q, hq, hlt, heq, hcase⟩ := h.seq_at pos
  have hqpos : q < pos := by omega
  -- `q` and `pos` share a slot, so they are at least `Size` apart
  rw [RingSize.slot_eq, RingSize.slot_eq] at heq
  have hdvd : c.size ∣ pos - q := (Nat.modEq_iff_dvd' hqpos.le).mp heq
  have hge := Nat.le_of_dvd (by omega) hdvd
  rw [Full]
  omega

variable [DecidableEq P]

/-- `try_push` returns `false` only from its load of a slot's counter. -/
lemma refused_cases {s t : State P T} {a : Action P T} {p : P} (hs : Step c s a t)
    (hbefore : s.producers p ≠ .returned false) (hafter : t.producers p = .returned false) :
    ∃ item pos, s.producers p = .loadSeq item pos ∧
      signedDiff (s.ring.sequence (c.slot pos)) pos < 0 := by
  -- a producer whose call has not ended with this step cannot be `p`
  have hother : ∀ {p' : P} {pc : PushPc T}, pc ≠ .returned false →
      Function.update s.producers p' pc p ≠ .returned false := by
    intro p' pc hpc
    by_cases hp : p = p'
    · rw [hp, Function.update_self]; exact hpc
    · rw [Function.update_of_ne hp]; exact hbefore
  cases move_of_step hs with
  | @full p' spurious item pos hpc hneg =>
    by_cases hp : p = p'
    · rw [hp]
      exact ⟨item, pos, hpc, hneg⟩
    · have hsame : (s.setProducer p' (.returned false)).producers p = s.producers p :=
        Function.update_of_ne hp _ _
      rw [hsame] at hafter
      exact absurd hafter hbefore
  | callPush | loadTail | free | behind | claim | reload | write | publish =>
    exact absurd hafter (hother (by simp))
  | _ => exact absurd hafter hbefore

/-- **The MPSC ring buffer is a FIFO queue.**  In every state of every interleaving with
fewer than `2 ^ 63` successful pushes, the items returned by `try_pop` are the first of the
pushed ones in claim order, and no producer is about to write into a slot that holds an
unconsumed item.  As long as the pushes and `Size` together stay within `2 ^ 63`, a step at
which `try_push` returns `false` is taken in a full buffer. -/
theorem mpsc_fifo (c : RingSize) (d : ℕ → T) (as : List (Action P T)) (s : State P T)
    (hrun : Run (Step c) (State.init d) as s) (hlen : s.pushed.length < 2 ^ 63) :
    s.popped <+: s.pushed ∧
      (∀ p item pos, s.producers p = .writeData item pos →
        ¬ HoldsUnconsumed c s (c.slot pos)) ∧
      (s.pushed.length + c.size ≤ 2 ^ 63 →
        ∀ p a t, Step c s a t → s.producers p ≠ .returned false →
          t.producers p = .returned false → Full c s) := by
  have h : Inv c s := inv_run hrun hlen
  refine ⟨h.popped_le, fun p item pos hpc => h.write_exclusive hpc, ?_⟩
  intro hsum p a t hs hbefore hafter
  obtain ⟨item, pos, hpc, hneg⟩ := refused_cases hs hbefore hafter
  have hpos : pos ≤ s.pushed.length := by
    have hok := h.prod p
    rw [hpc] at hok
    exact hok
  have hle := h.reclaimed_le
  have hseq : s.ring.sequence (c.slot pos) < 2 ^ 63 := by
    obtain ⟨q, -, hlt, -, hcase⟩ := h.seq_at pos
    have := c.two_le_size
    omega
  rw [signedDiff_neg_iff hseq (by omega)] at hneg
  exact h.full_of_seq_lt hpos hneg

/-- Two producers race for position `0`.  The one that loses publishes first, so the consumer finds
nothing, and then the buffer of two slots is full for a third call. -/
def race : List (Action Bool ℕ) :=
  [.callPush false 7, .callPush true 8, .push false false, .push true false, .push false false,
    .push true false, .push true false, .push false false, .push false false, .push false false,
    .push false false, .push false false, .callPop, .pop 0, .pop 0, .push true false,
    .push true false, .callPush false 9, .push false false]

/-- The state before the third call is refused. -/
def afterRace : State Bool ℕ :=
  (race.foldlM (step sizeTwo) (State.init fun _ => 0)).get (by decide)

/-- The call is refused, and the consumer pops both items. -/
def raceAndPops : List (Action Bool ℕ) :=
  race ++ .push false false :: (List.replicate 2 (.callPop :: List.replicate 5 (.pop 0))).flatten

/-- The state after that. -/
def afterRaceAndPops : State Bool ℕ :=
  (raceAndPops.foldlM (step sizeTwo) (State.init fun _ => 0)).get (by decide)

/-- The guarantees: the buffer was full, and the items are popped in the order of the
compare-exchanges. -/
theorem mpsc_fifo_twoProducers :
    Full sizeTwo afterRace ∧ afterRaceAndPops.popped = [8, 7] ∧
      afterRaceAndPops.popped <+: afterRaceAndPops.pushed := by
  have hrefused : (step sizeTwo afterRace (.push false false)).isSome := by decide
  obtain ⟨t, ht⟩ := Option.isSome_iff_exists.mp hrefused
  have hbefore : afterRace.producers false ≠ .returned false := by decide
  have hafter : (step sizeTwo afterRace (.push false false)).map (·.producers false) =
      some (.returned false) := by decide
  rw [ht] at hafter
  refine ⟨(mpsc_fifo sizeTwo (fun _ => 0) race afterRace (Run.of_foldlM (Option.some_get _).symm)
    (by decide)).2.2 (by decide) false _ t ht hbefore (Option.some.inj hafter), by decide, ?_⟩
  exact (mpsc_fifo sizeTwo (fun _ => 0) raceAndPops afterRaceAndPops
    (Run.of_foldlM (Option.some_get _).symm) (by decide)).1

/-! ## A suspended producer -/

/-- One producer is suspended with position `0`; the other and the consumer stand outside
any call, and everything that was pushed has been popped. -/
structure Suspended (s : State Bool Unit) (n : ℕ) : Prop where
  reached : ∃ as, Run (Step sizeTwo) (State.init fun _ => ()) as s
  suspended : s.producers true = .loadSeq () 0
  other : (s.producers false).Quiet
  consumer : s.consumer.Quiet
  empty : Represents sizeTwo s.ring []
  pushed : s.pushed.length = n
  reclaimed : s.reclaimed = n

lemma suspended_zero : ∃ s, Suspended s 0 := by
  refine ⟨(State.init fun _ => ()).setProducer true (.loadSeq () 0), ?_⟩
  refine ⟨⟨[.callPush true (), .push true false], .of_foldlM ?_⟩, rfl, Or.inl rfl, Or.inl rfl,
    represents_init _ _, rfl, rfl⟩
  simp [step, stepPush, State.init, State.setProducer]

/-- The running producer pushes and the consumer pops once more. -/
lemma suspended_succ {s : State Bool Unit} {n : ℕ} (h : Suspended s n) :
    ∃ t, Suspended t (n + 1) := by
  obtain ⟨as, hrun⟩ := h.reached
  obtain ⟨r, hpush, hpos, hr⟩ := h.empty.tryPush 0 ()
  obtain ⟨r', hpop, hr'⟩ := hr.tryPop_cons id
  obtain ⟨bs, hpushed⟩ := tryPush_run h.other hpush
  obtain ⟨cs, hpopped⟩ := tryPop_run (s := s.pushedAlone false () true r) h.consumer hpop
  refine ⟨_, ⟨_, (hrun.trans hpushed).trans hpopped⟩, ?_, Or.inr ⟨true, ?_⟩, Or.inr ⟨_, rfl⟩,
    ⟨_, hr'⟩, ?_, ?_⟩
  · simpa [State.pushedAlone, State.poppedAlone] using h.suspended
  · simp [State.pushedAlone, State.poppedAlone]
  · simp [State.pushedAlone, State.poppedAlone, h.pushed]
  · simp [State.pushedAlone, State.poppedAlone, h.reclaimed]

lemma exists_suspended (n : ℕ) : ∃ s, Suspended s n := by
  induction n with
  | zero => exact suspended_zero
  | succ n ih =>
    obtain ⟨s, hs⟩ := ih
    exact suspended_succ hs

/-- A producer suspended at position `0` during `2 ^ 63 - 1` pushes is refused by an empty
buffer of size `2`: the counter it then reads is `2 ^ 63`, negative as a signed value. -/
theorem stale_producer_refused :
    ¬ ∀ (c : RingSize) (d : ℕ → Unit) (as : List (Action Bool Unit)) (s : State Bool Unit),
      Run (Step c) (State.init d) as s → s.pushed.length < 2 ^ 63 →
      ∀ p a t, Step c s a t → s.producers p ≠ .returned false →
        t.producers p = .returned false → Full c s := by
  intro hclaim
  obtain ⟨s, hs⟩ := exists_suspended (2 ^ 63 - 1)
  obtain ⟨as, hrun⟩ := hs.reached
  have hlen : s.pushed.length < 2 ^ 63 := by rw [hs.pushed]; norm_num
  have hinv : Inv sizeTwo s := inv_run hrun hlen
  have hseq : s.ring.sequence (sizeTwo.slot 0) = 2 ^ 63 := by
    have hslot : sizeTwo.slot (2 ^ 63) = sizeTwo.slot 0 := by
      rw [RingSize.slot_eq, RingSize.slot_eq]; rfl
    have hwin : 2 ^ 63 < s.reclaimed + sizeTwo.size := by
      rw [hs.reclaimed]; decide
    rcases hinv.slots (2 ^ 63) (by rw [hs.reclaimed]; norm_num) hwin with h | ⟨-, hlt, -⟩
    · rw [← hslot]; exact h
    · exact absurd hlt (by omega)
  have hdiff : signedDiff (2 ^ 63) 0 = -2 ^ 63 := by decide
  have hstep : Step sizeTwo s (.push true false) (s.setProducer true (.returned false)) := by
    simp only [Step, step, stepPush, hs.suspended, hseq, hdiff]
    rfl
  have hfull : Full sizeTwo s :=
    hclaim sizeTwo (fun _ => ()) as s hrun hlen true _ _ hstep (by rw [hs.suspended]; simp)
      (by simp [State.setProducer])
  rw [Full, hs.reclaimed, hs.pushed] at hfull
  have := sizeTwo.two_le_size
  omega

end TickPlant.Mpsc
