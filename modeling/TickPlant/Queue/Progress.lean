/-
# The MPSC ring buffer is lock-free

A call of `try_push` takes a turn of its loop again only when another item has entered the ring
since it has loaded `tail_`, or when a compare-exchange has failed spuriously.  So its operations
are paid for by the items pushed during the call: a producer that does not get on sees the others
get on.
-/
import TickPlant.Queue.MpscMoves
import TickPlant.Queue.Occupancy

namespace TickPlant.Mpsc

open Lib

variable {P T : Type} {c : RingSize}

/-! ## What a call has paid -/

/-- Of a call that began with `n` items pushed: its `k` operations, `f` of them spurious
failures, are paid for by the `L` items pushed so far. -/
def Paid (n k f L : ℕ) : PushPc T → Prop
  | .loadTail _ => k + 3 * n ≤ 3 * L + 2 * f
  | .loadSeq _ pos => k + 3 * n ≤ 3 * pos + 2 * f + 1
  | .cas _ pos => k + 3 * n ≤ 3 * pos + 2 * f + 2
  | .writeData _ pos => k + 3 * n ≤ 3 * pos + 2 * f + 3
  | .storeSeq _ pos => k + 3 * n ≤ 3 * pos + 2 * f + 4
  | .idle | .returned _ => k + 3 * n ≤ 3 * L + 2 * f + 2

lemma Paid.mono {n k f L L' : ℕ} {pc : PushPc T} (h : Paid n k f L pc) (hle : L ≤ L') :
    Paid n k f L' pc := by
  cases pc <;> simp only [Paid] at h ⊢ <;> omega

lemma Paid.mono_spurious {n k f f' L : ℕ} {pc : PushPc T} (h : Paid n k f L pc) (hle : f ≤ f') :
    Paid n k f' L pc := by
  cases pc <;> simp only [Paid] at h ⊢ <;> omega

/-- The position of a call is one that has been reached. -/
lemma Paid.bound {n k f : ℕ} {s : State P T} {pc : PushPc T} (h : Paid n k f s.pushed.length pc)
    (hok : ProdOk c s pc) : k + 3 * n ≤ 3 * s.pushed.length + 2 * f + 2 := by
  cases pc with
  | loadSeq item pos =>
    have hpos : pos ≤ s.pushed.length := hok
    simp only [Paid] at h
    omega
  | cas item pos =>
    have hpos : pos ≤ s.pushed.length := hok.1
    simp only [Paid] at h
    omega
  | writeData item pos =>
    have hpos := Claimed.lt hok
    simp only [Paid] at h
    omega
  | storeSeq item pos =>
    have hpos := hok.1.lt
    simp only [Paid] at h
    omega
  | _ =>
    simp only [Paid] at h
    omega

/-- A counter ahead of the producer's position: the position has been claimed meanwhile. -/
lemma Inv.claimed_of_ahead {s : State P T} (h : Inv c s) {pos : ℕ}
    (hahead : pos < s.ring.sequence (c.slot pos)) : pos < s.pushed.length := by
  obtain ⟨q, hq, hlt, heq, hseq | ⟨hseq, hclaimed⟩⟩ := h.seq_at pos
  · -- `q` and `pos` share a slot, so the consumer has gone past `pos`
    have hpos : pos < q := by omega
    rw [RingSize.slot_eq, RingSize.slot_eq] at heq
    have hdvd : c.size ∣ q - pos := (Nat.modEq_iff_dvd' hpos.le).mp heq.symm
    have hge := Nat.le_of_dvd (by omega) hdvd
    have := h.reclaimed_le
    omega
  · omega

/-- The three outcomes of the comparison, while the counters stay below `2 ^ 63`. -/
lemma Inv.ahead_of_diff {s : State P T} (h : Inv c s) {pos : ℕ} (hpos : pos ≤ s.pushed.length)
    (hlen : s.pushed.length + c.size ≤ 2 ^ 63)
    (hne : ¬ signedDiff (s.ring.sequence (c.slot pos)) pos = 0)
    (hge : ¬ signedDiff (s.ring.sequence (c.slot pos)) pos < 0) :
    pos < s.ring.sequence (c.slot pos) := by
  have hsize := c.two_le_size
  have hrec := h.reclaimed_le
  obtain ⟨q, -, hlt, -, hseq⟩ := h.seq_at pos
  rw [signedDiff_eq_zero (by omega) (by omega)] at hne
  rw [signedDiff_neg_iff (by omega) (by omega)] at hge
  omega

variable [DecidableEq P]

/-- One operation of the call is paid for. -/
lemma paid_stepPush {n k f : ℕ} {s t : State P T} {p : P} {spurious : Bool} (hinv : Inv c s)
    (hlen : s.pushed.length + c.size ≤ 2 ^ 63) (hs : stepPush c p spurious s = some t)
    (h : Paid n k f s.pushed.length (s.producers p)) :
    Paid n (k + 1) (f + spurious.toNat) t.pushed.length (t.producers p) := by
  have hok := hinv.prod p
  have htail := hinv.tail_eq
  cases move_of_stepPush hs with
  | loadTail hpc =>
    rw [hpc] at h
    simp only [State.setProducer, Function.update_self, Paid, htail] at h ⊢
    omega
  | free hpc =>
    rw [hpc] at h
    simp only [State.setProducer, Function.update_self, Paid] at h ⊢
    omega
  | @full _ _ item pos hpc =>
    rw [hpc] at h hok
    have hpos : pos ≤ s.pushed.length := hok
    simp only [State.setProducer, Function.update_self, Paid] at h ⊢
    omega
  | @behind _ _ item pos hpc hne hge =>
    rw [hpc] at h hok
    have hpos : pos ≤ s.pushed.length := hok
    -- the item that has taken `pos` pays for the turn
    have hclaimed := hinv.claimed_of_ahead (hinv.ahead_of_diff hpos hlen hne hge)
    simp only [State.setProducer, Function.update_self, Paid] at h ⊢
    omega
  | @claim _ item pos hpc =>
    rw [hpc] at h hok
    have hpos : pos ≤ s.pushed.length := hok.1
    simp only [State.claim, Function.update_self, Paid] at h ⊢
    omega
  | @reload _ _ item pos hpc hfail =>
    rw [hpc] at h hok
    have hpos : pos ≤ s.pushed.length := hok.1
    -- the exchange has failed behind another item, or spuriously
    have hcase : pos < s.pushed.length ∨ spurious = true := by
      by_cases hsp : spurious = true
      · exact Or.inr hsp
      · left
        by_contra hge
        exact hfail ⟨by omega, by simpa using hsp⟩
    simp only [State.setProducer, Function.update_self, Paid, htail] at h ⊢
    rcases hcase with hlt | rfl
    · omega
    · rw [Bool.toNat_true]
      omega
  | write hpc =>
    rw [hpc] at h
    simp only [State.write, Function.update_self, Paid] at h ⊢
    omega
  | publish hpc =>
    rw [hpc] at h hok
    have hpos := hok.1.lt
    simp only [State.publish, Function.update_self, Paid] at h ⊢
    omega

/-! ## The operations of a call -/

/-- An operation of the producer `p` in `try_push`. -/
def Action.isOwn (p : P) : Action P T → Bool
  | .push q _ => q = p
  | _ => false

/-- A compare-exchange of the producer `p` that may fail spuriously. -/
def Action.isSpurious (p : P) : Action P T → Bool
  | .push q spurious => q = p && spurious
  | _ => false

/-- The producer `p` calls `try_push`. -/
def Action.isCall (p : P) : Action P T → Bool
  | .callPush q _ => q = p
  | _ => false

/-- What the others do leaves the call where it is. -/
lemma producer_of_other {s t : State P T} {a : Action P T} {p : P} (hs : Step c s a t)
    (hown : a.isOwn p = false) (hcall : a.isCall p = false) : t.producers p = s.producers p := by
  cases a with
  | callPush q item =>
    have hne : p ≠ q := fun heq => by simp [Action.isCall, heq] at hcall
    obtain ⟨rfl, -⟩ := callPush_of_step hs
    exact Function.update_of_ne hne _ _
  | push q spurious =>
    have hne : p ≠ q := fun heq => by simp [Action.isOwn, heq] at hown
    exact (pushMove_of_step hs).2.1 p hne
  | callPop =>
    obtain ⟨rfl, -⟩ := callPop_of_step hs
    rfl
  | pop left => rw [(popMove_of_step hs).2.1]

lemma paid_step {n k f : ℕ} {s t : State P T} {a : Action P T} {p : P} (hinv : Inv c s)
    (hlen : s.pushed.length + c.size ≤ 2 ^ 63) (hs : Step c s a t) (hcall : a.isCall p = false)
    (h : Paid n k f s.pushed.length (s.producers p)) :
    Paid n (k + (a.isOwn p).toNat) (f + (a.isSpurious p).toNat) t.pushed.length
      (t.producers p) := by
  by_cases hown : a.isOwn p = true
  · cases a with
    | push q spurious =>
      obtain rfl : q = p := by simpa [Action.isOwn] using hown
      have hpaid := paid_stepPush hinv hlen hs h
      simpa [Action.isOwn, Action.isSpurious] using hpaid
    | _ => simp [Action.isOwn] at hown
  · rw [Bool.not_eq_true] at hown
    rw [producer_of_other hs hown hcall, hown]
    exact (h.mono (length_le_of_step hs).1).mono_spurious (Nat.le_add_right _ _)

/-- **`try_push` is lock-free.**  In every interleaving, of the operations of one call at most
three are paid for by each item that any producer has pushed during the call, two by each
spurious failure of its own, and two are left over. -/
theorem try_push_progress (c : RingSize) (d : ℕ → T) (as ms : List (Action P T))
    (s₀ s t : State P T) (p : P) (item : T) (hbefore : Run (Step c) (State.init d) as s₀)
    (hstart : Step c s₀ (.callPush p item) s) (hduring : Run (Step c) s ms t)
    (hms : ∀ a ∈ ms, a.isCall p = false) (hlen : t.pushed.length + c.size ≤ 2 ^ 63) :
    ms.countP (Action.isOwn p) ≤
      3 * (t.pushed.length - s.pushed.length) + 2 * ms.countP (Action.isSpurious p) + 2 := by
  have hsize := c.two_le_size
  have hstarted : s.producers p = .loadTail item := by
    obtain ⟨rfl, -⟩ := callPush_of_step hstart
    exact Function.update_self _ _ _
  have hpaid := hduring.trace_invariant
    (I := fun ms u => (∀ a ∈ ms, a.isCall p = false) → u.pushed.length + c.size ≤ 2 ^ 63 →
      Paid s.pushed.length (ms.countP (Action.isOwn p)) (ms.countP (Action.isSpurious p))
        u.pushed.length (u.producers p))
    (fun _ _ => by rw [hstarted]; simp [Paid])
    (fun ms u a v hrun hu hstep hms hlen => by
      have hgrow := (length_le_of_step hstep).1
      have hinv := inv_run ((hbefore.snoc hstart).trans hrun) (by omega)
      have hu := hu (fun b hb => hms b (List.mem_append_left _ hb)) (by omega)
      have hstep := paid_step hinv (by omega) hstep (hms a (by simp)) hu
      simpa [List.countP_append, Bool.toNat, Bool.cond_eq_ite] using hstep) hms hlen
  have hinv := inv_run ((hbefore.snoc hstart).trans hduring) (by omega)
  have hbound := hpaid.bound (hinv.prod p)
  have hgrow := (length_le_of_run hduring).1
  omega

/-- A call that loses a position to another producer. -/
def overtakenCall : List (Action Bool ℕ) :=
  [.push false false, .push false false, .callPush true 8, .push true false, .push true false,
    .push true false, .push false false, .push false false, .push false false, .push false false,
    .push false false]

/-- The state in which it has been made. -/
def atOvertakenCall : State Bool ℕ := (State.init fun _ => 0).setProducer false (.loadTail 7)

/-- The state in which it has returned. -/
def afterOvertakenCall : State Bool ℕ :=
  (overtakenCall.foldlM (step sizeTwo) atOvertakenCall).get (by decide)

theorem try_push_progress_overtaken :
    overtakenCall.countP (Action.isOwn false) = 7 ∧
      overtakenCall.countP (Action.isOwn false) ≤ 3 * (2 - 0) + 2 * 0 + 2 :=
  ⟨by decide, try_push_progress sizeTwo (fun _ => 0) [] overtakenCall (State.init fun _ => 0)
    atOvertakenCall afterOvertakenCall false 7 (.nil _) rfl
    (.of_foldlM (Option.some_get _).symm) (by decide) (by decide)⟩

end TickPlant.Mpsc
