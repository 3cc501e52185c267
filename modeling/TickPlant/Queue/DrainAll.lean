/-
# What a call of `drain_all` brings

A position of the ring that has been claimed and not been published is one that some producer
still writes.  So `try_pop` finds nothing ready only where no position is claimed or at a push in
progress, and a call of `drain_all` returns everything accepted before the first such push.
-/
import TickPlant.Queue.Conservation

namespace TickPlant

open Lib

/-! ## Who writes an unpublished position -/

namespace Mpsc

variable {P T : Type} {c : RingSize}

/-- Every claimed position that is not published has a producer that writes it. -/
def Owned (c : RingSize) (s : State P T) : Prop :=
  ∀ q, s.reclaimed ≤ q → q < s.pushed.length → s.ring.sequence (c.slot q) = q →
    ∃ p, Writes (s.producers p) q

lemma owned_init (c : RingSize) (d : ℕ → T) : Owned c (State.init d : State P T) :=
  fun q _ hq => absurd hq (Nat.not_lt_zero q)

/-- A step that neither claims, publishes nor hands back a position. -/
lemma Owned.of_keep {s t : State P T} (h : Owned c s) (hpushed : t.pushed = s.pushed)
    (hreclaimed : t.reclaimed = s.reclaimed) (hseq : t.ring.sequence = s.ring.sequence)
    (hwrites : ∀ p q, Writes (s.producers p) q → Writes (t.producers p) q) : Owned c t := by
  intro q hq hlt hs
  rw [hreclaimed] at hq
  rw [hpushed] at hlt
  rw [hseq] at hs
  obtain ⟨p, hp⟩ := h q hq hlt hs
  exact ⟨p, hwrites p q hp⟩

/-- The position that the consumer looks at is published if it is claimed and nobody writes
it. -/
lemma Inv.published {s : State P T} (h : Inv c s) (ho : Owned c s)
    (hlt : s.reclaimed < s.pushed.length)
    (hno : ∀ p, ¬ Writes (s.producers p) s.reclaimed) :
    s.ring.sequence (c.slot s.reclaimed) = s.reclaimed + 1 := by
  have hsize := c.two_le_size
  rcases h.slots s.reclaimed le_rfl (by omega) with hs | ⟨hs, -, -⟩
  · obtain ⟨p, hp⟩ := ho s.reclaimed le_rfl hlt hs
    exact absurd hp (hno p)
  · exact hs

variable [DecidableEq P]

lemma writes_self {f : P → PushPc T} {p : P} {pc : PushPc T} {q : ℕ} (h : Writes pc q) :
    Writes (Function.update f p pc p) q := by
  rwa [Function.update_self]

lemma writes_of_ne {f : P → PushPc T} {p p' : P} {pc : PushPc T} {q : ℕ} (hne : p' ≠ p)
    (h : Writes (f p') q) : Writes (Function.update f p pc p') q := by
  rwa [Function.update_of_ne hne]

lemma Owned.setProducer {s : State P T} (h : Owned c s) {p : P} {pc : PushPc T}
    (hpc : ∀ q, ¬ Writes (s.producers p) q) : Owned c (s.setProducer p pc) := by
  refine h.of_keep rfl rfl rfl fun p' q hw => ?_
  have hne : p' ≠ p := by
    rintro rfl
    exact hpc q hw
  exact writes_of_ne hne hw

lemma Owned.claim {s : State P T} (h : Owned c s) {p : P} {item : T}
    (hpc : s.producers p = .cas item s.pushed.length) : Owned c (s.claim p item s.pushed.length) := by
  intro q hq hlt hs
  by_cases hqp : q = s.pushed.length
  · exact ⟨p, writes_self hqp.symm⟩
  · have hlt' : q < (s.pushed ++ [item]).length := hlt
    rw [List.length_append, List.length_singleton] at hlt'
    obtain ⟨p', hp'⟩ := h q hq (by omega) hs
    have hne : p' ≠ p := by
      rintro rfl
      rw [hpc] at hp'
      exact hp'
    exact ⟨p', writes_of_ne hne hp'⟩

lemma Owned.write {s : State P T} (h : Owned c s) {p : P} {item : T} {pos : ℕ}
    (hpc : s.producers p = .writeData item pos) : Owned c (s.write c p item pos) := by
  refine h.of_keep rfl rfl rfl fun p' q hw => ?_
  by_cases hp : p' = p
  · rw [hp, hpc] at hw
    rw [hp]
    exact writes_self hw
  · exact writes_of_ne hp hw

lemma Owned.publish {s : State P T} (h : Owned c s) (hinv : Inv c s) {p : P} {item : T} {pos : ℕ}
    (hpc : s.producers p = .storeSeq item pos) (hlen : s.pushed.length < 2 ^ 63) :
    Owned c (s.publish c p pos) := by
  obtain ⟨hclaimed, -⟩ : Claimed c s item pos ∧ s.ring.data (c.slot pos) = item := by
    have hok := hinv.prod p
    rw [hpc] at hok
    exact hok
  have hpos := hclaimed.lt
  have hwindow := hinv.claimed_le
  intro q hq hlt hs
  have hlt' : q < s.pushed.length := hlt
  have hs' : Function.update s.ring.sequence (c.slot pos) (wrap (pos + 1)) (c.slot q) = q := hs
  have hne : q ≠ pos := by
    rintro rfl
    rw [Function.update_self, wrap_of_lt (by omega)] at hs'
    omega
  have hge : s.reclaimed ≤ q := hq
  rw [Function.update_of_ne (hinv.slot_ne hge hclaimed.1 (by omega) hpos hne)] at hs'
  obtain ⟨p', hp'⟩ := h q hq hlt' hs'
  have hp : p' ≠ p := by
    rintro rfl
    rw [hpc] at hp'
    exact hne hp'.symm
  exact ⟨p', writes_of_ne hp hp'⟩

omit [DecidableEq P] in
lemma Owned.reclaim {s : State P T} (h : Owned c s) (hinv : Inv c s) {pos : ℕ} {item : T}
    (hpc : s.consumer = .storeSeq pos item) : Owned c (s.reclaim c pos item) := by
  obtain ⟨-, hpos, hseq, -⟩ : s.ring.head = s.reclaimed ∧ pos = s.reclaimed ∧
      s.ring.sequence (c.slot s.reclaimed) = s.reclaimed + 1 ∧
      s.pushed[s.reclaimed]? = some item := by
    have hok := hinv.cons
    rw [hpc] at hok
    exact hok
  have hwindow := hinv.claimed_le
  intro q hq hlt hs
  have hq' : s.reclaimed + 1 ≤ q := hq
  have hlt' : q < s.pushed.length := hlt
  have hs' : Function.update s.ring.sequence (c.slot pos) (wrap (pos + c.size)) (c.slot q) = q := hs
  have hne : c.slot q ≠ c.slot pos := by
    rw [hpos]
    exact hinv.slot_ne (by omega) le_rfl (by omega) (hinv.lt_of_published hseq) (by omega)
  rw [Function.update_of_ne hne] at hs'
  exact h q (by omega) hlt' hs'

lemma owned_step {s t : State P T} {a : Action P T} (h : Owned c s) (hinv : Inv c s)
    (hs : Step c s a t) (hlen : t.pushed.length < 2 ^ 63) : Owned c t := by
  have hgrow := (length_le_of_step hs).1
  cases move_of_step hs with
  | callPush hquiet =>
    refine h.setProducer fun q hw => ?_
    rcases hquiet with hpc | ⟨ok, hpc⟩ <;> rw [hpc] at hw <;> exact hw
  | loadTail hpc => exact h.setProducer fun q hw => by rw [hpc] at hw; exact hw
  | free hpc => exact h.setProducer fun q hw => by rw [hpc] at hw; exact hw
  | full hpc => exact h.setProducer fun q hw => by rw [hpc] at hw; exact hw
  | behind hpc => exact h.setProducer fun q hw => by rw [hpc] at hw; exact hw
  | claim hpc htail =>
    -- the exchange succeeds, so the position claimed is the next one
    obtain rfl := hinv.tail_eq.symm.trans htail
    exact h.claim hpc
  | reload hpc => exact h.setProducer fun q hw => by rw [hpc] at hw; exact hw
  | write hpc => exact h.write hpc
  | publish hpc => exact h.publish hinv hpc (by omega)
  | reclaim hpc => exact h.reclaim hinv hpc
  -- the other operations of the consumer write no sequence number
  | callPop | loadHead | empty | found | take | advance =>
    exact h.of_keep rfl rfl rfl fun _ _ hw => hw

lemma owned_run {d : ℕ → T} {as : List (Action P T)} {s : State P T}
    (hrun : Run (Step c) (State.init d) as s) : s.pushed.length < 2 ^ 63 → Owned c s :=
  hrun.trace_invariant (I := fun _ s => s.pushed.length < 2 ^ 63 → Owned c s)
    (fun _ => owned_init c d) fun _ _ _ _ hrun hs hstep hlen => by
      have hgrow := (length_le_of_step hstep).1
      exact owned_step (hs (by omega)) (inv_run hrun (by omega)) hstep hlen

/-! ## Pushes in progress -/

/-- At least `n` items are accepted, and every push still between its claim and its publication
is for a later one. -/
def Settled (n : ℕ) (s : State P T) : Prop :=
  n ≤ s.pushed.length ∧ ∀ p pos, Writes (s.producers p) pos → n ≤ pos

lemma pushed_initial {s t : State P T} {a : Action P T} (hs : Step c s a t) :
    s.pushed <+: t.pushed := by
  cases move_of_step hs with
  | claim => exact List.prefix_append _ _
  | _ => exact List.prefix_rfl

lemma settled_step {n : ℕ} {s t : State P T} {a : Action P T} (hinv : Inv c s)
    (hs : Step c s a t) (h : Settled n s) : Settled n t := by
  obtain ⟨hlen, hwrites⟩ := h
  refine ⟨hlen.trans (length_le_of_step hs).1, fun p' pos hw => ?_⟩
  have hset : ∀ {p : P} {pc : PushPc T}, Writes (Function.update s.producers p pc p') pos →
      (Writes pc pos → n ≤ pos) → n ≤ pos := by
    intro p pc hw hpc
    by_cases hp : p' = p
    · rw [hp, Function.update_self] at hw
      exact hpc hw
    · rw [Function.update_of_ne hp] at hw
      exact hwrites p' pos hw
  cases move_of_step hs with
  | claim hpc htail =>
    -- the position claimed is behind all that is accepted
    refine hset hw fun hpos => ?_
    obtain rfl := (hinv.tail_eq.symm.trans htail).trans hpos
    exact hlen
  | @write p _ item pos' hpc =>
    exact hset hw fun hpos => hwrites p pos (by rw [hpc]; exact hpos)
  | callPush | loadTail | free | full | behind | reload | publish =>
    exact hset hw False.elim
  | _ => exact hwrites p' pos hw

omit [DecidableEq P] in
lemma empty_of_stepPop {s t : State P T} {left : T} {pos : ℕ} (hpc : s.consumer = .loadSeq pos)
    (hs : stepPop c left s = some t) (hnone : t.consumer = .returned none) :
    signedDiff (s.ring.sequence (c.slot pos)) (wrap (pos + 1)) < 0 := by
  rw [stepPop, hpc] at hs
  dsimp only at hs
  split at hs
  · assumption
  · obtain rfl := Option.some.inj hs
    exact absurd hnone (by simp [State.setConsumer])

omit [DecidableEq P] in
/-- `try_pop` finds nothing only when everything settled has been returned. -/
lemma Settled.le_popped {n : ℕ} {s t : State P T} {left : T} (h : Settled n s) (hinv : Inv c s)
    (ho : Owned c s) (hlen : s.pushed.length < 2 ^ 63) {pos : ℕ} (hpc : s.consumer = .loadSeq pos)
    (hs : stepPop c left s = some t) (hnone : t.consumer = .returned none) :
    n ≤ s.popped.length := by
  obtain ⟨hhead, rfl⟩ : s.ring.head = s.reclaimed ∧ pos = s.reclaimed := by
    have hok := hinv.cons
    rw [hpc] at hok
    exact hok
  by_contra hlt
  have hrec : s.reclaimed = s.popped.length := hhead.symm.trans hinv.head_eq
  have hpublished := hinv.published ho (by have := h.1; omega) fun p hw => by
    have := h.2 p _ hw
    omega
  have hdiff := empty_of_stepPop hpc hs hnone
  rw [hpublished, wrap_of_lt (by have := h.1; omega)] at hdiff
  exact (signedDiff_consumer (by have := h.1; omega)).2 hdiff

end Mpsc

/-! ## The call -/

namespace Tickers

variable {P : Type} [DecidableEq P]

lemma settled_step {n : ℕ} {s t : State P} {l : Label P} (hinv : Mpsc.Inv queueSize s.queue)
    (hs : Step s l t) (h : Mpsc.Settled n s.queue) : Mpsc.Settled n t.queue := by
  rcases ring_step hs with heq | ⟨a, ha⟩
  · rwa [heq]
  · exact Mpsc.settled_step hinv ha h

/-- In a call of `drain_all` that started after `counts` had been returned: once it is over,
everything settled has been popped. -/
structure InCall (n : ℕ) (counts : List ℕ) (s : State P) : Prop where
  settled : Mpsc.Settled n s.queue
  busy : s.reader ≠ .idle → s.counts = counts
  finished : s.reader = .idle → n ≤ s.queue.popped.length ∧ ∃ k, s.counts = counts ++ [k]

omit [DecidableEq P] in
/-- A step of a feed leaves the call where it is. -/
lemma InCall.frame {n : ℕ} {counts : List ℕ} {s t : State P} (h : InCall n counts s)
    (hsettled : Mpsc.Settled n t.queue) (hreader : t.reader = s.reader)
    (hcounts : t.counts = s.counts) (hpopped : t.queue.popped = s.queue.popped) :
    InCall n counts t := by
  refine ⟨hsettled, fun hbusy => ?_, fun hidle => ?_⟩
  · rw [hcounts]
    exact h.busy (hreader ▸ hbusy)
  · rw [hcounts, hpopped]
    exact h.finished (hreader ▸ hidle)

/-- A step of `try_pop` in the call: it ends only when nothing settled is left. -/
lemma InCall.popping {n count : ℕ} {counts : List ℕ} {s : State P} (h : InCall n counts s)
    (hinv : Mpsc.Inv queueSize s.queue) (ho : Mpsc.Owned queueSize s.queue)
    (hlen : s.queue.pushed.length < 2 ^ 63) {left : TickerData} {queue : Mpsc.State P TickerData}
    (hpc : s.reader = .popping count) (hqueue : Mpsc.Step queueSize s.queue (.pop left) queue) :
    InCall n counts (s.afterPop count queue) := by
  have hsettled : Mpsc.Settled n queue := Mpsc.settled_step hinv hqueue h.settled
  have hcounts : s.counts = counts := h.busy (by simp [hpc])
  obtain ⟨hmove, -⟩ := Mpsc.popMove_of_step hqueue
  rw [State.afterPop]
  split
  · rename_i hnone
    refine ⟨hsettled, fun hbusy => absurd rfl hbusy, fun _ => ?_⟩
    rw [hnone] at hmove
    generalize hq : s.queue.consumer = pc at hmove
    generalize hp : s.queue.popped = popped at hmove
    generalize hp' : queue.popped = popped' at hmove
    cases hmove with
    | go _ hbusy => exact absurd (Or.inr ⟨none, rfl⟩) hbusy
    | empty =>
      have hle := h.settled.le_popped hinv ho hlen hq hqueue hnone
      refine ⟨?_, count, by rw [hcounts]⟩
      rwa [← hp]
  · exact ⟨hsettled, fun _ => hcounts, fun hidle => absurd hidle (by simp)⟩
  · exact ⟨hsettled, fun _ => hcounts, fun hidle => absurd (hpc.symm.trans hidle) (by simp)⟩

lemma InCall.step {n : ℕ} {counts : List ℕ} {s t : State P} {l : Label P} (h : InCall n counts s)
    (hinv : Mpsc.Inv queueSize s.queue) (ho : Mpsc.Owned queueSize s.queue)
    (hlen : s.queue.pushed.length < 2 ^ 63) (hl : l ≠ .drain) (hs : Step s l t) :
    InCall n counts t := by
  have hsettled := settled_step hinv hs h.settled
  cases move_of_step hs with
  | push | loadTail | counting => exact h.frame hsettled rfl rfl rfl
  | loadHead hpc hqueue =>
    obtain ⟨rfl, -⟩ := Mpsc.callPush_of_step hqueue
    exact h.frame hsettled rfl rfl rfl
  | pushing hpc hqueue =>
    obtain ⟨-, -, -, hpopped⟩ := Mpsc.pushMove_of_step hqueue
    rw [State.afterPush]
    split <;> exact h.frame (Mpsc.settled_step hinv hqueue h.settled) rfl rfl hpopped
  | drain => exact absurd rfl hl
  | popping hpc hqueue => exact h.popping hinv ho hlen hpc hqueue
  | storing hpc hqueue =>
    exact ⟨hsettled, fun _ => h.busy (by simp [hpc]), fun hidle => absurd hidle (by simp)⟩

lemma inCall_drain {n : ℕ} {s t : State P} (hinv : Mpsc.Inv queueSize s.queue)
    (h : Mpsc.Settled n s.queue) (hs : Step s .drain t) :
    s.reader = .idle ∧ InCall n s.counts t := by
  have hsettled := settled_step hinv hs h
  cases move_of_step hs with
  | drain hpc hqueue =>
    exact ⟨hpc, hsettled, fun _ => rfl, fun hidle => absurd hidle (by simp)⟩

lemma inCall_run {n : ℕ} {d : ℕ → TickerData} {market : MarketDataMap} {ls ms : List (Label P)}
    {counts : List ℕ} {s t : State P} (hbefore : Run Step (State.init d market) ls s)
    (h : InCall n counts s) (hduring : Run Step s ms t) :
    (∀ l ∈ ms, l ≠ .drain) → t.queue.pushed.length < 2 ^ 63 → InCall n counts t :=
  hduring.trace_invariant
    (I := fun ms t => (∀ l ∈ ms, l ≠ .drain) → t.queue.pushed.length < 2 ^ 63 → InCall n counts t)
    (fun _ _ => h) fun ms u l v hrun hu hstep hms hlen => by
      obtain ⟨as, has⟩ := ring_run (Run.single hstep)
      have hpushed := (Mpsc.length_le_of_run has).1
      obtain ⟨bs, hbs⟩ := ring_run (hbefore.trans hrun)
      have hu := hu (fun l hl => hms l (List.mem_append_left _ hl)) (by omega)
      exact hu.step (Mpsc.inv_run hbs (by omega)) (Mpsc.owned_run hbs (by omega)) (by omega)
        (hms l (by simp)) hstep

/-- **What `drain_all` brings.**  A call of `drain_all` that has returned, whatever the feeds did
meanwhile, has put into the map every ticker accepted before the call, up to the first push that
was still between its claim and its publication; it returns the number of tickers that it has
stored. -/
theorem drain_all_complete (d : ℕ → TickerData) (market : MarketDataMap) (ls ms : List (Label P))
    (s₀ s t : State P) (hbefore : Run Step (State.init d market) ls s₀) (hcall : Step s₀ .drain s)
    (hduring : Run Step s ms t) (hms : ∀ l ∈ ms, l ≠ .drain) (hdone : t.reader = .idle)
    (hlen : t.queue.pushed.length < 2 ^ 63) (n : ℕ) (hsettled : Mpsc.Settled n s₀.queue) :
    (accepted s₀.fates).take n <+: t.drained ∧
      ∃ k, t.counts = s₀.counts ++ [k] ∧ s₀.drained.length + k = t.drained.length := by
  have hrun := (hbefore.snoc hcall).trans hduring
  obtain ⟨as, has⟩ := ring_run ((Run.single hcall).trans hduring)
  have hpushed := (Mpsc.length_le_of_run has).1
  obtain ⟨hidle, hstart⟩ := inCall_drain (ringInv_run hbefore (by omega)) hsettled hcall
  have hin := inCall_run (hbefore.snoc hcall) hstart hduring hms hlen
  obtain ⟨hle, k, hk⟩ := hin.finished hdone
  have h₀ := accounted_run hbefore (by omega)
  have h₁ := accounted_run hrun hlen
  have hdrained : t.drained = t.queue.popped := State.drained_of_not_storing (by simp [hdone])
  refine ⟨?_, k, hk, ?_⟩
  · have hinitial : s₀.queue.pushed <+: t.queue.pushed :=
      has.invariant (I := fun q => s₀.queue.pushed <+: q.pushed) List.prefix_rfl
        fun _ _ _ h hs => h.trans (Mpsc.pushed_initial hs)
    have hpopped := (ringInv_run hrun hlen).popped_le
    rw [h₀.accepted_eq, hdrained]
    refine List.prefix_of_prefix_length_le ((List.take_prefix n _).trans hinitial) hpopped ?_
    exact (List.length_take_le n _).trans hle
  · have hsum₀ := h₀.counts_eq
    have hsum₁ := h₁.counts_eq
    rw [hidle, ReaderPc.count, Nat.add_zero] at hsum₀
    rw [hdone, ReaderPc.count, Nat.add_zero, hk, List.sum_append, List.sum_singleton] at hsum₁
    omega

/-- The call that follows the one which has found nothing ready. -/
def secondDrain : List (Label Bool) := List.replicate 14 (.read someTicker)

/-- The state in which it has been called. -/
def atSecondDrain : State Bool := (step afterTwoFeeds .drain).get (by decide +kernel)

/-- The state in which it has returned. -/
def afterSecondDrain : State Bool :=
  (secondDrain.foldlM step atSecondDrain).get (by decide +kernel)

theorem drain_all_complete_twoFeeds :
    [otherTicker, someTicker].take 2 <+: afterSecondDrain.drained ∧
      ∃ k, afterSecondDrain.counts = [0] ++ [k] ∧ 0 + k = afterSecondDrain.drained.length := by
  have hsettled : Mpsc.Settled 2 afterTwoFeeds.queue := by
    refine ⟨by decide +kernel, fun p pos hw => ?_⟩
    have hreturned : ∀ p, afterTwoFeeds.queue.producers p = .returned true := by decide +kernel
    rw [hreturned p] at hw
    exact hw.elim
  have hfates : accepted afterTwoFeeds.fates = [otherTicker, someTicker] := by decide +kernel
  have hcounts : afterTwoFeeds.counts = [0] := by decide +kernel
  have hdrained : afterTwoFeeds.drained.length = 0 := by decide +kernel
  rw [← hfates, ← hcounts, ← hdrained]
  exact drain_all_complete _ _ twoFeeds secondDrain afterTwoFeeds atSecondDrain afterSecondDrain
    run_twoFeeds (Option.some_get _).symm (.of_foldlM (Option.some_get _).symm)
    (by simp [secondDrain]) (by decide +kernel) (by decide +kernel) 2 hsettled

end Tickers

end TickPlant
