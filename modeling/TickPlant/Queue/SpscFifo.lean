/-
# What the SPSC ring buffers guarantee

In every interleaving of one producer and one consumer, over runs of any length, `try_pop`
returns the accepted items in order, at most `Size - 1` items are held, the producer never
writes into a slot whose item has not been returned, and each side fails only when the
buffer really was full, or empty, at the moment of its load of the other side's index.

The indices are slots, so the invariant says of which positions of the history they are the
slots: `head_` of the next item to return and `tail_` of the next item to accept.  What a
thread has loaded may be stale, but only in the harmless direction: the producer's view of
the free space and the consumer's view of the items are lower bounds.
-/
import TickPlant.Queue.Spsc

namespace TickPlant.Spsc

open Lib Mpsc

variable {T : Type} {v : Variant} {c : RingSize}

/-! ## The invariant -/

/-- What holds of the producer's locals. -/
def ProdOk (c : RingSize) (s : State T) : PushPc T → Prop
  | .loadHead _ currentTail => currentTail = s.ring.tail
  | .write _ currentTail =>
    currentTail = s.ring.tail ∧ s.pushed.length + 1 < s.popped.length + c.size
  | .storeTail item currentTail =>
    currentTail = s.ring.tail ∧ s.pushed.length + 1 < s.popped.length + c.size ∧
      s.ring.buffer currentTail = item
  | _ => True

/-- What holds of the consumer's locals. -/
def ConsOk (s : State T) : PopPc T → Prop
  | .loadTail currentHead => currentHead = s.ring.head
  | .read currentHead => currentHead = s.ring.head ∧ s.popped.length < s.pushed.length
  | .storeHead currentHead item =>
    currentHead = s.ring.head ∧ s.pushed[s.popped.length]? = some item
  | _ => True

/-- The invariant of the two threads. -/
structure Inv (c : RingSize) (s : State T) : Prop where
  head_eq : s.ring.head = c.slot s.popped.length
  tail_eq : s.ring.tail = c.slot s.pushed.length
  in_order : s.popped <+: s.pushed
  lt_size : s.pushed.length < s.popped.length + c.size
  held : ∀ i item, HoldsUnconsumed c s i item → s.ring.buffer i = item
  prod : ProdOk c s s.producer
  cons : ConsOk s s.consumer

lemma Inv.popped_le {s : State T} (h : Inv c s) : s.popped.length ≤ s.pushed.length :=
  h.in_order.length_le

lemma inv_init (c : RingSize) (d : ℕ → T) : Inv c (State.init d) where
  head_eq := (c.slot_eq 0).trans (Nat.zero_mod _) |>.symm
  tail_eq := (c.slot_eq 0).trans (Nat.zero_mod _) |>.symm
  in_order := List.prefix_rfl
  lt_size := by
    have := c.two_le_size
    show 0 < 0 + c.size
    omega
  held := by
    rintro i item ⟨q, -, hq, -⟩
    exact absurd hq (by simp [State.init])
  prod := trivial
  cons := trivial

lemma nextIndex_slot (c : RingSize) (n : ℕ) : nextIndex c (c.slot n) = c.slot (n + 1) := by
  rw [nextIndex, RingSize.slot_wrap, RingSize.slot_eq, RingSize.slot_eq, RingSize.slot_eq,
    Nat.mod_add_mod]

/-- The slot that the producer would write to holds no unconsumed item. -/
lemma Inv.tail_free {s : State T} (h : Inv c s) (item : T) :
    ¬ HoldsUnconsumed c s s.ring.tail item := by
  rintro ⟨q, hle, hq, hslot⟩
  have hlt : q < s.pushed.length := (List.getElem?_eq_some_iff.mp hq).1
  have hpop := h.popped_le
  have hsize := h.lt_size
  rw [h.tail_eq] at hslot
  have := RingSize.slot_inj (r := s.popped.length) hle hpop (by omega) (by omega) hslot
  omega

/-- The comparison of `next_tail` with `head_` finds the buffer full. -/
lemma Inv.next_eq_head_iff {s : State T} (h : Inv c s) :
    nextIndex c s.ring.tail = s.ring.head ↔ s.pushed.length + 1 = s.popped.length + c.size := by
  have hpop := h.popped_le
  have hsize := h.lt_size
  have htwo := c.two_le_size
  rw [h.tail_eq, nextIndex_slot, h.head_eq]
  constructor
  · intro heq
    -- the positions `pushed + 1` and `popped + Size` share a slot of one window
    rw [← c.slot_add_size s.popped.length] at heq
    exact RingSize.slot_inj (r := s.popped.length + 1) (by omega) (by omega) (by omega)
      (by omega) heq
  · intro heq
    rw [heq, c.slot_add_size]

/-- The comparison of `head_` with `tail_` finds the buffer empty. -/
lemma Inv.head_eq_tail_iff {s : State T} (h : Inv c s) :
    s.ring.head = s.ring.tail ↔ s.popped.length = s.pushed.length := by
  have hpop := h.popped_le
  have hsize := h.lt_size
  rw [h.head_eq, h.tail_eq]
  constructor
  · intro heq
    exact RingSize.slot_inj (r := s.popped.length) le_rfl hpop (by omega) (by omega) heq
  · intro heq
    rw [heq]

/-! ## One operation keeps the invariant -/

lemma Inv.setProducer {s : State T} (h : Inv c s) {pc : PushPc T} (hpc : ProdOk c s pc) :
    Inv c (s.setProducer pc) :=
  ⟨h.head_eq, h.tail_eq, h.in_order, h.lt_size, h.held, by
    cases pc <;> exact hpc, h.cons⟩

lemma Inv.setConsumer {s : State T} (h : Inv c s) {pc : PopPc T} (hpc : ConsOk s pc) :
    Inv c (s.setConsumer pc) :=
  ⟨h.head_eq, h.tail_eq, h.in_order, h.lt_size, h.held, h.prod, by
    cases pc <;> exact hpc⟩

lemma Inv.reject {s : State T} (h : Inv c s) : Inv c s.reject :=
  ⟨h.head_eq, h.tail_eq, h.in_order, h.lt_size, h.held, trivial, h.cons⟩

lemma Inv.countDrop {s : State T} (h : Inv c s) : Inv c s.countDrop :=
  ⟨h.head_eq, h.tail_eq, h.in_order, h.lt_size, h.held, trivial, h.cons⟩

lemma Inv.resetDropped {s : State T} (h : Inv c s) : Inv c s.resetDropped :=
  ⟨h.head_eq, h.tail_eq, h.in_order, h.lt_size, h.held, by
    have hprod := h.prod
    show ProdOk c s.resetDropped s.producer
    cases hpc : s.producer <;> rw [hpc] at hprod <;> exact hprod, h.cons⟩

lemma Inv.write {s : State T} (h : Inv c s) {item : T} {currentTail : ℕ}
    (hpc : s.producer = .write item currentTail) : Inv c (s.write item currentTail) := by
  have hprod := h.prod
  rw [hpc] at hprod
  obtain ⟨rfl, hroom⟩ := hprod
  refine ⟨h.head_eq, h.tail_eq, h.in_order, h.lt_size, ?_, ?_, h.cons⟩
  · -- the slot written is not one of those that hold items
    intro i item' hi
    have hne : i ≠ s.ring.tail := by
      rintro rfl
      exact h.tail_free item' hi
    show Function.update s.ring.buffer s.ring.tail item i = item'
    rw [Function.update_of_ne hne]
    exact h.held i item' hi
  · exact ⟨rfl, hroom, Function.update_self _ _ _⟩

lemma Inv.accept {s : State T} (h : Inv c s) {item : T} {currentTail : ℕ}
    (hpc : s.producer = .storeTail item currentTail) : Inv c (s.accept c item currentTail) := by
  have hprod := h.prod
  rw [hpc] at hprod
  obtain ⟨rfl, hroom, hbuf⟩ := hprod
  refine ⟨h.head_eq, ?_, h.in_order.trans (List.prefix_append _ _), ?_, ?_, trivial, ?_⟩
  · show nextIndex c s.ring.tail = c.slot (s.pushed ++ [item]).length
    rw [h.tail_eq, nextIndex_slot, List.length_append, List.length_singleton]
  · show (s.pushed ++ [item]).length < s.popped.length + c.size
    rw [List.length_append, List.length_singleton]
    exact hroom
  · rintro i item' ⟨q, hle, hq, rfl⟩
    replace hq : (s.pushed ++ [item])[q]? = some item' := hq
    show s.ring.buffer (c.slot q) = item'
    rcases Nat.lt_or_ge q s.pushed.length with hlt | hge
    · rw [List.getElem?_append_left hlt] at hq
      exact h.held _ item' ⟨q, hle, hq, rfl⟩
    · -- the new item, at position `pushed`
      rw [List.getElem?_append_right hge, List.getElem?_singleton] at hq
      split at hq
      · rename_i hzero
        have hqe : q = s.pushed.length := by omega
        rw [hqe, ← h.tail_eq, hbuf]
        exact Option.some.inj hq
      · exact absurd hq (by simp)
  · have hcons := h.cons
    show ConsOk (s.accept c item s.ring.tail) s.consumer
    cases hcc : s.consumer with
    | loadTail hd => rw [hcc] at hcons; exact hcons
    | read hd =>
      rw [hcc] at hcons
      refine ⟨hcons.1, ?_⟩
      show s.popped.length < (s.pushed ++ [item]).length
      rw [List.length_append]
      exact Nat.lt_add_right _ hcons.2
    | storeHead hd x =>
      rw [hcc] at hcons
      refine ⟨hcons.1, ?_⟩
      show (s.pushed ++ [item])[s.popped.length]? = some x
      rw [List.getElem?_append_left (List.getElem?_eq_some_iff.mp hcons.2).1]
      exact hcons.2
    | _ => trivial

lemma Inv.advance {s : State T} (h : Inv c s) {item : T} {currentHead : ℕ}
    (hpc : s.consumer = .storeHead currentHead item) : Inv c (s.advance c currentHead item) := by
  have hcons := h.cons
  rw [hpc] at hcons
  obtain ⟨rfl, hitem⟩ := hcons
  obtain ⟨hlt, -⟩ := List.getElem?_eq_some_iff.mp hitem
  have hlen : (s.popped ++ [item]).length = s.popped.length + 1 := by simp
  refine ⟨?_, h.tail_eq, ?_, ?_, ?_, ?_, trivial⟩
  · show nextIndex c s.ring.head = c.slot (s.popped ++ [item]).length
    rw [h.head_eq, nextIndex_slot, hlen]
  · show s.popped ++ [item] <+: s.pushed
    obtain ⟨rest, hrest⟩ := h.in_order
    cases rest with
    | nil =>
      rw [List.append_nil] at hrest
      rw [hrest] at hlt
      exact absurd hlt (Nat.lt_irrefl _)
    | cons x rest =>
      rw [← hrest, List.getElem?_append_right le_rfl, Nat.sub_self] at hitem
      have hx : x = item := Option.some.inj hitem
      exact ⟨rest, by rw [← hrest, hx, List.append_assoc]; rfl⟩
  · show s.pushed.length < (s.popped ++ [item]).length + c.size
    have := h.lt_size
    omega
  · rintro i item' ⟨q, hle, hq, hslot⟩
    replace hle : (s.popped ++ [item]).length ≤ q := hle
    exact h.held i item' ⟨q, by omega, hq, hslot⟩
  · -- a producer that found room still has it
    have hprod := h.prod
    show ProdOk c (s.advance c s.ring.head item) s.producer
    cases hpp : s.producer with
    | loadHead x tl => rw [hpp] at hprod; exact hprod
    | write x tl =>
      rw [hpp] at hprod
      refine ⟨hprod.1, ?_⟩
      show s.pushed.length + 1 < (s.popped ++ [item]).length + c.size
      have := hprod.2
      omega
    | storeTail x tl =>
      rw [hpp] at hprod
      refine ⟨hprod.1, ?_, hprod.2.2⟩
      show s.pushed.length + 1 < (s.popped ++ [item]).length + c.size
      have := hprod.2.1
      omega
    | _ => trivial

/-! ## Every step keeps the invariant -/

lemma inv_step {s t : State T} {a : Action T} (h : Inv c s) (hs : Step v c s a t) : Inv c t := by
  have hprod := h.prod
  have hcons := h.cons
  cases move_of_step hs with
  | callPush item => exact h.setProducer trivial
  | loadTail hpc => exact h.setProducer rfl
  | reject hv hpc hfull => exact h.reject
  | full hv hpc hfull => exact h.setProducer trivial
  | room hpc hroom =>
    rw [hpc] at hprod
    obtain rfl := hprod
    rw [ne_eq, h.next_eq_head_iff] at hroom
    have hlt := h.lt_size
    exact h.setProducer ⟨rfl, by omega⟩
  | countDrop hpc => exact h.countDrop
  | write hpc => exact h.write hpc
  | accept hpc => exact h.accept hpc
  | callPop => exact h.setConsumer trivial
  | loadHead hpc => exact h.setConsumer rfl
  | empty hpc hempty => exact h.setConsumer trivial
  | found hpc hfound =>
    rw [hpc] at hcons
    obtain rfl := hcons
    rw [ne_eq, h.head_eq_tail_iff] at hfound
    have hle := h.popped_le
    exact h.setConsumer ⟨rfl, by omega⟩
  | read hpc =>
    rw [hpc] at hcons
    obtain ⟨rfl, hlt⟩ := hcons
    -- the slot of `head_` holds the next item to return
    have hnext : s.pushed[s.popped.length]? = some (s.pushed[s.popped.length]) :=
      List.getElem?_eq_getElem hlt
    have hbuf := h.held s.ring.head _ ⟨s.popped.length, le_rfl, hnext, h.head_eq.symm⟩
    exact h.setConsumer ⟨rfl, by rw [hbuf]; exact hnext⟩
  | advance hpc => exact h.advance hpc
  | resetDropped hv => exact h.resetDropped

lemma inv_run {d : ℕ → T} {as : List (Action T)} {s : State T}
    (hrun : Run (Step v c) (State.init d) as s) : Inv c s :=
  hrun.invariant (inv_init c d) fun _ _ _ h hs => inv_step h hs

/-! ## Failing calls and the counter -/

/-- A push fails only when `Size - 1` items are unconsumed at its load of `head_`. -/
lemma Inv.full_of_failed {s t : State T} {a : Action T} (h : Inv c s) (hs : Step v c s a t)
    (hbefore : ¬ s.producer.Failed) (hafter : t.producer.Failed) :
    (∃ item tl, s.producer = .loadHead item tl) ∧ s.unconsumed = c.size - 1 := by
  have hprod := h.prod
  -- both comparisons of `next_tail` with `head_` come to this
  have hfail : ∀ {item : T} {tl : ℕ}, s.producer = .loadHead item tl →
      nextIndex c tl = s.ring.head →
      (∃ item tl, s.producer = .loadHead item tl) ∧ s.unconsumed = c.size - 1 := by
    intro item tl hpc hfull
    rw [hpc] at hprod
    obtain rfl := hprod
    rw [h.next_eq_head_iff] at hfull
    refine ⟨⟨item, s.ring.tail, hpc⟩, ?_⟩
    rw [State.unconsumed]
    omega
  cases move_of_step hs with
  | reject hv hpc hfull => exact hfail hpc hfull
  | full hv hpc hfull => exact hfail hpc hfull
  | countDrop hpc => rw [hpc] at hbefore; exact absurd trivial hbefore
  | callPush item => exact hafter.elim
  | loadTail hpc => exact hafter.elim
  | room hpc hroom => exact hafter.elim
  | write hpc => exact hafter.elim
  | accept hpc => exact hafter.elim
  | _ => exact absurd hafter hbefore

/-- A pop fails only when the buffer is empty at its load of `tail_`. -/
lemma Inv.empty_of_failed {s t : State T} {a : Action T} (h : Inv c s) (hs : Step v c s a t)
    (hbefore : s.consumer ≠ .returned none) (hafter : t.consumer = .returned none) :
    (∃ hd, s.consumer = .loadTail hd) ∧ s.unconsumed = 0 := by
  have hcons := h.cons
  cases move_of_step hs with
  | empty hpc hempty =>
    rw [hpc] at hcons
    obtain rfl := hcons
    rw [h.head_eq_tail_iff] at hempty
    refine ⟨⟨s.ring.head, hpc⟩, ?_⟩
    rw [State.unconsumed]
    omega
  | callPop => exact absurd hafter (by simp [State.setConsumer])
  | loadHead hpc => exact absurd hafter (by simp [State.setConsumer])
  | found hpc hfound => exact absurd hafter (by simp [State.setConsumer])
  | read hpc => exact absurd hafter (by simp [State.setConsumer])
  | advance hpc => exact absurd hafter (by simp [State.advance])
  | _ => exact absurd hafter hbefore

/-- The counter of the blocking variant is the number of rejected pushes, as a `uint64_t`. -/
lemma dropped_step {s t : State T} {a : Action T} (hs : Step .blocking c s a t)
    (h : s.ring.dropped = wrap s.rejected) : t.ring.dropped = wrap t.rejected := by
  cases move_of_step hs with
  | reject hv hpc hfull => exact absurd hv (by simp)
  | countDrop hpc =>
    show wrap (s.ring.dropped + 1) = wrap ((s.results ++ [false]).count false)
    have hcount : (s.results ++ [false]).count false = s.rejected + 1 := by
      simp [State.rejected]
    rw [hcount, h, wrap, wrap, wrap, Nat.mod_add_mod]
  | accept hpc =>
    show s.ring.dropped = wrap ((s.results ++ [true]).count false)
    have hcount : (s.results ++ [true]).count false = s.rejected := by simp [State.rejected]
    rw [hcount, h]
  | resetDropped hv => rfl
  | _ => exact h

lemma dropped_run {d : ℕ → T} {as : List (Action T)} {s : State T}
    (hrun : Run (Step .blocking c) (State.init d) as s) : s.ring.dropped = wrap s.rejected :=
  hrun.invariant (I := fun s => s.ring.dropped = wrap s.rejected) rfl
    fun _ _ _ h hs => dropped_step hs h

/-! ## The guarantee -/

/-- **One producer, one consumer.**  In every state that the buffer can reach, and for every
next step from it: the items returned are a prefix of the items accepted, in order; at most
`Size - 1` items are held, each in its slot; the slot about to be written holds none of
them; a push fails only if `Size - 1` items are unconsumed at its load of `head_`, a pop
only if none is at its load of `tail_`; and the counter of the blocking variant is the number
of pushes rejected since the last reset, modulo the range of `uint64_t`. -/
theorem spsc_fifo (v : Variant) (c : RingSize) (d : ℕ → T) (as : List (Action T)) (s : State T)
    (hrun : Run (Step v c) (State.init d) as s) :
    s.popped <+: s.pushed ∧ s.unconsumed ≤ c.size - 1 ∧
      (∀ i item, HoldsUnconsumed c s i item → s.ring.buffer i = item) ∧
      (∀ item tl, s.producer = .write item tl → ∀ x, ¬ HoldsUnconsumed c s tl x) ∧
      (∀ a t, Step v c s a t → ¬ s.producer.Failed → t.producer.Failed →
        (∃ item tl, s.producer = .loadHead item tl) ∧ s.unconsumed = c.size - 1) ∧
      (∀ a t, Step v c s a t → s.consumer ≠ .returned none → t.consumer = .returned none →
        (∃ hd, s.consumer = .loadTail hd) ∧ s.unconsumed = 0) ∧
      (v = .blocking → s.ring.dropped = s.rejected % 2 ^ 64) := by
  have h := inv_run hrun
  refine ⟨h.in_order, ?_, h.held, ?_, fun a t => h.full_of_failed, fun a t => h.empty_of_failed,
    ?_⟩
  · have := h.lt_size
    rw [State.unconsumed]
    omega
  · intro item tl hpc x
    have hprod := h.prod
    rw [hpc] at hprod
    rw [hprod.1]
    exact h.tail_free x
  · rintro rfl
    exact dropped_run hrun

/-- A blocking buffer of size `2` accepts `7`, rejects `8` and returns `7`. -/
def pushPushPop : List (Action ℕ) :=
  [.callPush 7, .push, .push, .push, .push, .callPush 8, .push, .push, .push,
    .callPop, .pop, .pop, .pop, .pop]

/-- The state after `pushPushPop`. -/
def afterPushPushPop : State ℕ :=
  (pushPushPop.foldlM (step .blocking sizeTwo) (State.init fun _ => 0)).get (by decide)

/-- The guarantee at the end of this run. -/
theorem spsc_fifo_pushPushPop :
    afterPushPushPop.popped = [7] ∧ afterPushPushPop.rejected = 1 ∧
      afterPushPushPop.popped <+: afterPushPushPop.pushed ∧
      afterPushPushPop.ring.dropped = afterPushPushPop.rejected % 2 ^ 64 :=
  have h := spsc_fifo .blocking sizeTwo (fun _ => 0) pushPushPop afterPushPushPop
    (Run.of_foldlM (Option.some_get _).symm)
  ⟨by decide, by decide, h.1, h.2.2.2.2.2.2 rfl⟩

/-! ## The range of the counter -/

/-- A call of `push` that runs alone on a full buffer is rejected and counted. -/
lemma reject_alone {s : State T} (item : T)
    (hidle : s.producer = .idle ∨ ∃ ok, s.producer = .returned ok)
    (hfull : nextIndex c s.ring.tail = s.ring.head) :
    Run (Step .blocking c) s [.callPush item, .push, .push, .push] s.countDrop := by
  have hcall : Step .blocking c s (.callPush item) (s.setProducer (.loadTail item)) := by
    rcases hidle with h | ⟨ok, h⟩ <;> simp [Step, step, h]
  refine .cons hcall (.of_foldlM ?_)
  simp [step, stepPush, State.setProducer, hfull, State.countDrop, State.reject]

/-- A full buffer can reject any number of pushes. -/
lemma exists_rejected (n : ℕ) :
    ∃ as s, Run (Step .blocking sizeTwo) (State.init fun _ => ()) as s ∧
      s.producer = .returned (decide (n = 0)) ∧
      nextIndex sizeTwo s.ring.tail = s.ring.head ∧ s.rejected = n := by
  induction n with
  | zero =>
    refine ⟨[.callPush (), .push, .push, .push, .push],
      ([.callPush (), .push, .push, .push, .push].foldlM (step .blocking sizeTwo)
        (State.init fun _ => ())).get (by decide), .of_foldlM (Option.some_get _).symm, ?_⟩
    decide
  | succ n ih =>
    obtain ⟨as, s, hrun, hpc, hfull, hrej⟩ := ih
    refine ⟨_, s.countDrop, hrun.trans (reject_alone () (Or.inr ⟨_, hpc⟩) hfull), ?_, hfull, ?_⟩
    · simp [State.countDrop, State.reject]
    · simpa [State.countDrop, State.reject, State.rejected] using hrej

/-- After `2 ^ 64` rejected pushes the counter is back at `0`: it is the number of rejected
pushes only modulo the range of its type. -/
theorem dropped_count_wraps :
    ¬ ∀ (c : RingSize) (d : ℕ → Unit) (as : List (Action Unit)) (s : State Unit),
      Run (Step .blocking c) (State.init d) as s → s.ring.dropped = s.rejected := by
  intro hclaim
  obtain ⟨as, s, hrun, -, -, hrej⟩ := exists_rejected (2 ^ 64)
  have heq := hclaim sizeTwo (fun _ => ()) as s hrun
  have hwrap := dropped_run hrun
  rw [heq, hrej, wrap, Nat.mod_self] at hwrap
  exact absurd hwrap (by norm_num)

end TickPlant.Spsc
