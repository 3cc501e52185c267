/-
# The MPSC ring buffer, one call at a time

When the calls are executed one after the other, `try_push` and `try_pop` are functions of
the ring: `tryPush`, with the retry loop cut off after as many iterations as it can make,
and `tryPop`.  `tryPush_run` and `tryPop_run` say that they are runs of the step model.

What they do is said through `Represents`: the ring holds a list of items, `tryPush` appends
to it unless `Size` items are held, and `tryPop` takes its first item.  The positions are
taken modulo `2 ^ 64` and only their difference matters, so the buffer may be used forever.
-/
import TickPlant.Queue.Mpsc

namespace TickPlant.Mpsc

open Lib

variable {T : Type}

/-! ## The calls -/

/-- `MPSCRingBuffer()`. -/
def Ring.init (d : ℕ → T) : Ring T := { head := 0, tail := 0, sequence := fun i => i, data := d }

/-- The position `pos` is claimed, written and published. -/
def Ring.put (c : RingSize) (item : T) (r : Ring T) (pos : ℕ) : Ring T where
  head := r.head
  tail := wrap (pos + 1)
  sequence := Function.update r.sequence (c.slot pos) (wrap (pos + 1))
  data := Function.update r.data (c.slot pos) item

/-- The loop of `MPSCRingBuffer::try_push`, at most `fuel` more iterations.  `spurious` is
the number of times that `compare_exchange_weak` is still going to fail for no reason. -/
def tryPushLoop (c : RingSize) (item : T) (r : Ring T) : ℕ → ℕ → ℕ → Option (Bool × Ring T)
  | 0, _, _ => none
  | fuel + 1, spurious, pos =>
    let diff := signedDiff (r.sequence (c.slot pos)) pos
    if diff = 0 then
      if r.tail = pos ∧ spurious = 0 then some (true, r.put c item pos)
      else tryPushLoop c item r fuel (spurious - 1) r.tail
    else if diff < 0 then some (false, r)
    else tryPushLoop c item r fuel spurious r.tail

/-- `MPSCRingBuffer::try_push`, executed alone: one iteration for each spurious failure and
one more.  The result is `none` if the loop would still go on. -/
def tryPush (c : RingSize) (spurious : ℕ) (item : T) (r : Ring T) : Option (Bool × Ring T) :=
  tryPushLoop c item r (spurious + 1) spurious r.tail

/-- `MPSCRingBuffer::try_pop`, executed alone; `moved x` is what moving from `x` leaves in
the slot. -/
def tryPop (c : RingSize) (moved : T → T) (r : Ring T) : Option T × Ring T :=
  let pos := r.head
  if signedDiff (r.sequence (c.slot pos)) (wrap (pos + 1)) < 0 then (none, r)
  else
    let item := r.data (c.slot pos)
    (some item,
      { head := wrap (pos + 1)
        tail := r.tail
        sequence := Function.update r.sequence (c.slot pos) (wrap (pos + c.size))
        data := Function.update r.data (c.slot pos) (moved item) })

/-- `MPSCRingBuffer::size`. -/
def Ring.size (r : Ring T) : ℕ := wrap (r.tail + (2 ^ 64 - r.head))

/-- The items in the buffer, from the next one to pop on. -/
def Ring.items (c : RingSize) (r : Ring T) : List T :=
  (List.range r.size).map fun i => r.data (c.slot (r.head + i))

/-! ## As runs of the step model -/

section Runs

variable {P : Type} [DecidableEq P] {c : RingSize} {p : P} {item : T}

/-- The state after a call of `try_push` by `p` that ran alone: the ring is `r`, and the item
is in the history unless the call was refused. -/
def State.pushedAlone (s : State P T) (p : P) (item : T) (ok : Bool) (r : Ring T) : State P T :=
  { s with
    ring := r
    producers := Function.update s.producers p (.returned ok)
    pushed := if ok then s.pushed ++ [item] else s.pushed }

/-- The state after a call of `try_pop` that ran alone and returned `x`. -/
def State.poppedAlone (s : State P T) (x : Option T) (r : Ring T) : State P T :=
  { s with
    ring := r
    consumer := .returned x
    popped := s.popped ++ x.toList
    reclaimed := s.reclaimed + x.toList.length }

/-- Where the caller stood inside the call does not matter afterwards. -/
lemma State.setProducer_pushedAlone (s : State P T) (pc : PushPc T) (ok : Bool) (r : Ring T) :
    (s.setProducer p pc).pushedAlone p item ok r = s.pushedAlone p item ok r := by
  simp [State.pushedAlone, State.setProducer]

/-- The loop of `try_push` is a run of the step model. -/
lemma tryPushLoop_run {fuel spurious pos : ℕ} {s : State P T} {ok : Bool} {r : Ring T}
    (hpc : s.producers p = .loadSeq item pos)
    (h : tryPushLoop c item s.ring fuel spurious pos = some (ok, r)) :
    ∃ as, Run (Step c) s as (s.pushedAlone p item ok r) := by
  induction fuel generalizing s spurious pos with
  | zero => exact absurd h (by simp [tryPushLoop])
  | succ fuel ih =>
    -- the load of the counter, and then what the branch of the loop does
    have hload : ∀ u, stepPush c p false s = some u → Run (Step c) s [.push p false] u :=
      fun u hu => Run.single hu
    simp only [tryPushLoop] at h
    split at h
    · rename_i hzero
      have hcas := hload (s.setProducer p (.cas item pos)) (by simp [stepPush, hpc, hzero])
      split at h
      · rename_i hclaim
        obtain ⟨rfl, rfl⟩ := Prod.mk.inj (Option.some.inj h)
        have hrest : Run (Step c) (s.setProducer p (.cas item pos))
            [.push p false, .push p false, .push p false]
            (s.pushedAlone p item true (s.ring.put c item pos)) :=
          .of_foldlM (by simp [step, stepPush, State.setProducer, hclaim.1, State.claim,
            State.write, State.publish, State.pushedAlone, Ring.put])
        exact ⟨_, hcas.trans hrest⟩
      · rename_i hfail
        set s' := s.setProducer p (.loadSeq item s.ring.tail)
        -- a compare-exchange that fails, spuriously if the position was right
        have hretry : Run (Step c) (s.setProducer p (.cas item pos)) [.push p true] s' :=
          .single (by simp [Step, step, stepPush, State.setProducer, s'])
        obtain ⟨as, hrun⟩ := ih (s := s') (by simp [s', State.setProducer]) h
        rw [State.setProducer_pushedAlone] at hrun
        exact ⟨_, (hcas.trans hretry).trans hrun⟩
    · rename_i hne
      split at h
      · rename_i hneg
        obtain ⟨rfl, rfl⟩ := Prod.mk.inj (Option.some.inj h)
        exact ⟨_, hload (s.pushedAlone p item false s.ring)
          (by simp [stepPush, hpc, hne, hneg, State.setProducer, State.pushedAlone])⟩
      · rename_i hpos
        set s' := s.setProducer p (.loadSeq item s.ring.tail)
        have hback := hload (s.setProducer p (.loadTail item))
          (by simp [stepPush, hpc, hne, hpos])
        have hreload : Run (Step c) (s.setProducer p (.loadTail item)) [.push p false] s' :=
          .single (by simp [Step, step, stepPush, State.setProducer, s'])
        obtain ⟨as, hrun⟩ := ih (s := s') (by simp [s', State.setProducer]) h
        rw [State.setProducer_pushedAlone] at hrun
        exact ⟨_, (hback.trans hreload).trans hrun⟩

/-- A call of `try_push` that runs alone is a run of the step model. -/
lemma tryPush_run {spurious : ℕ} {s : State P T} {ok : Bool} {r : Ring T}
    (hpc : (s.producers p).Quiet)
    (h : tryPush c spurious item s.ring = some (ok, r)) :
    ∃ as, Run (Step c) s as (s.pushedAlone p item ok r) := by
  set s' := s.setProducer p (.loadSeq item s.ring.tail)
  have hcall : Step c s (.callPush p item) (s.setProducer p (.loadTail item)) := by
    rcases hpc with hpc | ⟨ok, hpc⟩ <;> simp [Step, step, hpc]
  have hload : Step c (s.setProducer p (.loadTail item)) (.push p false) s' := by
    simp [Step, step, stepPush, State.setProducer, s']
  obtain ⟨as, hrun⟩ := tryPushLoop_run (s := s') (p := p) (by simp [s', State.setProducer]) h
  rw [State.setProducer_pushedAlone] at hrun
  exact ⟨_, .cons hcall (.cons hload hrun)⟩

/-- A call of `try_pop` that runs alone is a run of the step model. -/
lemma tryPop_run {moved : T → T} {s : State P T} {x : Option T} {r : Ring T}
    (hpc : s.consumer.Quiet)
    (h : tryPop c moved s.ring = (x, r)) : ∃ as, Run (Step c) s as (s.poppedAlone x r) := by
  have hcall : Step c s .callPop (s.setConsumer .loadHead) := by
    rcases hpc with hpc | ⟨y, hpc⟩ <;> simp [Step, step, hpc]
  let left := moved (s.ring.data (c.slot s.ring.head))
  simp only [tryPop] at h
  split at h
  · rename_i hneg
    obtain ⟨rfl, rfl⟩ := Prod.mk.inj h
    have hrest : Run (Step c) (s.setConsumer .loadHead) [.pop left, .pop left]
        (s.poppedAlone none s.ring) :=
      .of_foldlM (by simp [step, stepPop, State.setConsumer, hneg, State.poppedAlone])
    exact ⟨_, .cons hcall hrest⟩
  · rename_i hpos
    obtain ⟨rfl, rfl⟩ := Prod.mk.inj h
    refine ⟨.callPop :: List.replicate 5 (.pop left), .cons hcall (.of_foldlM ?_)⟩
    simp [List.replicate, step, stepPop, State.setConsumer, hpos, State.take, State.reclaim,
      State.advance, State.poppedAlone, left]

end Runs

/-! ## What the buffer holds -/

/-- The ring holds the items `q`, the first of them at position `h`. -/
structure RepresentsAt (c : RingSize) (r : Ring T) (h : ℕ) (q : List T) : Prop where
  head_eq : r.head = wrap h
  tail_eq : r.tail = wrap (h + q.length)
  length_le : q.length ≤ c.size
  full : ∀ i item, q[i]? = some item →
    r.sequence (c.slot (h + i)) = wrap (h + i + 1) ∧ r.data (c.slot (h + i)) = item
  free : ∀ i, q.length ≤ i → i < c.size → r.sequence (c.slot (h + i)) = wrap (h + i)

/-- The ring holds the items `q`, in order. -/
def Represents (c : RingSize) (r : Ring T) (q : List T) : Prop := ∃ h, RepresentsAt c r h q

lemma represents_init (c : RingSize) (d : ℕ → T) : Represents c (Ring.init d) [] := by
  refine ⟨0, rfl, rfl, Nat.zero_le _, fun i item hi => absurd hi (by simp), ?_⟩
  intro i _ hi
  have hlt := c.size_le
  show c.slot (0 + i) = wrap (0 + i)
  rw [Nat.zero_add, RingSize.slot_eq, Nat.mod_eq_of_lt hi, wrap, Nat.mod_eq_of_lt (by omega)]

/-- The signed difference of two positions less than `2 ^ 63` apart, however far they
have run. -/
lemma signedDiff_wrap {a b : ℕ} (hlo : b ≤ a + 2 ^ 63) (hhi : a < b + 2 ^ 63) :
    signedDiff (wrap a) (wrap b) = (a : ℤ) - b := by
  simp only [signedDiff, toIntptr, wrap]
  split_ifs <;> omega

lemma wrap_wrap_add (a b : ℕ) : wrap (wrap a + b) = wrap (a + b) := Nat.mod_add_mod a (2 ^ 64) b

/-- Offsets below `Size` lie in distinct slots. -/
lemma slot_ne_of_offset {c : RingSize} {h i j : ℕ} (hi : i < c.size) (hj : j < c.size)
    (hne : i ≠ j) : c.slot (h + i) ≠ c.slot (h + j) := by
  intro heq
  have := RingSize.slot_inj (r := h) (by omega) (by omega) (by omega) (by omega) heq
  omega

namespace RepresentsAt

variable {c : RingSize} {r : Ring T} {h : ℕ} {q : List T}

/-- A push on a buffer with room appends its item. -/
lemma tryPushLoop_room (hr : RepresentsAt c r h q) (hroom : q.length < c.size) (item : T)
    (spurious : ℕ) :
    tryPushLoop c item r (spurious + 1) spurious r.tail = some (true, r.put c item r.tail) := by
  have hseq : r.sequence (c.slot r.tail) = r.tail := by
    rw [hr.tail_eq, RingSize.slot_wrap]
    exact hr.free q.length le_rfl hroom
  have hdiff : signedDiff (r.sequence (c.slot r.tail)) r.tail = 0 := by
    rw [hseq]; simp [signedDiff]
  induction spurious with
  | zero => simp [tryPushLoop, hdiff]
  | succ n ih =>
    rw [tryPushLoop]
    simpa [hdiff] using ih

lemma put (hr : RepresentsAt c r h q) (hroom : q.length < c.size) (item : T) :
    RepresentsAt c (r.put c item r.tail) h (q ++ [item]) := by
  have hslot : c.slot r.tail = c.slot (h + q.length) := by rw [hr.tail_eq, RingSize.slot_wrap]
  have hnext : wrap (r.tail + 1) = wrap (h + q.length + 1) := by
    rw [hr.tail_eq, wrap_wrap_add]
  refine ⟨hr.head_eq, ?_, by simpa using hroom, ?_, ?_⟩
  · show wrap (r.tail + 1) = wrap (h + (q ++ [item]).length)
    rw [hnext, List.length_append, List.length_singleton, Nat.add_assoc]
  · intro i x hi
    show Function.update r.sequence (c.slot r.tail) (wrap (r.tail + 1)) (c.slot (h + i)) = _ ∧
      Function.update r.data (c.slot r.tail) item (c.slot (h + i)) = x
    rw [hslot, hnext]
    rcases Nat.lt_trichotomy i q.length with hlt | rfl | hgt
    · have hne := slot_ne_of_offset (h := h) (hlt.trans hroom) hroom hlt.ne
      rw [Function.update_of_ne hne, Function.update_of_ne hne]
      rw [List.getElem?_append_left hlt] at hi
      exact hr.full i x hi
    · rw [Function.update_self, Function.update_self]
      exact ⟨rfl, by simpa using hi⟩
    · exact absurd hi (by simp [hgt])
  · intro i hle hi
    rw [List.length_append, List.length_singleton] at hle
    have hne := slot_ne_of_offset (h := h) hi hroom (by omega)
    show Function.update r.sequence (c.slot r.tail) (wrap (r.tail + 1)) (c.slot (h + i)) = _
    rw [hslot, Function.update_of_ne hne]
    exact hr.free i (by omega) hi

/-- A push on a full buffer is refused. -/
lemma tryPushLoop_full (hr : RepresentsAt c r h q) (hfull : q.length = c.size) (item : T)
    (spurious : ℕ) :
    tryPushLoop c item r (spurious + 1) spurious r.tail = some (false, r) := by
  have htwo := c.two_le_size
  have hsize := c.size_le
  obtain ⟨x, hx⟩ : ∃ x, q[0]? = some x := ⟨q[0], List.getElem?_eq_getElem (by omega)⟩
  -- the counter is that of the oldest item, `Size` positions back
  have hdiff : signedDiff (r.sequence (c.slot r.tail)) r.tail = 1 - (c.size : ℤ) := by
    rw [hr.tail_eq, RingSize.slot_wrap, hfull, RingSize.slot_add_size]
    have hseq : r.sequence (c.slot h) = wrap (h + 1) := (hr.full 0 x hx).1
    rw [hseq, signedDiff_wrap (by omega) (by omega)]
    push_cast
    ring
  rw [tryPushLoop]
  simp only [hdiff]
  rw [if_neg (by omega), if_pos (by omega)]

/-- A pop on an empty buffer fails. -/
lemma tryPop_nil (hr : RepresentsAt c r h []) (moved : T → T) : tryPop c moved r = (none, r) := by
  have htwo := c.two_le_size
  have hseq : r.sequence (c.slot r.head) = wrap h := by
    rw [hr.head_eq, RingSize.slot_wrap]
    exact hr.free 0 le_rfl (by omega)
  have hneg : signedDiff (r.sequence (c.slot r.head)) (wrap (r.head + 1)) < 0 := by
    rw [hseq, hr.head_eq, wrap_wrap_add, signedDiff_wrap (by omega) (by omega)]
    push_cast
    omega
  simp [tryPop, hneg]

/-- A pop on a buffer with items returns the first of them. -/
lemma tryPop_cons {x : T} (hr : RepresentsAt c r h (x :: q)) (moved : T → T) :
    ∃ r', tryPop c moved r = (some x, r') ∧ RepresentsAt c r' (h + 1) q := by
  have hlen : q.length + 1 ≤ c.size := hr.length_le
  have hslot : c.slot r.head = c.slot (h + 0) := by rw [hr.head_eq, RingSize.slot_wrap]; rfl
  obtain ⟨hseq, hdata⟩ := hr.full 0 x rfl
  have hpos : ¬ signedDiff (r.sequence (c.slot r.head)) (wrap (r.head + 1)) < 0 := by
    rw [hslot, hseq, hr.head_eq, wrap_wrap_add, signedDiff_wrap (by omega) (by omega)]
    omega
  refine ⟨_, by simp only [tryPop]; rw [if_neg hpos, hslot, hdata], ?_, ?_, by omega, ?_, ?_⟩
  · show wrap (r.head + 1) = wrap (h + 1)
    rw [hr.head_eq, wrap_wrap_add]
  · show r.tail = wrap (h + 1 + q.length)
    rw [hr.tail_eq, List.length_cons]
    congr 1
    omega
  · intro i y hi
    have hlt : i < q.length := (List.getElem?_eq_some_iff.mp hi).1
    have hne : c.slot (h + 1 + i) ≠ c.slot (h + 0) := by
      rw [Nat.add_assoc]
      exact slot_ne_of_offset (by omega) (by omega) (by omega)
    obtain ⟨hs, hd⟩ := hr.full (i + 1) y (by simpa using hi)
    rw [Nat.add_comm i 1, ← Nat.add_assoc] at hs hd
    exact ⟨(Function.update_of_ne hne _ _).trans hs, (Function.update_of_ne hne _ _).trans hd⟩
  · intro i hle hi
    by_cases hlast : i + 1 = c.size
    · -- the slot handed back by this pop
      have hback : c.slot (h + 1 + i) = c.slot (h + 0) := by
        rw [Nat.add_assoc, Nat.add_comm 1 i, hlast, RingSize.slot_add_size]; rfl
      rw [hback]
      show Function.update r.sequence (c.slot (h + 0)) (wrap (r.head + c.size)) _ = _
      rw [Function.update_self, hr.head_eq, wrap_wrap_add]
      congr 1
      omega
    · have hne : c.slot (h + 1 + i) ≠ c.slot (h + 0) := by
        rw [Nat.add_assoc]
        exact slot_ne_of_offset (by omega) (by omega) (by omega)
      have hs := hr.free (i + 1) (by simpa using hle) (by omega)
      rw [Nat.add_comm i 1, ← Nat.add_assoc] at hs
      exact (Function.update_of_ne hne _ _).trans hs

/-- The items read off the ring are the items it holds. -/
lemma items_eq (hr : RepresentsAt c r h q) : r.items c = q := by
  have hle := hr.length_le
  have hsize := c.size_le
  have hcount : r.size = q.length := by
    rw [Ring.size, hr.tail_eq, hr.head_eq]
    simp only [wrap]
    omega
  apply List.ext_getElem?
  intro i
  rw [Ring.items, hcount, List.getElem?_map]
  rcases Nat.lt_or_ge i q.length with hlt | hge
  · have hi : q[i]? = some q[i] := List.getElem?_eq_getElem hlt
    rw [List.getElem?_range hlt, hi, Option.map_some, hr.head_eq]
    have hslot : c.slot (wrap h + i) = c.slot (h + i) := by
      rw [← RingSize.slot_wrap, wrap_wrap_add, RingSize.slot_wrap]
    rw [hslot, (hr.full i _ hi).2]
  · rw [List.getElem?_eq_none (by simpa using hge), List.getElem?_eq_none hge]
    rfl

end RepresentsAt

/-- `try_push` on a ring that holds `q`. -/
lemma Represents.tryPush {c : RingSize} {r : Ring T} {q : List T} (hr : Represents c r q)
    (spurious : ℕ) (item : T) :
    ∃ r', tryPush c spurious item r = some (decide (q.length < c.size), r') ∧
      Represents c r' (if q.length < c.size then q ++ [item] else q) := by
  obtain ⟨h, hr⟩ := hr
  by_cases hroom : q.length < c.size
  · refine ⟨r.put c item r.tail, ?_, h, ?_⟩
    · rw [Mpsc.tryPush, hr.tryPushLoop_room hroom, decide_eq_true hroom]
    · rw [if_pos hroom]
      exact hr.put hroom item
  · refine ⟨r, ?_, h, ?_⟩
    · rw [Mpsc.tryPush, hr.tryPushLoop_full (le_antisymm hr.length_le (not_lt.mp hroom)),
        decide_eq_false hroom]
    · rw [if_neg hroom]
      exact hr

end TickPlant.Mpsc
