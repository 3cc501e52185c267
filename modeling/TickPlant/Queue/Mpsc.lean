/-
# The MPSC ring buffer

`MPSCRingBuffer` is a bounded queue for many producers and one consumer.  Each slot has a
sequence counter: a producer that reads `pos` from `tail_` may claim the slot of `pos` when
the counter is `pos`, publishes its item by setting the counter to `pos + 1`, and the
consumer hands the slot back by setting it to `pos + Size`.

The model is the interleaving of the atomic operations: one step is one load, store,
compare-exchange or data access of one thread.  `size_t` values are natural numbers with
additions taken modulo `2 ^ 64`, and the signed comparison of a counter with a position is
`signedDiff`.  The state carries, beside the memory and the threads' locals, the history
that the properties speak of: the items in the order their compare-exchange succeeded, the
items returned by `try_pop`, and the number of slots handed back.
-/
import TickPlant.Lib.Run

namespace TickPlant.Mpsc

/-! ## Machine words -/

/-- A `size_t` sum. -/
def wrap (n : ℕ) : ℕ := n % 2 ^ 64

/-- `static_cast<intptr_t>(x)`. -/
def toIntptr (x : ℕ) : ℤ := if x < 2 ^ 63 then x else x - 2 ^ 64

/-- `static_cast<intptr_t>(a) - static_cast<intptr_t>(b)`, in two's complement. -/
def signedDiff (a b : ℕ) : ℤ := (toIntptr a - toIntptr b + 2 ^ 63) % 2 ^ 64 - 2 ^ 63

/-- The template argument `Size`: a power of two, at least `2`, that fits in `size_t`. -/
structure RingSize where
  log : ℕ
  log_pos : 1 ≤ log
  log_lt : log < 64

namespace RingSize

/-- `Size`. -/
def size (c : RingSize) : ℕ := 2 ^ c.log

/-- The slot of a position, `pos & (Size - 1)`. -/
def slot (c : RingSize) (pos : ℕ) : ℕ := pos &&& (c.size - 1)

lemma slot_eq (c : RingSize) (pos : ℕ) : c.slot pos = pos % c.size :=
  Nat.and_two_pow_sub_one_eq_mod pos c.log

lemma two_le_size (c : RingSize) : 2 ≤ c.size := by
  calc 2 = 2 ^ 1 := rfl
    _ ≤ 2 ^ c.log := Nat.pow_le_pow_right (by norm_num) c.log_pos

lemma size_le (c : RingSize) : c.size ≤ 2 ^ 63 :=
  Nat.pow_le_pow_right (by norm_num) (by have := c.log_lt; omega)

/-- Positions of one window of length `Size` lie in distinct slots. -/
lemma slot_inj {c : RingSize} {r q q' : ℕ} (hq : r ≤ q) (hq' : r ≤ q') (hlt : q < r + c.size)
    (hlt' : q' < r + c.size) (h : c.slot q = c.slot q') : q = q' := by
  rw [slot_eq, slot_eq] at h
  rcases le_total q q' with hle | hle
  · have hdvd : c.size ∣ q' - q := (Nat.modEq_iff_dvd' hle).mp h
    have := Nat.eq_zero_of_dvd_of_lt hdvd (by omega)
    omega
  · have hdvd : c.size ∣ q - q' := (Nat.modEq_iff_dvd' hle).mp h.symm
    have := Nat.eq_zero_of_dvd_of_lt hdvd (by omega)
    omega

/-- Every slot is the slot of some position of a window of length `Size`. -/
lemma exists_slot_eq (c : RingSize) (r pos : ℕ) :
    ∃ q, r ≤ q ∧ q < r + c.size ∧ c.slot q = c.slot pos := by
  have hpos : 0 < c.size := by have := c.two_le_size; omega
  have hr := Nat.mod_lt r hpos
  refine ⟨r + (pos + (c.size - r % c.size)) % c.size, Nat.le_add_right _ _, ?_, ?_⟩
  · have := Nat.mod_lt (pos + (c.size - r % c.size)) hpos
    omega
  · rw [slot_eq, slot_eq, Nat.add_mod, Nat.mod_mod, ← Nat.add_mod]
    have hsum : r + (pos + (c.size - r % c.size)) = pos + c.size * (r / c.size + 1) := by
      have := Nat.div_add_mod r c.size
      rw [Nat.mul_add, Nat.mul_one]
      omega
    rw [hsum, Nat.add_mul_mod_self_left]

lemma slot_add_size (c : RingSize) (pos : ℕ) : c.slot (pos + c.size) = c.slot pos := by
  rw [slot_eq, slot_eq, Nat.add_mod_right]

/-- `Size` divides the range of `size_t`, so the mask of a position does not see its wrap. -/
lemma slot_wrap (c : RingSize) (n : ℕ) : c.slot (wrap n) = c.slot n := by
  have hdvd : c.size ∣ 2 ^ 64 := pow_dvd_pow 2 c.log_lt.le
  rw [slot_eq, slot_eq, wrap, Nat.mod_mod_of_dvd _ hdvd]

end RingSize

/-- The smallest buffer. -/
def sizeTwo : RingSize := ⟨1, le_rfl, by norm_num⟩

/-! ## The state -/

/-- The memory of the buffer: `head_`, `tail_` and the slots. -/
structure Ring (T : Type) where
  head : ℕ
  tail : ℕ
  sequence : ℕ → ℕ
  data : ℕ → T

/-- Where a producer stands: outside a call, or before an atomic operation of `try_push`. -/
inductive PushPc (T : Type)
  /-- Outside any call. -/
  | idle
  /-- Before `pos = tail_.load()`, at the start of the call or after `diff > 0`. -/
  | loadTail (item : T)
  /-- Before `seq = slot.sequence.load()`. -/
  | loadSeq (item : T) (pos : ℕ)
  /-- Before the compare-exchange on `tail_`. -/
  | cas (item : T) (pos : ℕ)
  /-- The position is claimed, before `slot.data = item`. -/
  | writeData (item : T) (pos : ℕ)
  /-- Before `slot.sequence.store(pos + 1)`. -/
  | storeSeq (item : T) (pos : ℕ)
  /-- The call has returned. -/
  | returned (ok : Bool)
deriving DecidableEq

/-- Where the consumer stands: outside a call, or before an atomic operation of
`try_pop`. -/
inductive PopPc (T : Type)
  /-- Outside any call. -/
  | idle
  /-- Before `pos = head_.load()`. -/
  | loadHead
  /-- Before `seq = slot.sequence.load()`. -/
  | loadSeq (pos : ℕ)
  /-- Before `item = std::move(slot.data)`. -/
  | readData (pos : ℕ)
  /-- Before `slot.sequence.store(pos + Size)`. -/
  | storeSeq (pos : ℕ) (item : T)
  /-- Before `head_.store(pos + 1)`. -/
  | storeHead (pos : ℕ) (item : T)
  /-- The call has returned, with an item or with `false`. -/
  | returned (item : Option T)
deriving DecidableEq

/-- The producer is outside any call. -/
def PushPc.Quiet {T : Type} (pc : PushPc T) : Prop := pc = .idle ∨ ∃ ok, pc = .returned ok

/-- The consumer is outside any call. -/
def PopPc.Quiet {T : Type} (pc : PopPc T) : Prop := pc = .idle ∨ ∃ x, pc = .returned x

/-- The buffer, its threads and their history. -/
structure State (P T : Type) where
  ring : Ring T
  producers : P → PushPc T
  consumer : PopPc T
  /-- The items pushed, in the order their compare-exchange succeeded. -/
  pushed : List T
  /-- The items returned by `try_pop`, in order. -/
  popped : List T
  /-- The number of slots handed back by the consumer. -/
  reclaimed : ℕ

/-- What may happen next. -/
inductive Action (P T : Type)
  /-- Producer `p` calls `try_push(item)`. -/
  | callPush (p : P) (item : T)
  /-- Producer `p` executes its next atomic operation; a compare-exchange may fail
  spuriously. -/
  | push (p : P) (spurious : Bool)
  /-- The consumer calls `try_pop`. -/
  | callPop
  /-- The consumer executes its next atomic operation; a moved-from slot is left with an
  arbitrary value. -/
  | pop (left : T)

variable {P T : Type} [DecidableEq P]

/-- The buffer as constructed; the slots' data are whatever default construction gives. -/
def State.init (d : ℕ → T) : State P T where
  ring := { head := 0, tail := 0, sequence := fun i => i, data := d }
  producers := fun _ => .idle
  consumer := .idle
  pushed := []
  popped := []
  reclaimed := 0

namespace State

/-- A producer moves on, with no effect on the memory. -/
def setProducer (s : State P T) (p : P) (pc : PushPc T) : State P T :=
  { s with producers := Function.update s.producers p pc }

/-- The compare-exchange of `tail_` from `pos` to `pos + 1` succeeds. -/
def claim (s : State P T) (p : P) (item : T) (pos : ℕ) : State P T :=
  { s with
    ring := { s.ring with tail := wrap (pos + 1) }
    producers := Function.update s.producers p (.writeData item pos)
    pushed := s.pushed ++ [item] }

/-- `slot.data = item` by a producer. -/
def write (s : State P T) (c : RingSize) (p : P) (item : T) (pos : ℕ) : State P T :=
  { s with
    ring := { s.ring with data := Function.update s.ring.data (c.slot pos) item }
    producers := Function.update s.producers p (.storeSeq item pos) }

/-- `slot.sequence.store(pos + 1)` by a producer. -/
def publish (s : State P T) (c : RingSize) (p : P) (pos : ℕ) : State P T :=
  { s with
    ring := { s.ring with
      sequence := Function.update s.ring.sequence (c.slot pos) (wrap (pos + 1)) }
    producers := Function.update s.producers p (.returned true) }

/-- The consumer moves on, with no effect on the memory. -/
def setConsumer (s : State P T) (pc : PopPc T) : State P T := { s with consumer := pc }

/-- `item = std::move(slot.data)` by the consumer. -/
def take (s : State P T) (c : RingSize) (left : T) (pos : ℕ) : State P T :=
  { s with
    ring := { s.ring with data := Function.update s.ring.data (c.slot pos) left }
    consumer := .storeSeq pos (s.ring.data (c.slot pos)) }

/-- `slot.sequence.store(pos + Size)` by the consumer. -/
def reclaim (s : State P T) (c : RingSize) (pos : ℕ) (item : T) : State P T :=
  { s with
    ring := { s.ring with
      sequence := Function.update s.ring.sequence (c.slot pos) (wrap (pos + c.size)) }
    consumer := .storeHead pos item
    reclaimed := s.reclaimed + 1 }

/-- `head_.store(pos + 1)`, after which `try_pop` returns the item. -/
def advance (s : State P T) (pos : ℕ) (item : T) : State P T :=
  { s with
    ring := { s.ring with head := wrap (pos + 1) }
    consumer := .returned (some item)
    popped := s.popped ++ [item] }

end State

/-! ## The steps -/

/-- One atomic operation of `MPSCRingBuffer::try_push`. -/
def stepPush (c : RingSize) (p : P) (spurious : Bool) (s : State P T) : Option (State P T) :=
  match s.producers p with
  | .idle | .returned _ => none
  | .loadTail item => some (s.setProducer p (.loadSeq item s.ring.tail))
  | .loadSeq item pos =>
    let diff := signedDiff (s.ring.sequence (c.slot pos)) pos
    if diff = 0 then some (s.setProducer p (.cas item pos))
    else if diff < 0 then some (s.setProducer p (.returned false))
    else some (s.setProducer p (.loadTail item))
  | .cas item pos =>
    if s.ring.tail = pos ∧ spurious = false then some (s.claim p item pos)
    -- a failed compare-exchange reloads `pos`
    else some (s.setProducer p (.loadSeq item s.ring.tail))
  | .writeData item pos => some (s.write c p item pos)
  | .storeSeq _ pos => some (s.publish c p pos)

/-- One atomic operation of `MPSCRingBuffer::try_pop`. -/
def stepPop (c : RingSize) (left : T) (s : State P T) : Option (State P T) :=
  match s.consumer with
  | .idle | .returned _ => none
  | .loadHead => some (s.setConsumer (.loadSeq s.ring.head))
  | .loadSeq pos =>
    if signedDiff (s.ring.sequence (c.slot pos)) (wrap (pos + 1)) < 0 then
      some (s.setConsumer (.returned none))
    else some (s.setConsumer (.readData pos))
  | .readData pos => some (s.take c left pos)
  | .storeSeq pos item => some (s.reclaim c pos item)
  | .storeHead pos item => some (s.advance pos item)

/-- One step of the system; `none` when the action is not possible. -/
def step (c : RingSize) (s : State P T) : Action P T → Option (State P T)
  | .callPush p item =>
    match s.producers p with
    | .idle | .returned _ => some (s.setProducer p (.loadTail item))
    | _ => none
  | .push p spurious => stepPush c p spurious s
  | .callPop =>
    match s.consumer with
    | .idle | .returned _ => some (s.setConsumer .loadHead)
    | _ => none
  | .pop left => stepPop c left s

/-- `step` as a transition relation. -/
def Step (c : RingSize) (s : State P T) (a : Action P T) (t : State P T) : Prop :=
  step c s a = some t

/-- What a step can do, one constructor for each operation and outcome. -/
inductive Move (c : RingSize) (s : State P T) : Action P T → State P T → Prop
  | callPush {p : P} {item : T} (h : (s.producers p).Quiet) :
      Move c s (.callPush p item) (s.setProducer p (.loadTail item))
  | loadTail {p : P} {spurious : Bool} {item : T} (h : s.producers p = .loadTail item) :
      Move c s (.push p spurious) (s.setProducer p (.loadSeq item s.ring.tail))
  | free {p : P} {spurious : Bool} {item : T} {pos : ℕ} (h : s.producers p = .loadSeq item pos)
      (hdiff : signedDiff (s.ring.sequence (c.slot pos)) pos = 0) :
      Move c s (.push p spurious) (s.setProducer p (.cas item pos))
  | full {p : P} {spurious : Bool} {item : T} {pos : ℕ} (h : s.producers p = .loadSeq item pos)
      (hdiff : signedDiff (s.ring.sequence (c.slot pos)) pos < 0) :
      Move c s (.push p spurious) (s.setProducer p (.returned false))
  | behind {p : P} {spurious : Bool} {item : T} {pos : ℕ} (h : s.producers p = .loadSeq item pos)
      (hne : ¬ signedDiff (s.ring.sequence (c.slot pos)) pos = 0)
      (hge : ¬ signedDiff (s.ring.sequence (c.slot pos)) pos < 0) :
      Move c s (.push p spurious) (s.setProducer p (.loadTail item))
  | claim {p : P} {item : T} {pos : ℕ} (h : s.producers p = .cas item pos)
      (htail : s.ring.tail = pos) : Move c s (.push p false) (s.claim p item pos)
  | reload {p : P} {spurious : Bool} {item : T} {pos : ℕ} (h : s.producers p = .cas item pos)
      (hfail : ¬ (s.ring.tail = pos ∧ spurious = false)) :
      Move c s (.push p spurious) (s.setProducer p (.loadSeq item s.ring.tail))
  | write {p : P} {spurious : Bool} {item : T} {pos : ℕ} (h : s.producers p = .writeData item pos) :
      Move c s (.push p spurious) (s.write c p item pos)
  | publish {p : P} {spurious : Bool} {item : T} {pos : ℕ} (h : s.producers p = .storeSeq item pos) :
      Move c s (.push p spurious) (s.publish c p pos)
  | callPop (h : s.consumer.Quiet) : Move c s .callPop (s.setConsumer .loadHead)
  | loadHead {left : T} (h : s.consumer = .loadHead) :
      Move c s (.pop left) (s.setConsumer (.loadSeq s.ring.head))
  | empty {left : T} {pos : ℕ} (h : s.consumer = .loadSeq pos)
      (hdiff : signedDiff (s.ring.sequence (c.slot pos)) (wrap (pos + 1)) < 0) :
      Move c s (.pop left) (s.setConsumer (.returned none))
  | found {left : T} {pos : ℕ} (h : s.consumer = .loadSeq pos)
      (hdiff : ¬ signedDiff (s.ring.sequence (c.slot pos)) (wrap (pos + 1)) < 0) :
      Move c s (.pop left) (s.setConsumer (.readData pos))
  | take {left : T} {pos : ℕ} (h : s.consumer = .readData pos) :
      Move c s (.pop left) (s.take c left pos)
  | reclaim {left : T} {pos : ℕ} {item : T} (h : s.consumer = .storeSeq pos item) :
      Move c s (.pop left) (s.reclaim c pos item)
  | advance {left : T} {pos : ℕ} {item : T} (h : s.consumer = .storeHead pos item) :
      Move c s (.pop left) (s.advance pos item)

lemma move_of_stepPush {c : RingSize} {s t : State P T} {p : P} {spurious : Bool}
    (hs : stepPush c p spurious s = some t) : Move c s (.push p spurious) t := by
  simp only [stepPush] at hs
  split at hs
  · exact absurd hs (by simp)
  · exact absurd hs (by simp)
  · rename_i h; rw [← Option.some.inj hs]; exact .loadTail h
  · rename_i h
    split at hs
    · rename_i hdiff; rw [← Option.some.inj hs]; exact .free h hdiff
    · rename_i hne
      split at hs
      · rename_i hdiff; rw [← Option.some.inj hs]; exact .full h hdiff
      · rename_i hge; rw [← Option.some.inj hs]; exact .behind h hne hge
  · rename_i h
    split at hs
    · rename_i hcond; rw [← Option.some.inj hs, hcond.2]; exact .claim h hcond.1
    · rename_i hfail; rw [← Option.some.inj hs]; exact .reload h hfail
  · rename_i h; rw [← Option.some.inj hs]; exact .write h
  · rename_i h; rw [← Option.some.inj hs]; exact .publish h

lemma move_of_stepPop {c : RingSize} {s t : State P T} {left : T}
    (hs : stepPop c left s = some t) : Move c s (.pop left) t := by
  simp only [stepPop] at hs
  split at hs
  · exact absurd hs (by simp)
  · exact absurd hs (by simp)
  · rename_i h; rw [← Option.some.inj hs]; exact .loadHead h
  · rename_i h
    split at hs
    · rename_i hdiff; rw [← Option.some.inj hs]; exact .empty h hdiff
    · rename_i hdiff; rw [← Option.some.inj hs]; exact .found h hdiff
  · rename_i h; rw [← Option.some.inj hs]; exact .take h
  · rename_i h; rw [← Option.some.inj hs]; exact .reclaim h
  · rename_i h; rw [← Option.some.inj hs]; exact .advance h

/-- Every step is one of the moves. -/
lemma move_of_step {c : RingSize} {s t : State P T} {a : Action P T} (hs : Step c s a t) :
    Move c s a t := by
  cases a with
  | callPush p item =>
    simp only [Step, step] at hs
    split at hs
    · rename_i h; rw [← Option.some.inj hs]; exact .callPush (Or.inl h)
    · rename_i ok h; rw [← Option.some.inj hs]; exact .callPush (Or.inr ⟨ok, h⟩)
    · exact absurd hs (by simp)
  | push p spurious => exact move_of_stepPush hs
  | callPop =>
    simp only [Step, step] at hs
    split at hs
    · rename_i h; rw [← Option.some.inj hs]; exact .callPop (Or.inl h)
    · rename_i x h; rw [← Option.some.inj hs]; exact .callPop (Or.inr ⟨x, h⟩)
    · exact absurd hs (by simp)
  | pop left => exact move_of_stepPop hs

end TickPlant.Mpsc
