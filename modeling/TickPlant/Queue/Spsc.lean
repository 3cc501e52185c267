/-
# The SPSC ring buffers

`SPSCRingBuffer` and `BlockingSPSCRingBuffer` are bounded queues for one producer and one
consumer.  Unlike those of the MPSC buffer their indices are reduced modulo `Size` at every
store, and one slot stays unused so that `head_ == tail_` means empty.  The two classes
differ in one place: a push that the blocking variant rejects is counted in
`dropped_count_` before the call returns.

The model is the interleaving of the atomic operations.  The state carries the history
that the properties speak of: the items accepted, in the order of the stores to `tail_`,
the items returned by `try_pop`, and the results of the pushes that returned since the last
`reset_dropped_count`.
-/
import TickPlant.Queue.Mpsc

namespace TickPlant.Spsc

open Lib Mpsc

/-! ## The state -/

/-- The two classes of `ring_buffer.hpp`. -/
inductive Variant
  /-- `SPSCRingBuffer`. -/
  | plain
  /-- `BlockingSPSCRingBuffer`. -/
  | blocking
deriving DecidableEq

/-- The memory of a buffer; `dropped` is the `uint64_t` counter of the blocking variant. -/
structure Ring (T : Type) where
  head : ℕ
  tail : ℕ
  buffer : ℕ → T
  dropped : ℕ

/-- Where the producer stands: outside a call, or before an operation of `try_push`
(`push` in the blocking variant). -/
inductive PushPc (T : Type)
  /-- Outside any call. -/
  | idle
  /-- Before `current_tail = tail_.load()`. -/
  | loadTail (item : T)
  /-- Before the comparison of `next_tail` with `head_.load()`. -/
  | loadHead (item : T) (currentTail : ℕ)
  /-- Before `dropped_count_.fetch_add(1)`, in the blocking variant. -/
  | countDrop
  /-- Before `buffer_[current_tail] = item`. -/
  | write (item : T) (currentTail : ℕ)
  /-- Before `tail_.store(next_tail)`. -/
  | storeTail (item : T) (currentTail : ℕ)
  /-- The call has returned. -/
  | returned (ok : Bool)
deriving DecidableEq

/-- Where the consumer stands: outside a call, or before an operation of `try_pop`. -/
inductive PopPc (T : Type)
  /-- Outside any call. -/
  | idle
  /-- Before `current_head = head_.load()`. -/
  | loadHead
  /-- Before the comparison of `current_head` with `tail_.load()`. -/
  | loadTail (currentHead : ℕ)
  /-- Before `item = buffer_[current_head]`. -/
  | read (currentHead : ℕ)
  /-- Before `head_.store(current_head + 1)`, masked. -/
  | storeHead (currentHead : ℕ) (item : T)
  /-- The call has returned, with an item or with `false`. -/
  | returned (item : Option T)
deriving DecidableEq

/-- The buffer, its two threads and their history. -/
structure State (T : Type) where
  ring : Ring T
  producer : PushPc T
  consumer : PopPc T
  /-- The items accepted, in the order of the stores to `tail_`. -/
  pushed : List T
  /-- The items returned by `try_pop`, in order. -/
  popped : List T
  /-- What the pushes returned that ended since the last reset of the counter. -/
  results : List Bool

/-- What may happen next. -/
inductive Action (T : Type)
  /-- The producer calls `try_push(item)`. -/
  | callPush (item : T)
  /-- The producer executes its next operation. -/
  | push
  /-- The consumer calls `try_pop`. -/
  | callPop
  /-- The consumer executes its next operation. -/
  | pop
  /-- Some thread executes the store of `reset_dropped_count`. -/
  | resetDropped

variable {T : Type}

/-- The buffer as constructed. -/
def State.init (d : ℕ → T) : State T where
  ring := { head := 0, tail := 0, buffer := d, dropped := 0 }
  producer := .idle
  consumer := .idle
  pushed := []
  popped := []
  results := []

/-! ## The steps -/

/-- The index after `i`: `(i + 1) & (Size - 1)`. -/
def nextIndex (c : RingSize) (i : ℕ) : ℕ := c.slot (wrap (i + 1))

namespace State

/-- The producer moves on, with no effect on the memory. -/
def setProducer (s : State T) (pc : PushPc T) : State T := { s with producer := pc }

/-- The consumer moves on, with no effect on the memory. -/
def setConsumer (s : State T) (pc : PopPc T) : State T := { s with consumer := pc }

/-- A push ends with `false`. -/
def reject (s : State T) : State T :=
  { s with producer := .returned false, results := s.results ++ [false] }

/-- `dropped_count_.fetch_add(1)`, after which `push` returns `false`. -/
def countDrop (s : State T) : State T :=
  { s with ring := { s.ring with dropped := wrap (s.ring.dropped + 1) } }.reject

/-- `buffer_[current_tail] = item`. -/
def write (s : State T) (item : T) (currentTail : ℕ) : State T :=
  { s with
    ring := { s.ring with buffer := Function.update s.ring.buffer currentTail item }
    producer := .storeTail item currentTail }

/-- `tail_.store(next_tail)`, after which the push returns `true`. -/
def accept (s : State T) (c : RingSize) (item : T) (currentTail : ℕ) : State T :=
  { s with
    ring := { s.ring with tail := nextIndex c currentTail }
    producer := .returned true
    pushed := s.pushed ++ [item]
    results := s.results ++ [true] }

/-- The store to `head_`, after which `try_pop` returns the item. -/
def advance (s : State T) (c : RingSize) (currentHead : ℕ) (item : T) : State T :=
  { s with
    ring := { s.ring with head := nextIndex c currentHead }
    consumer := .returned (some item)
    popped := s.popped ++ [item] }

/-- `dropped_count_.store(0)`. -/
def resetDropped (s : State T) : State T :=
  { s with ring := { s.ring with dropped := 0 }, results := [] }

end State

/-- One operation of `SPSCRingBuffer::try_push` or `BlockingSPSCRingBuffer::push`. -/
def stepPush (v : Variant) (c : RingSize) (s : State T) : Option (State T) :=
  match s.producer with
  | .idle | .returned _ => none
  | .loadTail item => some (s.setProducer (.loadHead item s.ring.tail))
  | .loadHead item currentTail =>
    if nextIndex c currentTail = s.ring.head then
      match v with
      | .plain => some s.reject
      | .blocking => some (s.setProducer .countDrop)
    else some (s.setProducer (.write item currentTail))
  | .countDrop => some s.countDrop
  | .write item currentTail => some (s.write item currentTail)
  | .storeTail item currentTail => some (s.accept c item currentTail)

/-- One operation of `try_pop`, the same in both classes. -/
def stepPop (c : RingSize) (s : State T) : Option (State T) :=
  match s.consumer with
  | .idle | .returned _ => none
  | .loadHead => some (s.setConsumer (.loadTail s.ring.head))
  | .loadTail currentHead =>
    if currentHead = s.ring.tail then some (s.setConsumer (.returned none))
    else some (s.setConsumer (.read currentHead))
  | .read currentHead => some (s.setConsumer (.storeHead currentHead (s.ring.buffer currentHead)))
  | .storeHead currentHead item => some (s.advance c currentHead item)

/-- One step of the system; `none` when the action is not possible. -/
def step (v : Variant) (c : RingSize) (s : State T) : Action T → Option (State T)
  | .callPush item =>
    match s.producer with
    | .idle | .returned _ => some (s.setProducer (.loadTail item))
    | _ => none
  | .push => stepPush v c s
  | .callPop =>
    match s.consumer with
    | .idle | .returned _ => some (s.setConsumer .loadHead)
    | _ => none
  | .pop => stepPop c s
  | .resetDropped =>
    match v with
    | .plain => none
    | .blocking => some s.resetDropped

/-- `step` as a transition relation. -/
def Step (v : Variant) (c : RingSize) (s : State T) (a : Action T) (t : State T) : Prop :=
  step v c s a = some t

/-- What a step can do, one constructor for each operation. -/
inductive Move (v : Variant) (c : RingSize) (s : State T) : State T → Prop
  | callPush (item : T) : Move v c s (s.setProducer (.loadTail item))
  | loadTail {item : T} (h : s.producer = .loadTail item) :
      Move v c s (s.setProducer (.loadHead item s.ring.tail))
  | reject {item : T} {tl : ℕ} (hv : v = .plain) (h : s.producer = .loadHead item tl)
      (hfull : nextIndex c tl = s.ring.head) : Move v c s s.reject
  | full {item : T} {tl : ℕ} (hv : v = .blocking) (h : s.producer = .loadHead item tl)
      (hfull : nextIndex c tl = s.ring.head) : Move v c s (s.setProducer .countDrop)
  | room {item : T} {tl : ℕ} (h : s.producer = .loadHead item tl)
      (hroom : nextIndex c tl ≠ s.ring.head) : Move v c s (s.setProducer (.write item tl))
  | countDrop (h : s.producer = .countDrop) : Move v c s s.countDrop
  | write {item : T} {tl : ℕ} (h : s.producer = .write item tl) : Move v c s (s.write item tl)
  | accept {item : T} {tl : ℕ} (h : s.producer = .storeTail item tl) :
      Move v c s (s.accept c item tl)
  | callPop : Move v c s (s.setConsumer .loadHead)
  | loadHead (h : s.consumer = .loadHead) : Move v c s (s.setConsumer (.loadTail s.ring.head))
  | empty {hd : ℕ} (h : s.consumer = .loadTail hd) (hempty : hd = s.ring.tail) :
      Move v c s (s.setConsumer (.returned none))
  | found {hd : ℕ} (h : s.consumer = .loadTail hd) (hfound : hd ≠ s.ring.tail) :
      Move v c s (s.setConsumer (.read hd))
  | read {hd : ℕ} (h : s.consumer = .read hd) :
      Move v c s (s.setConsumer (.storeHead hd (s.ring.buffer hd)))
  | advance {hd : ℕ} {item : T} (h : s.consumer = .storeHead hd item) :
      Move v c s (s.advance c hd item)
  | resetDropped (hv : v = .blocking) : Move v c s s.resetDropped

lemma move_of_stepPush {v : Variant} {c : RingSize} {s t : State T}
    (hs : stepPush v c s = some t) : Move v c s t := by
  simp only [stepPush] at hs
  split at hs
  · exact absurd hs (by simp)
  · exact absurd hs (by simp)
  · rename_i h; rw [← Option.some.inj hs]; exact .loadTail h
  · rename_i h
    split at hs
    · rename_i hfull
      split at hs
      · rw [← Option.some.inj hs]; exact .reject rfl h hfull
      · rw [← Option.some.inj hs]; exact .full rfl h hfull
    · rename_i hroom; rw [← Option.some.inj hs]; exact .room h hroom
  · rename_i h; rw [← Option.some.inj hs]; exact .countDrop h
  · rename_i h; rw [← Option.some.inj hs]; exact .write h
  · rename_i h; rw [← Option.some.inj hs]; exact .accept h

lemma move_of_stepPop {v : Variant} {c : RingSize} {s t : State T}
    (hs : stepPop c s = some t) : Move v c s t := by
  simp only [stepPop] at hs
  split at hs
  · exact absurd hs (by simp)
  · exact absurd hs (by simp)
  · rename_i h; rw [← Option.some.inj hs]; exact .loadHead h
  · rename_i h
    split at hs
    · rename_i hempty; rw [← Option.some.inj hs]; exact .empty h hempty
    · rename_i hfound; rw [← Option.some.inj hs]; exact .found h hfound
  · rename_i h; rw [← Option.some.inj hs]; exact .read h
  · rename_i h; rw [← Option.some.inj hs]; exact .advance h

/-- Every step is one of the moves. -/
lemma move_of_step {v : Variant} {c : RingSize} {s t : State T} {a : Action T}
    (hs : Step v c s a t) : Move v c s t := by
  cases a with
  | callPush item =>
    simp only [Step, step] at hs
    split at hs
    · rw [← Option.some.inj hs]; exact .callPush item
    · rw [← Option.some.inj hs]; exact .callPush item
    · exact absurd hs (by simp)
  | push => exact move_of_stepPush hs
  | callPop =>
    simp only [Step, step] at hs
    split at hs
    · rw [← Option.some.inj hs]; exact .callPop
    · rw [← Option.some.inj hs]; exact .callPop
    · exact absurd hs (by simp)
  | pop => exact move_of_stepPop hs
  | resetDropped =>
    simp only [Step, step] at hs
    split at hs
    · exact absurd hs (by simp)
    · rw [← Option.some.inj hs]; exact .resetDropped rfl

/-! ## The properties -/

/-- The number of items accepted and not yet returned. -/
def State.unconsumed (s : State T) : ℕ := s.pushed.length - s.popped.length

/-- The slot `i` holds the accepted item `item`, which has not been returned. -/
def HoldsUnconsumed (c : RingSize) (s : State T) (i : ℕ) (item : T) : Prop :=
  ∃ q, s.popped.length ≤ q ∧ s.pushed[q]? = some item ∧ c.slot q = i

/-- The push has failed: it is about to return `false` or has done so. -/
def PushPc.Failed : PushPc T → Prop
  | .countDrop | .returned false => True
  | _ => False

/-- The number of pushes rejected since the last reset. -/
def State.rejected (s : State T) : ℕ := s.results.count false

end TickPlant.Spsc
