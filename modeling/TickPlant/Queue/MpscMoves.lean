/-
# What one operation of the MPSC ring buffer does

An operation of `try_push` moves its own call on, and pushes an item when it claims a position;
an operation of `try_pop` moves the consumer on, and returns an item at its end.  `PushMove` and
`PopMove` list the cases.
-/
import TickPlant.Queue.MpscInv

namespace TickPlant.Mpsc

variable {P T : Type} {c : RingSize}

/-- The item of a call that has not claimed a position yet. -/
def PushPc.Seeks : PushPc T → T → Prop
  | .loadTail x, y => x = y
  | .loadSeq x _, y => x = y
  | .cas x _, y => x = y
  | _, _ => False

/-- The item of a call that has claimed a position. -/
def PushPc.Holds : PushPc T → T → Prop
  | .writeData x _, y => x = y
  | .storeSeq x _, y => x = y
  | _, _ => False

/-- What an operation of `try_push` does to its own call and to the items pushed, where `tail_`
is `tail`. -/
inductive PushMove (tail : ℕ) : PushPc T → List T → PushPc T → List T → Prop
  | seek {pc pc' : PushPc T} {x : T} {pushed : List T} (h : pc.Seeks x) (h' : pc'.Seeks x) :
      PushMove tail pc pushed pc' pushed
  | refuse {x : T} {pos : ℕ} {pushed : List T} :
      PushMove tail (.loadSeq x pos) pushed (.returned false) pushed
  | claim {x : T} {pushed : List T} :
      PushMove tail (.cas x tail) pushed (.writeData x tail) (pushed ++ [x])
  | write {x : T} {pos : ℕ} {pushed : List T} :
      PushMove tail (.writeData x pos) pushed (.storeSeq x pos) pushed
  | publish {x : T} {pos : ℕ} {pushed : List T} :
      PushMove tail (.storeSeq x pos) pushed (.returned true) pushed

/-- What an operation of `try_pop` does to its call and to the items popped. -/
inductive PopMove : PopPc T → List T → PopPc T → List T → Prop
  | go {pc pc' : PopPc T} {popped : List T} (h : ¬ pc.Quiet) (h' : ¬ pc'.Quiet) :
      PopMove pc popped pc' popped
  | empty {pos : ℕ} {popped : List T} : PopMove (.loadSeq pos) popped (.returned none) popped
  | take {x : T} {pos : ℕ} {popped : List T} :
      PopMove (.storeHead pos x) popped (.returned (some x)) (popped ++ [x])

lemma PushMove.of_eq {tail : ℕ} {pc pc' pc'' : PushPc T} {pushed pushed' : List T}
    (heq : pc'' = pc') (h : PushMove tail pc pushed pc' pushed') :
    PushMove tail pc pushed pc'' pushed' := by
  rwa [heq]

variable [DecidableEq P]

lemma pushMove_of_step {s t : State P T} {p : P} {spurious : Bool}
    (hs : step c s (.push p spurious) = some t) :
    PushMove s.ring.tail (s.producers p) s.pushed (t.producers p) t.pushed ∧
      (∀ p', p' ≠ p → t.producers p' = s.producers p') ∧
      t.consumer = s.consumer ∧ t.popped = s.popped := by
  have hother : ∀ (pc : PushPc T) p', p' ≠ p → Function.update s.producers p pc p' = s.producers p' :=
    fun pc p' hp' => Function.update_of_ne hp' _ _
  cases move_of_step hs with
  | loadTail h =>
    rw [h]
    exact ⟨.of_eq (Function.update_self ..) (.seek rfl rfl), hother _, rfl, rfl⟩
  | free h =>
    rw [h]
    exact ⟨.of_eq (Function.update_self ..) (.seek rfl rfl), hother _, rfl, rfl⟩
  | full h =>
    rw [h]
    exact ⟨.of_eq (Function.update_self ..) .refuse, hother _, rfl, rfl⟩
  | behind h =>
    rw [h]
    exact ⟨.of_eq (Function.update_self ..) (.seek rfl rfl), hother _, rfl, rfl⟩
  | claim h htail =>
    obtain rfl := htail
    rw [h]
    exact ⟨.of_eq (Function.update_self ..) .claim, hother _, rfl, rfl⟩
  | reload h =>
    rw [h]
    exact ⟨.of_eq (Function.update_self ..) (.seek rfl rfl), hother _, rfl, rfl⟩
  | write h =>
    rw [h]
    exact ⟨.of_eq (Function.update_self ..) .write, hother _, rfl, rfl⟩
  | publish h =>
    rw [h]
    exact ⟨.of_eq (Function.update_self ..) .publish, hother _, rfl, rfl⟩

lemma popMove_of_step {s t : State P T} {left : T} (hs : step c s (.pop left) = some t) :
    PopMove s.consumer s.popped t.consumer t.popped ∧ t.producers = s.producers ∧
      t.pushed = s.pushed := by
  cases move_of_step hs with
  | loadHead h =>
    exact ⟨.go (by simp [PopPc.Quiet, h]) (by simp [PopPc.Quiet, State.setConsumer]), rfl, rfl⟩
  | empty h =>
    rw [h]
    exact ⟨.empty, rfl, rfl⟩
  | found h =>
    exact ⟨.go (by simp [PopPc.Quiet, h]) (by simp [PopPc.Quiet, State.setConsumer]), rfl, rfl⟩
  | take h => exact ⟨.go (by simp [PopPc.Quiet, h]) (by simp [PopPc.Quiet, State.take]), rfl, rfl⟩
  | reclaim h =>
    exact ⟨.go (by simp [PopPc.Quiet, h]) (by simp [PopPc.Quiet, State.reclaim]), rfl, rfl⟩
  | advance h =>
    rw [h]
    exact ⟨.take, rfl, rfl⟩

lemma callPush_of_step {s t : State P T} {p : P} {x : T}
    (hs : step c s (.callPush p x) = some t) :
    t = s.setProducer p (.loadTail x) ∧ (s.producers p).Quiet := by
  cases move_of_step hs with
  | callPush h => exact ⟨rfl, h⟩

lemma callPop_of_step {s t : State P T} (hs : step c s .callPop = some t) :
    t = s.setConsumer .loadHead ∧ s.consumer.Quiet := by
  cases move_of_step hs with
  | callPop h => exact ⟨rfl, h⟩

end TickPlant.Mpsc
