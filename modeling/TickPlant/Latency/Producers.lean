/-
# Many threads complete measurements

`complete_measurement` pushes into a ring buffer for one producer, after it has released the
lock of the map.  Two threads that are inside `push` together may both load the same tail,
write the same slot and store the same next tail: one of the two measurements is lost.

The ring works as it does for one producer when no thread loads `tail_` while another has
loaded it and not yet stored it or given up (`Alone`).  Then the ring keeps the invariant of
its one-producer model, seen from each thread, and every completed measurement is in the
hands of its thread, or in the ring, in order, until it is popped.
-/
import TickPlant.Latency.Monitor

namespace TickPlant.Latency

open Lib Mpsc

variable {P : Type}

/-! ## The condition -/

/-- The thread has loaded `tail_`, and not yet stored it or given up. -/
def Caller.Loaded : Caller → Prop
  | .push (.loadHead _ _) | .push (.write _ _) | .push (.storeTail _ _) => True
  | _ => False

/-- Where the thread stands in `push`. -/
def Caller.pc : Caller → Spsc.PushPc LatencyMeasurement
  | .push pc => pc
  | _ => .idle

/-- The measurement that the thread is about to submit. -/
def Caller.carries : Caller → Option LatencyMeasurement
  | .push (.loadTail m) | .push (.loadHead m _) | .push (.write m _) | .push (.storeTail m _) =>
    some m
  | _ => none

/-- The condition on a step: `tail_` is loaded while no thread is between its load and its
store of it, and a call for the id `0` finds no measurement. -/
def Alone (s : State P) : Action P → Prop
  | .push p => (∃ m, s.callers p = .push (.loadTail m)) → ∀ p', ¬ (s.callers p').Loaded
  | .complete _ id => id = 0 → s.active 0 = none
  | _ => True

/-- A push has found the ring full. -/
def FoundFull (s : State P) : Prop :=
  false ∈ s.buffer.results ∨ ∃ p, s.callers p = .push .countDrop

/-! ## The ring, seen from each thread -/

/-- The ring is as its one producer would leave it, for each thread. -/
structure RingOk (s : State P) : Prop where
  inv : Spsc.Inv bufferSize s.buffer
  prod : ∀ p, Spsc.ProdOk bufferSize s.buffer (s.callers p).pc
  alone : ∀ p p', (s.callers p).Loaded → (s.callers p').Loaded → p = p'

/-- A thread that has not loaded `tail_` is content with any ring. -/
lemma prodOk_of_not_loaded {b : Spsc.State LatencyMeasurement} {cl : Caller}
    (h : ¬ cl.Loaded) : Spsc.ProdOk bufferSize b cl.pc := by
  cases cl with
  | push pc =>
    cases pc with
    | loadHead x tl => exact absurd trivial h
    | write x tl => exact absurd trivial h
    | storeTail x tl => exact absurd trivial h
    | _ => trivial
  | _ => trivial

/-- A thread in `push` sees the ring of the one-producer model. -/
lemma RingOk.view {s : State P} (h : RingOk s) {p : P} {pc : Spsc.PushPc LatencyMeasurement}
    (hpc : s.callers p = .push pc) : Spsc.Inv bufferSize (s.view pc) := by
  have hprod := h.prod p
  rw [hpc] at hprod
  exact h.inv.setProducer hprod

/-- The monitoring thread takes nothing from a producer that has found room. -/
lemma PopKeeps.prodOk {b b' : Spsc.State LatencyMeasurement} (h : PopKeeps b b')
    {pc : Spsc.PushPc LatencyMeasurement} (hpc : Spsc.ProdOk bufferSize b pc) :
    Spsc.ProdOk bufferSize b' pc := by
  have hle := h.popped_le
  cases pc with
  | loadHead x tl => exact hpc.trans h.tail_eq.symm
  | write x tl =>
    refine ⟨hpc.1.trans h.tail_eq.symm, ?_⟩
    have := hpc.2
    rw [h.pushed_eq]
    omega
  | storeTail x tl =>
    refine ⟨hpc.1.trans h.tail_eq.symm, ?_, ?_⟩
    · have := hpc.2.1
      rw [h.pushed_eq]
      omega
    · rw [h.buffer_eq]
      exact hpc.2.2
  | _ => trivial

/-- What the ring says of a thread after its operation of `push`. -/
lemma prodOk_after {b : Spsc.State LatencyMeasurement} (h : Spsc.Inv bufferSize b) :
    Spsc.ProdOk bufferSize (b.setProducer .idle) (Caller.after b.producer).pc := by
  have hprod := h.prod
  cases hpc : b.producer with
  | loadHead x tl => rw [hpc] at hprod; exact hprod
  | write x tl => rw [hpc] at hprod; exact hprod
  | storeTail x tl => rw [hpc] at hprod; exact hprod
  | _ => trivial

lemma RingOk.of_callers {s t : State P} (h : RingOk s) (hbuffer : t.buffer = s.buffer)
    (hcallers : t.callers = s.callers) : RingOk t :=
  ⟨by rw [hbuffer]; exact h.inv, by rw [hbuffer, hcallers]; exact h.prod,
    by rw [hcallers]; exact h.alone⟩

/-- An operation of the monitoring thread. -/
lemma RingOk.pop {s : State P} (h : RingOk s) {b : Spsc.State LatencyMeasurement}
    {a : Spsc.Action LatencyMeasurement} (ha : a = .callPop ∨ a = .pop)
    (hb : Spsc.step .blocking bufferSize s.buffer a = some b) : RingOk (s.afterPop b) :=
  ⟨Spsc.inv_step (v := .blocking) (a := a) h.inv hb,
    fun p => (popKeeps_of_step ha hb).prodOk (h.prod p), h.alone⟩

lemma ringOk_init : RingOk (State.init : State P) :=
  ⟨Spsc.inv_init _ _, fun _ => trivial, fun _ _ h => h.elim⟩

variable [DecidableEq P]

/-- The steps that meet the condition. -/
def AloneStep (s : State P) (a : Action P) (t : State P) : Prop := Step s a t ∧ Alone s a

/-- A thread that is not in `push` before or after moves outside the ring. -/
lemma RingOk.of_update {s t : State P} (h : RingOk s) {p : P} {cl : Caller}
    (hbuffer : t.buffer = s.buffer) (hcallers : t.callers = Function.update s.callers p cl)
    (hcl : ¬ cl.Loaded) : RingOk t := by
  have hloaded : ∀ p', (t.callers p').Loaded → p' ≠ p ∧ (s.callers p').Loaded := by
    intro p' hp'
    rw [hcallers] at hp'
    by_cases heq : p' = p
    · rw [heq, Function.update_self] at hp'
      exact absurd hp' hcl
    · rw [Function.update_of_ne heq] at hp'
      exact ⟨heq, hp'⟩
  refine ⟨by rw [hbuffer]; exact h.inv, ?_, ?_⟩
  · intro p'
    rw [hbuffer, hcallers]
    by_cases heq : p' = p
    · rw [heq, Function.update_self]
      exact prodOk_of_not_loaded hcl
    · rw [Function.update_of_ne heq]
      exact h.prod p'
  · intro p₁ p₂ h₁ h₂
    exact h.alone p₁ p₂ (hloaded p₁ h₁).2 (hloaded p₂ h₂).2

/-- An operation of `push` by a thread that meets the condition. -/
lemma RingOk.push {s : State P} (h : RingOk s) {p : P} {pc : Spsc.PushPc LatencyMeasurement}
    {b : Spsc.State LatencyMeasurement} (hpc : s.callers p = .push pc)
    (hb : Spsc.stepPush .blocking bufferSize (s.view pc) = some b)
    (halone : Alone s (.push p)) : RingOk (s.afterPush p b) := by
  have hinv : Spsc.Inv bufferSize b :=
    Spsc.inv_step (v := .blocking) (a := .push) (h.view hpc) hb
  have hself : (s.afterPush p b).callers p = .after b.producer := s.callers_afterPush p b
  have hother : ∀ p', p' ≠ p → (s.afterPush p b).callers p' = s.callers p' :=
    fun p' hne => Function.update_of_ne hne _ _
  -- a thread that works on the ring after this step is alone with it
  have hloaded : (Caller.after b.producer).Loaded → ∀ p', p' ≠ p → ¬ (s.callers p').Loaded := by
    intro hafter p' hne hp'
    cases pushMove_of_stepPush hb with
    | loadTail x => exact halone ⟨x, hpc⟩ p' hp'
    | full hfull => exact hafter
    | room hroom => exact hne (h.alone p' p hp' (by rw [hpc]; trivial))
    | countDrop => exact hafter
    | write x tl => exact hne (h.alone p' p hp' (by rw [hpc]; trivial))
    | accept x tl => exact hafter
  refine ⟨hinv.setProducer trivial, ?_, ?_⟩
  · intro p'
    by_cases hne : p' = p
    · rw [hne, hself]
      exact prodOk_after hinv
    · rw [hother p' hne]
      by_cases hp' : (s.callers p').Loaded
      · -- the step leaves alone what the other thread relies on
        have hprod := h.prod p'
        cases pushMove_of_stepPush hb with
        | loadTail x => exact absurd hp' (halone ⟨x, hpc⟩ p')
        | full hfull => exact absurd (h.alone p' p hp' (by rw [hpc]; trivial)) hne
        | room hroom => exact absurd (h.alone p' p hp' (by rw [hpc]; trivial)) hne
        | countDrop => exact hprod
        | write x tl => exact absurd (h.alone p' p hp' (by rw [hpc]; trivial)) hne
        | accept x tl => exact absurd (h.alone p' p hp' (by rw [hpc]; trivial)) hne
      · exact prodOk_of_not_loaded hp'
  · intro p₁ p₂ h₁ h₂
    by_cases hp₁ : p₁ = p <;> by_cases hp₂ : p₂ = p
    · rw [hp₁, hp₂]
    · rw [hp₁, hself] at h₁
      rw [hother p₂ hp₂] at h₂
      exact absurd h₂ (hloaded h₁ p₂ hp₂)
    · rw [hp₂, hself] at h₂
      rw [hother p₁ hp₁] at h₁
      exact absurd h₁ (hloaded h₂ p₁ hp₁)
    · rw [hother p₁ hp₁] at h₁
      rw [hother p₂ hp₂] at h₂
      exact h.alone p₁ p₂ h₁ h₂

/-- **A step that meets the condition keeps the ring in order.** -/
lemma ringOk_step {s t : State P} {a : Action P} (h : RingOk s) (hs : AloneStep s a t) :
    RingOk t := by
  obtain ⟨hs, halone⟩ := hs
  cases move_of_step hs with
  | start symbol exchange hpc => exact h.of_update rfl rfl id
  | insert hpc => exact h.of_update rfl rfl id
  | record id point t hpc => exact h.of_callers rfl rfl
  | complete id hpc =>
    rename_i p
    have hcallers := s.callers_completeMeasurement p id
    have hbuffer := s.buffer_completeMeasurement p id
    split_ifs at hcallers
    · exact h.of_callers hbuffer hcallers
    · cases hactive : s.active id with
      | none =>
        rw [hactive] at hcallers
        exact h.of_callers hbuffer hcallers
      | some m =>
        rw [hactive] at hcallers
        exact h.of_update hbuffer hcallers (fun hl => hl)
  | push hpc hb => exact h.push hpc hb halone
  | callPop hb => exact h.pop (Or.inl rfl) hb
  | pop hb => exact h.pop (Or.inr rfl) hb

/-! ## Where the completed measurements are -/

/-- Every completed measurement is carried by one thread or has been pushed once, unless a
push has found the ring full. -/
structure Accounted (s : State P) : Prop where
  carried : ∀ p m, (s.callers p).carries = some m → m ∈ s.completed ∧ m ∉ s.buffer.pushed
  carried_inj : ∀ p p' m, (s.callers p).carries = some m → (s.callers p').carries = some m →
    p = p'
  pushed_nodup : s.buffer.pushed.Nodup
  pushed_sub : s.buffer.pushed ⊆ s.completed
  kept : ∀ m ∈ s.completed, m ∈ s.buffer.pushed ∨ (∃ p, (s.callers p).carries = some m) ∨
    FoundFull s

omit [DecidableEq P] in
lemma accounted_init : Accounted (State.init : State P) :=
  ⟨fun _ _ h => absurd h (by simp [State.init, Caller.carries]),
    fun _ _ _ h => absurd h (by simp [State.init, Caller.carries]), List.nodup_nil,
    List.Subset.refl _, fun _ hm => absurd hm List.not_mem_nil⟩

omit [DecidableEq P] in
lemma accounted_same {s t : State P} (h : Accounted s) (hcompleted : t.completed = s.completed)
    (hpushed : t.buffer.pushed = s.buffer.pushed) (hresults : t.buffer.results = s.buffer.results)
    (hcallers : t.callers = s.callers) : Accounted t := by
  refine ⟨?_, by rw [hcallers]; exact h.carried_inj, by rw [hpushed]; exact h.pushed_nodup, by
    rw [hpushed, hcompleted]; exact h.pushed_sub, ?_⟩
  · rw [hcallers, hcompleted, hpushed]
    exact h.carried
  · rw [FoundFull, hcallers, hcompleted, hpushed, hresults]
    exact h.kept

/-- Who carries a measurement after the thread `p` has moved. -/
lemma carries_update {s t : State P} {p : P} {cl : Caller}
    (hcallers : t.callers = Function.update s.callers p cl) {p' : P} {m : LatencyMeasurement}
    (h : (t.callers p').carries = some m) :
    (p' = p ∧ cl.carries = some m) ∨ (p' ≠ p ∧ (s.callers p').carries = some m) := by
  rw [hcallers] at h
  by_cases hp : p' = p
  · rw [hp, Function.update_self] at h
    exact Or.inl ⟨hp, h⟩
  · rw [Function.update_of_ne hp] at h
    exact Or.inr ⟨hp, h⟩

/-- A full ring that was found stays on record. -/
lemma FoundFull.of_update {s t : State P} {p : P} {cl : Caller} (h : FoundFull s)
    (hresults : s.buffer.results ⊆ t.buffer.results)
    (hcallers : t.callers = Function.update s.callers p cl)
    (hp : s.callers p ≠ .push .countDrop) : FoundFull t := by
  rcases h with h | ⟨p', h⟩
  · exact Or.inl (hresults h)
  · have hne : p' ≠ p := by
      rintro rfl
      exact hp h
    exact Or.inr ⟨p', by rw [hcallers, Function.update_of_ne hne]; exact h⟩

/-- A thread moves on with what it carries. -/
lemma Accounted.of_update {s t : State P} (h : Accounted s) {p : P} {cl : Caller}
    (hcompleted : t.completed = s.completed) (hpushed : t.buffer.pushed = s.buffer.pushed)
    (hresults : t.buffer.results = s.buffer.results)
    (hcallers : t.callers = Function.update s.callers p cl)
    (hp : s.callers p ≠ .push .countDrop) (hcl : cl.carries = (s.callers p).carries) :
    Accounted t := by
  have hcarries : ∀ p', (t.callers p').carries = (s.callers p').carries := by
    intro p'
    rw [hcallers]
    by_cases heq : p' = p
    · rw [heq, Function.update_self, hcl]
    · rw [Function.update_of_ne heq]
  refine ⟨?_, ?_, by rw [hpushed]; exact h.pushed_nodup, by
    rw [hpushed, hcompleted]; exact h.pushed_sub, ?_⟩
  · intro p' m hm
    rw [hcompleted, hpushed]
    exact h.carried p' m (hcarries p' ▸ hm)
  · intro p₁ p₂ m h₁ h₂
    exact h.carried_inj p₁ p₂ m (hcarries p₁ ▸ h₁) (hcarries p₂ ▸ h₂)
  · intro m hm
    rw [hcompleted] at hm
    rw [hpushed]
    refine (h.kept m hm).imp id (Or.imp ?_ ?_)
    · rintro ⟨p', hp'⟩
      exact ⟨p', (hcarries p').trans hp'⟩
    · exact fun hf => hf.of_update (by rw [hresults]; exact List.Subset.refl _) hcallers hp

/-- A thread gives its measurement up. -/
lemma Accounted.of_full {s t : State P} (h : Accounted s) {p : P} {cl : Caller}
    (hcompleted : t.completed = s.completed) (hpushed : t.buffer.pushed = s.buffer.pushed)
    (hcallers : t.callers = Function.update s.callers p cl) (hcl : cl.carries = none)
    (hfull : FoundFull t) : Accounted t := by
  have hcarries : ∀ {p' m}, (t.callers p').carries = some m → (s.callers p').carries = some m := by
    intro p' m hm
    rcases carries_update hcallers hm with ⟨-, hm⟩ | ⟨-, hm⟩
    · rw [hcl] at hm
      exact absurd hm (by simp)
    · exact hm
  refine ⟨?_, fun p₁ p₂ m h₁ h₂ => h.carried_inj p₁ p₂ m (hcarries h₁) (hcarries h₂), by
    rw [hpushed]; exact h.pushed_nodup, by rw [hpushed, hcompleted]; exact h.pushed_sub,
    fun m _ => Or.inr (Or.inr hfull)⟩
  intro p' m hm
  rw [hcompleted, hpushed]
  exact h.carried p' m (hcarries hm)

/-- A thread takes over a measurement that no one has completed before. -/
lemma Accounted.of_complete {s t : State P} (h : Accounted s) {p : P} {m : LatencyMeasurement}
    (hpc : s.callers p = .idle) (hcompleted : t.completed = s.completed ++ [m])
    (hbuffer : t.buffer = s.buffer)
    (hcallers : t.callers = Function.update s.callers p (.push (.loadTail m)))
    (hnew : m ∉ s.completed) : Accounted t := by
  refine ⟨?_, ?_, by rw [hbuffer]; exact h.pushed_nodup, ?_, ?_⟩
  · intro p' m' hm'
    rw [hcompleted, hbuffer]
    rcases carries_update hcallers hm' with ⟨-, hm'⟩ | ⟨-, hm'⟩
    · obtain rfl : m = m' := Option.some.inj hm'
      exact ⟨by simp, fun hpushed => hnew (h.pushed_sub hpushed)⟩
    · exact ⟨List.mem_append_left _ (h.carried p' m' hm').1, (h.carried p' m' hm').2⟩
  · intro p₁ p₂ m' h₁ h₂
    rcases carries_update hcallers h₁ with ⟨rfl, h₁⟩ | ⟨-, h₁⟩ <;>
      rcases carries_update hcallers h₂ with ⟨rfl, h₂⟩ | ⟨-, h₂⟩
    · rfl
    · obtain rfl : m = m' := Option.some.inj h₁
      exact absurd (h.carried p₂ m h₂).1 hnew
    · obtain rfl : m = m' := Option.some.inj h₂
      exact absurd (h.carried p₁ m h₁).1 hnew
    · exact h.carried_inj p₁ p₂ m' h₁ h₂
  · rw [hbuffer, hcompleted]
    exact List.Subset.trans h.pushed_sub (List.subset_append_left _ _)
  · intro m' hm'
    rw [hcompleted] at hm'
    rw [hbuffer]
    rcases List.mem_append.mp hm' with hm' | hm'
    · refine (h.kept m' hm').imp id (Or.imp ?_ ?_)
      · rintro ⟨p', hp'⟩
        have hne : p' ≠ p := by
          rintro rfl
          rw [hpc] at hp'
          exact absurd hp' (by simp [Caller.carries])
        exact ⟨p', by rw [hcallers, Function.update_of_ne hne]; exact hp'⟩
      · exact fun hf => hf.of_update (by rw [hbuffer]; exact List.Subset.refl _) hcallers
          (by rw [hpc]; simp)
    · rw [List.mem_singleton.mp hm']
      exact Or.inr (Or.inl ⟨p, by rw [hcallers, Function.update_self]; rfl⟩)

/-- The store of `tail_` publishes what the thread carries. -/
lemma Accounted.of_accept {s t : State P} (h : Accounted s) {p : P} {m : LatencyMeasurement}
    (hpc : (s.callers p).carries = some m) (hpush : s.callers p ≠ .push .countDrop)
    (hcompleted : t.completed = s.completed)
    (hpushed : t.buffer.pushed = s.buffer.pushed ++ [m])
    (hresults : t.buffer.results = s.buffer.results ++ [true])
    (hcallers : t.callers = Function.update s.callers p .idle) : Accounted t := by
  -- the thread carries nothing afterwards
  have hcarries : ∀ {p' m'}, (t.callers p').carries = some m' →
      p' ≠ p ∧ (s.callers p').carries = some m' := by
    intro p' m' hm'
    rcases carries_update hcallers hm' with ⟨-, hm'⟩ | hm'
    · exact absurd hm' (by simp [Caller.carries])
    · exact hm'
  refine ⟨?_, ?_, ?_, ?_, ?_⟩
  · intro p' m' hm'
    obtain ⟨hne, hm'⟩ := hcarries hm'
    rw [hcompleted, hpushed]
    refine ⟨(h.carried p' m' hm').1, ?_⟩
    rw [List.mem_append, List.mem_singleton, not_or]
    refine ⟨(h.carried p' m' hm').2, ?_⟩
    rintro rfl
    exact hne (h.carried_inj p' p m' hm' hpc)
  · intro p₁ p₂ m' h₁ h₂
    exact h.carried_inj p₁ p₂ m' (hcarries h₁).2 (hcarries h₂).2
  · rw [hpushed]
    refine List.nodup_append.mpr ⟨h.pushed_nodup, List.nodup_singleton m, ?_⟩
    intro a ha b hb
    rw [List.mem_singleton.mp hb]
    rintro rfl
    exact (h.carried p a hpc).2 ha
  · rw [hpushed, hcompleted]
    exact List.append_subset.mpr ⟨h.pushed_sub, by simpa using (h.carried p m hpc).1⟩
  · intro m' hm'
    rw [hcompleted] at hm'
    rw [hpushed]
    rcases h.kept m' hm' with hm' | ⟨p', hp'⟩ | hf
    · exact Or.inl (List.mem_append_left _ hm')
    · by_cases heq : p' = p
      · rw [heq, hpc] at hp'
        exact Or.inl (by simp [Option.some.inj hp'])
      · exact Or.inr (Or.inl ⟨p', by rw [hcallers, Function.update_of_ne heq]; exact hp'⟩)
    · exact Or.inr (Or.inr (hf.of_update (by rw [hresults]; exact List.subset_append_left _ _)
        hcallers hpush))

/-- Completions are not taken back. -/
lemma completed_of_step {s t : State P} {a : Action P} (hs : Step s a t) :
    s.completed <+: t.completed := by
  cases move_of_step hs with
  | complete id hpc =>
    rw [State.completed_completeMeasurement]
    exact List.prefix_append _ _
  | _ => exact List.prefix_rfl

/-- A thread outside any call carries nothing. -/
lemma accounted_idle {s t : State P} (h : Accounted s) {p : P} {cl : Caller}
    (hcompleted : t.completed = s.completed) (hbuffer : t.buffer = s.buffer)
    (hcallers : t.callers = Function.update s.callers p cl)
    (hp : s.callers p ≠ .push .countDrop) (hpc : (s.callers p).carries = none)
    (hcl : cl.carries = none) : Accounted t :=
  h.of_update hcompleted (by rw [hbuffer]) (by rw [hbuffer]) hcallers hp (hcl.trans hpc.symm)

/-- An operation of `push` keeps the account. -/
lemma Accounted.push {s : State P} (h : Accounted s) {p : P}
    {pc : Spsc.PushPc LatencyMeasurement} {b : Spsc.State LatencyMeasurement}
    (hpc : s.callers p = .push pc)
    (hb : Spsc.stepPush .blocking bufferSize (s.view pc) = some b) :
    Accounted (s.afterPush p b) := by
  cases pushMove_of_stepPush hb with
  | loadTail x => exact h.of_update rfl rfl rfl rfl (by rw [hpc]; simp) (by rw [hpc]; rfl)
  | full hfull =>
    refine h.of_full rfl rfl rfl rfl (Or.inr ⟨p, ?_⟩)
    rw [State.callers_afterPush]
    rfl
  | room hroom => exact h.of_update rfl rfl rfl rfl (by rw [hpc]; simp) (by rw [hpc]; rfl)
  | countDrop =>
    refine h.of_full rfl rfl rfl rfl (Or.inl ?_)
    show false ∈ s.buffer.results ++ [false]
    simp
  | write x tl => exact h.of_update rfl rfl rfl rfl (by rw [hpc]; simp) (by rw [hpc]; rfl)
  | accept x tl =>
    exact h.of_accept (m := x) (by rw [hpc]; rfl) (by rw [hpc]; simp) rfl rfl rfl rfl

/-- **A step that meets the condition keeps the account**, as long as no measurement is
completed twice. -/
lemma accounted_step {s t : State P} {a : Action P} (h : Accounted s) (hs : AloneStep s a t)
    (hnodup : t.completed.Nodup) : Accounted t := by
  obtain ⟨hs, halone⟩ := hs
  cases move_of_step hs with
  | start symbol exchange hpc =>
    exact accounted_idle h rfl rfl rfl (by rw [hpc]; simp) (by rw [hpc]; rfl) rfl
  | insert hpc =>
    exact accounted_idle h rfl rfl rfl (by rw [hpc]; simp) (by rw [hpc]; rfl) rfl
  | record id point t hpc => exact accounted_same h rfl rfl rfl rfl
  | complete id hpc =>
    rename_i p
    have hcallers := s.callers_completeMeasurement p id
    have hcompleted := s.completed_completeMeasurement p id
    have hbuffer := s.buffer_completeMeasurement p id
    cases hactive : s.active id with
    | none =>
      rw [hactive, Option.elim_none, ite_self] at hcallers
      rw [hactive, Option.toList_none, List.append_nil] at hcompleted
      exact accounted_same h hcompleted (by rw [hbuffer]) (by rw [hbuffer]) hcallers
    | some m =>
      -- the id is not `0`, so the call takes the measurement over
      have hid : id ≠ 0 := by
        rintro rfl
        rw [halone rfl] at hactive
        exact absurd hactive (by simp)
      rw [if_neg hid, hactive] at hcallers
      rw [hactive] at hcompleted
      rw [hcompleted] at hnodup
      refine h.of_complete hpc hcompleted hbuffer hcallers ?_
      intro hm
      exact (List.nodup_append.mp hnodup).2.2 m hm m (by simp) rfl
  | push hpc hb => exact h.push hpc hb
  | callPop hb =>
    have hkeeps := popKeeps_of_step (Or.inl rfl) hb
    exact accounted_same h rfl hkeeps.pushed_eq hkeeps.results_eq rfl
  | pop hb =>
    have hkeeps := popKeeps_of_step (Or.inr rfl) hb
    exact accounted_same h rfl hkeeps.pushed_eq hkeeps.results_eq rfl

lemma ringOk_run {as : List (Action P)} {s : State P} (hrun : Run AloneStep State.init as s) :
    RingOk s :=
  hrun.invariant ringOk_init fun _ _ _ h hs => ringOk_step h hs

lemma accounted_run {as : List (Action P)} {s : State P}
    (hrun : Run AloneStep State.init as s) : s.completed.Nodup → Accounted s := by
  refine hrun.invariant (I := fun s => s.completed.Nodup → Accounted s)
    (fun _ => accounted_init) ?_
  intro s a t ih hs hnodup
  exact accounted_step (ih ((completed_of_step hs.1).sublist.nodup hnodup)) hs hnodup

/-! ## The delivery -/

/-- **When concurrent completions are delivered.**  In every run whose steps meet the
condition, with completions for distinct ids: what is popped is what was pushed, in order;
no measurement is pushed twice and none that was not completed; no thread writes into a slot
that holds an unpopped measurement; and as long as no push finds the ring full, every
completed measurement is pushed or still carried by its thread, so that each has been popped
exactly once when the threads have returned and the ring is empty. -/
theorem completions_delivered (as : List (Action P)) (s : State P)
    (hrun : Run AloneStep State.init as s)
    (hdistinct : (s.completed.map LatencyMeasurement.messageId).Nodup) :
    s.buffer.popped <+: s.buffer.pushed ∧ s.buffer.pushed.Nodup ∧
      s.buffer.pushed ⊆ s.completed ∧
      (∀ p m tl, s.callers p = .push (.write m tl) →
        ∀ x, ¬ Spsc.HoldsUnconsumed bufferSize s.buffer tl x) ∧
      (¬ FoundFull s →
        (∀ m ∈ s.completed, m ∈ s.buffer.pushed ∨ ∃ p, (s.callers p).carries = some m) ∧
          ((∀ p, s.callers p = .idle) → s.buffer.ring.head = s.buffer.ring.tail →
            s.buffer.popped.Perm s.completed)) := by
  have hring := ringOk_run hrun
  have hnodup : s.completed.Nodup := hdistinct.of_map _
  have hacc := accounted_run hrun hnodup
  refine ⟨hring.inv.in_order, hacc.pushed_nodup, hacc.pushed_sub, ?_, ?_⟩
  · intro p m tl hpc x
    have hprod := hring.prod p
    rw [hpc] at hprod
    obtain ⟨rfl, -⟩ := hprod
    exact hring.inv.tail_free x
  · intro hnever
    have hkept : ∀ m ∈ s.completed, m ∈ s.buffer.pushed ∨ ∃ p, (s.callers p).carries = some m :=
      fun m hm => (hacc.kept m hm).imp id fun h => h.resolve_right hnever
    refine ⟨hkept, ?_⟩
    intro hidle hempty
    have hall : s.buffer.popped = s.buffer.pushed :=
      hring.inv.in_order.eq_of_length (hring.inv.head_eq_tail_iff.mp hempty)
    rw [hall]
    refine (List.perm_ext_iff_of_nodup hacc.pushed_nodup hnodup).mpr fun m => ?_
    refine ⟨fun hm => hacc.pushed_sub hm, fun hm => ?_⟩
    rcases hkept m hm with hm | ⟨p, hp⟩
    · exact hm
    · rw [hidle p] at hp
      exact absurd hp (by simp [Caller.carries])

/-- A single caller always meets the condition, unless it completes the id `0`. -/
lemma alone_single {s : State Unit} {a : Action Unit} (ha : a ≠ .complete () 0) : Alone s a := by
  cases a with
  | push p =>
    rintro ⟨m, hpc⟩ p'
    rw [hpc]
    exact id
  | complete p id =>
    rintro rfl
    exact absurd rfl ha
  | _ => trivial

/-- The second of two messages is completed, pushed and popped. -/
def completeAndPop : List (Action Unit) :=
  startTwo ++ .complete () 1 :: List.replicate 4 (.push ()) ++ .callPop :: List.replicate 4 .pop

/-- The state after `completeAndPop`. -/
def afterCompleteAndPop : State Unit := (completeAndPop.foldlM step State.init).get (by decide)

/-- Its measurement has been popped. -/
theorem completions_delivered_second :
    afterCompleteAndPop.completed.length = 1 ∧
      afterCompleteAndPop.buffer.popped.Perm afterCompleteAndPop.completed := by
  have hrun : Run Step State.init completeAndPop afterCompleteAndPop :=
    .of_foldlM (Option.some_get _).symm
  have halone : Run AloneStep State.init completeAndPop afterCompleteAndPop := by
    refine hrun.mono_of_labels (p := fun a => a ≠ .complete () 0) ?_
      fun _ _ _ hs ha => ⟨hs, alone_single ha⟩
    simp [completeAndPop, startTwo]
  have hnever : ¬ FoundFull afterCompleteAndPop := by
    rintro (h | ⟨p, h⟩)
    · exact absurd h (by decide)
    · exact absurd (show Caller.idle = .push .countDrop from h) (by simp)
  exact ⟨by decide, ((completions_delivered completeAndPop afterCompleteAndPop halone
    (by decide)).2.2.2.2 hnever).2 (fun _ => rfl) (by decide)⟩

/-- Two threads that are inside `push` together: both load the tail `0`, write its slot and
store the tail `1`. -/
def pushTogether : List (Action Bool) :=
  [.start true [] [], .insert true, .start true [] [], .insert true, .start true [] [],
    .insert true, .complete true 1, .complete false 2, .push true, .push false, .push true,
    .push false, .push true, .push false, .push true, .push false, .callPop, .pop, .pop, .pop,
    .pop]

/-- The state after `pushTogether`. -/
def afterPushTogether : State Bool := (pushTogether.foldlM step State.init).get (by decide)

/-- After `pushTogether` both pushes have returned `true` and the ring is empty, but only one
of the two completed measurements has been popped. -/
theorem overlapping_push_loses :
    ¬ ∀ (as : List (Action Bool)) (s : State Bool), Run Step State.init as s →
      (s.completed.map LatencyMeasurement.messageId).Nodup → ¬ FoundFull s →
        (∀ p, s.callers p = .idle) → s.buffer.ring.head = s.buffer.ring.tail →
          s.buffer.popped.Perm s.completed := by
  intro hclaim
  have hidle : ∀ p, afterPushTogether.callers p = .idle := by
    intro p
    cases p <;> rfl
  have hnever : ¬ FoundFull afterPushTogether := by
    rintro (h | ⟨p, h⟩)
    · exact absurd h (by decide)
    · exact absurd ((hidle p).symm.trans h) (by simp)
  have hperm := hclaim pushTogether afterPushTogether (.of_foldlM (Option.some_get _).symm)
    (by decide) hnever hidle (by decide)
  exact absurd hperm.length_eq (by decide)

end TickPlant.Latency
