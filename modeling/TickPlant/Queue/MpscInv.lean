/-
# The invariant of the MPSC ring buffer

The positions between the number of slots handed back (`reclaimed`) and that number plus
`Size` form a window in which every slot occurs once.  A position of the window is free,
claimed by exactly one producer, or published; its counter tells which, and a published
position holds the item that was pushed there.  The locals of each thread are tied to the
same window: a producer about to compare-exchange has seen its position inside the window,
and a position once inside the window stays there until it is claimed.

`inv_step` shows that every atomic step keeps the invariant as long as fewer than `2 ^ 63`
pushes have succeeded; `inv_run` carries it to whole runs.
-/
import TickPlant.Queue.Mpsc

namespace TickPlant.Mpsc

open Lib

variable {P T : Type} {c : RingSize}

/-- The position `pos` is claimed for `item` and not yet published. -/
def Claimed (c : RingSize) (s : State P T) (item : T) (pos : ℕ) : Prop :=
  s.reclaimed ≤ pos ∧ s.pushed[pos]? = some item ∧ s.ring.sequence (c.slot pos) = pos

/-- What the locals of a producer say about the shared state. -/
def ProdOk (c : RingSize) (s : State P T) : PushPc T → Prop
  | .loadSeq _ pos => pos ≤ s.pushed.length
  | .cas _ pos => pos ≤ s.pushed.length ∧ pos < s.reclaimed + c.size
  | .writeData item pos => Claimed c s item pos
  | .storeSeq item pos => Claimed c s item pos ∧ s.ring.data (c.slot pos) = item
  | _ => True

/-- The producer is between its compare-exchange and its publication of `pos`. -/
def Writes : PushPc T → ℕ → Prop
  | .writeData _ q, pos => q = pos
  | .storeSeq _ q, pos => q = pos
  | _, _ => False

/-- The consumer has read the item at `pos` and not yet handed the slot back. -/
def Took (s : State P T) (pos : ℕ) : Prop := ∃ item, s.consumer = .storeSeq pos item

/-- What the locals of the consumer say about the shared state. -/
def ConsOk (c : RingSize) (s : State P T) : PopPc T → Prop
  | .loadSeq pos => s.ring.head = s.reclaimed ∧ pos = s.reclaimed
  | .readData pos =>
    s.ring.head = s.reclaimed ∧ pos = s.reclaimed ∧
      s.ring.sequence (c.slot s.reclaimed) = s.reclaimed + 1
  | .storeSeq pos item =>
    s.ring.head = s.reclaimed ∧ pos = s.reclaimed ∧
      s.ring.sequence (c.slot s.reclaimed) = s.reclaimed + 1 ∧
      s.pushed[s.reclaimed]? = some item
  | .storeHead pos item =>
    s.ring.head = pos ∧ s.reclaimed = pos + 1 ∧ s.pushed[pos]? = some item
  | _ => s.ring.head = s.reclaimed

/-- The invariant. -/
structure Inv (c : RingSize) (s : State P T) : Prop where
  tail_eq : s.ring.tail = s.pushed.length
  reclaimed_le : s.reclaimed ≤ s.pushed.length
  claimed_le : s.pushed.length ≤ s.reclaimed + c.size
  /-- Every position of the window is unpublished, or published with its item. -/
  slots : ∀ q, s.reclaimed ≤ q → q < s.reclaimed + c.size →
    s.ring.sequence (c.slot q) = q ∨
      (s.ring.sequence (c.slot q) = q + 1 ∧ q < s.pushed.length ∧
        (s.pushed[q]? = some (s.ring.data (c.slot q)) ∨ Took s q))
  prod : ∀ p, ProdOk c s (s.producers p)
  writers_inj : ∀ p p' pos, Writes (s.producers p) pos → Writes (s.producers p') pos → p = p'
  cons : ConsOk c s s.consumer
  head_eq : s.ring.head = s.popped.length
  popped_le : s.popped <+: s.pushed

lemma inv_init (c : RingSize) (d : ℕ → T) : Inv c (State.init d : State P T) where
  tail_eq := rfl
  reclaimed_le := le_rfl
  claimed_le := Nat.zero_le _
  slots := by
    intro q _ hq
    simp only [State.init, zero_add] at hq ⊢
    left
    rw [RingSize.slot_eq, Nat.mod_eq_of_lt hq]
  prod := fun _ => trivial
  writers_inj := fun _ _ _ h => h.elim
  cons := rfl
  head_eq := rfl
  popped_le := List.nil_prefix

/-! ## Consequences -/

lemma Claimed.lt {s : State P T} {item : T} {pos : ℕ} (h : Claimed c s item pos) :
    pos < s.pushed.length := (List.getElem?_eq_some_iff.mp h.2.1).1

lemma claimed_of_writes {s : State P T} (h : Inv c s) {p : P} {pos : ℕ}
    (hw : Writes (s.producers p) pos) : ∃ item, Claimed c s item pos := by
  have hp := h.prod p
  cases hpc : s.producers p with
  | writeData item q =>
    rw [hpc] at hw hp
    obtain rfl : q = pos := hw
    exact ⟨item, hp⟩
  | storeSeq item q =>
    rw [hpc] at hw hp
    obtain rfl : q = pos := hw
    exact ⟨item, hp.1⟩
  | _ => rw [hpc] at hw; exact hw.elim

/-- Two distinct positions of the window lie in distinct slots. -/
lemma Inv.slot_ne {s : State P T} {q q' : ℕ} (h : Inv c s) (hq : s.reclaimed ≤ q)
    (hq' : s.reclaimed ≤ q') (hlt : q < s.reclaimed + c.size) (hlt' : q' < s.pushed.length)
    (hne : q ≠ q') : c.slot q ≠ c.slot q' := by
  intro heq
  have := h.claimed_le
  exact hne (RingSize.slot_inj hq hq' hlt (by omega) heq)

/-- A claimed position is not one that has been published. -/
lemma Claimed.ne_of_published {s : State P T} {item : T} {pos q : ℕ} (h : Claimed c s item pos)
    (hq : s.ring.sequence (c.slot q) = q + 1) : pos ≠ q := by
  rintro rfl
  have := h.2.2
  omega

/-- If the slot the consumer looks at is published, its position has been pushed. -/
lemma Inv.lt_of_published {s : State P T} (h : Inv c s)
    (hs : s.ring.sequence (c.slot s.reclaimed) = s.reclaimed + 1) :
    s.reclaimed < s.pushed.length := by
  have := c.two_le_size
  rcases h.slots s.reclaimed le_rfl (by omega) with h' | ⟨-, h', -⟩
  · omega
  · exact h'

lemma wrap_of_lt {n : ℕ} (h : n < 2 ^ 64) : wrap n = n := Nat.mod_eq_of_lt h

/-- Equality of a counter and a position, as the code tests it. -/
lemma signedDiff_eq_zero {a b : ℕ} (ha : a < 2 ^ 64) (hb : b < 2 ^ 64) :
    signedDiff a b = 0 ↔ a = b := by
  simp only [signedDiff, toIntptr]
  split_ifs <;> omega

/-- The counter of the consumer's slot is compared correctly, wrapped or not. -/
lemma signedDiff_consumer {r : ℕ} (hr : r < 2 ^ 63) :
    signedDiff r (r + 1) < 0 ∧ ¬ signedDiff (r + 1) (r + 1) < 0 := by
  simp only [signedDiff, toIntptr]
  split_ifs <;> omega

/-- Below `2 ^ 63` the signed comparison is the comparison of the numbers. -/
lemma signedDiff_neg_iff {a b : ℕ} (ha : a < 2 ^ 63) (hb : b < 2 ^ 63) :
    signedDiff a b < 0 ↔ a < b := by
  rw [signedDiff, toIntptr, toIntptr, if_pos ha, if_pos hb]
  omega

/-- The counter a producer finds at `pos` belongs to the position of the window in the
same slot. -/
lemma Inv.seq_at {s : State P T} (h : Inv c s) (pos : ℕ) :
    ∃ q, s.reclaimed ≤ q ∧ q < s.reclaimed + c.size ∧ c.slot q = c.slot pos ∧
      (s.ring.sequence (c.slot pos) = q ∨
        (s.ring.sequence (c.slot pos) = q + 1 ∧ q < s.pushed.length)) := by
  obtain ⟨q, hq, hlt, heq⟩ := c.exists_slot_eq s.reclaimed pos
  refine ⟨q, hq, hlt, heq, ?_⟩
  rw [← heq]
  rcases h.slots q hq hlt with h' | ⟨h', hq', -⟩
  · exact Or.inl h'
  · exact Or.inr ⟨h', hq'⟩

/-- A producer that finds its own position in the slot's counter is inside the window. -/
lemma Inv.lt_window {s : State P T} (h : Inv c s) {pos : ℕ}
    (hs : s.ring.sequence (c.slot pos) = pos) : pos < s.reclaimed + c.size := by
  obtain ⟨q, -, hlt, heq, hseq⟩ := h.seq_at pos
  rcases hseq with hseq | ⟨hseq, -⟩
  · omega
  · -- the counter would be one past a position of the same slot
    exfalso
    rw [RingSize.slot_eq, RingSize.slot_eq] at heq
    have hq : pos = q + 1 := by omega
    have hdvd : c.size ∣ pos - q := (Nat.modEq_iff_dvd' (by omega)).mp heq
    rw [hq, Nat.add_sub_cancel_left] at hdvd
    have := Nat.le_of_dvd one_pos hdvd
    have := c.two_le_size
    omega

/-! ## Steps of a producer -/

variable [DecidableEq P]

/-- A producer that does not enter or leave the writing phase moves alone. -/
lemma Inv.setProducer {s : State P T} (h : Inv c s) {p : P} {pc : PushPc T}
    (hpc : ProdOk c s pc) (hw : ∀ pos, ¬ Writes pc pos) : Inv c (s.setProducer p pc) where
  tail_eq := h.tail_eq
  reclaimed_le := h.reclaimed_le
  claimed_le := h.claimed_le
  slots := h.slots
  prod := by
    intro p'
    show ProdOk c s (Function.update s.producers p pc p')
    by_cases hp : p' = p
    · rw [hp, Function.update_self]; exact hpc
    · rw [Function.update_of_ne hp]; exact h.prod p'
  writers_inj := by
    intro p₁ p₂ pos h₁ h₂
    simp only [State.setProducer] at h₁ h₂
    by_cases hp₁ : p₁ = p
    · rw [hp₁, Function.update_self] at h₁; exact absurd h₁ (hw pos)
    by_cases hp₂ : p₂ = p
    · rw [hp₂, Function.update_self] at h₂; exact absurd h₂ (hw pos)
    rw [Function.update_of_ne hp₁] at h₁
    rw [Function.update_of_ne hp₂] at h₂
    exact h.writers_inj p₁ p₂ pos h₁ h₂
  cons := h.cons
  head_eq := h.head_eq
  popped_le := h.popped_le

/-- A producer other than the one that has moved is where it was. -/
lemma prod_of_update {s t : State P T} {p : P} {pc : PushPc T}
    (ht : t.producers = Function.update s.producers p pc) (hself : ProdOk c t pc)
    (hother : ∀ p', p' ≠ p → ProdOk c t (s.producers p')) (p' : P) :
    ProdOk c t (t.producers p') := by
  rw [ht]
  by_cases hp : p' = p
  · rw [hp, Function.update_self]; exact hself
  · rw [Function.update_of_ne hp]; exact hother p' hp

/-- Distinctness of the writers after a producer has moved to `pc`. -/
lemma writers_inj_of_update {s : State P T} (h : Inv c s) {p : P} {pc : PushPc T}
    (hpc : ∀ p' pos, p' ≠ p → Writes pc pos → ¬ Writes (s.producers p') pos)
    (p₁ p₂ : P) (pos : ℕ) (h₁ : Writes (Function.update s.producers p pc p₁) pos)
    (h₂ : Writes (Function.update s.producers p pc p₂) pos) : p₁ = p₂ := by
  by_cases hp₁ : p₁ = p <;> by_cases hp₂ : p₂ = p
  · rw [hp₁, hp₂]
  · rw [hp₁, Function.update_self] at h₁
    rw [Function.update_of_ne hp₂] at h₂
    exact absurd h₂ (hpc p₂ pos hp₂ h₁)
  · rw [Function.update_of_ne hp₁] at h₁
    rw [hp₂, Function.update_self] at h₂
    exact absurd h₁ (hpc p₁ pos hp₁ h₂)
  · rw [Function.update_of_ne hp₁] at h₁
    rw [Function.update_of_ne hp₂] at h₂
    exact h.writers_inj p₁ p₂ pos h₁ h₂

/-- A successful compare-exchange claims the position at the tail. -/
lemma Inv.claim {s : State P T} (h : Inv c s) {p : P} {item : T} {pos : ℕ}
    (hpc : s.producers p = .cas item pos) (htail : s.ring.tail = pos)
    (hlen : s.pushed.length + 1 < 2 ^ 63) : Inv c (s.claim p item pos) := by
  have hpos : pos = s.pushed.length := by rw [← htail, h.tail_eq]
  have hwin : pos < s.reclaimed + c.size := by
    have hok := h.prod p
    rw [hpc] at hok
    exact hok.2
  have hle := h.reclaimed_le
  have hlength : (s.claim p item pos).pushed.length = s.pushed.length + 1 := by
    simp [State.claim]
  have hmono : ∀ {q : ℕ} {x : T}, s.pushed[q]? = some x →
      (s.claim p item pos).pushed[q]? = some x := by
    intro q x hx
    rw [← hx]
    exact List.getElem?_append_left (List.getElem?_eq_some_iff.mp hx).1
  refine ⟨?_, ?_, ?_, ?_, ?_, ?_, ?_, h.head_eq, ?_⟩
  · -- the tail stays below `2 ^ 64`, so the increment does not wrap
    rw [hlength, ← hpos]
    exact wrap_of_lt (by omega)
  · rw [hlength]
    exact Nat.le_succ_of_le hle
  · rw [hlength, ← hpos]
    exact hwin
  · intro q hq hlt
    rcases h.slots q hq hlt with h' | ⟨h', hq', hdata⟩
    · exact Or.inl h'
    · exact Or.inr ⟨h', by rw [hlength]; omega, hdata.imp hmono id⟩
  · refine prod_of_update rfl ⟨by rw [hpos]; exact hle, ?_, ?_⟩ ?_
    · simp [State.claim, hpos]
    · -- no position from the tail on is published, so the slot is free
      rcases h.slots pos (by omega) hwin with h' | ⟨-, h', -⟩
      · exact h'
      · omega
    · intro p' _
      have hok := h.prod p'
      cases hpc' : s.producers p' with
      | loadSeq item' q =>
        rw [hpc'] at hok
        exact le_trans hok (by rw [hlength]; omega)
      | cas item' q =>
        rw [hpc'] at hok
        exact ⟨le_trans hok.1 (by rw [hlength]; omega), hok.2⟩
      | writeData item' q =>
        rw [hpc'] at hok
        exact ⟨hok.1, hmono hok.2.1, hok.2.2⟩
      | storeSeq item' q =>
        rw [hpc'] at hok
        exact ⟨⟨hok.1.1, hmono hok.1.2.1, hok.1.2.2⟩, hok.2⟩
      | _ => trivial
  · -- the other writers hold earlier positions
    refine writers_inj_of_update h ?_
    intro p' q _ hq hw
    obtain rfl : pos = q := hq
    obtain ⟨x, hx⟩ := claimed_of_writes h hw
    have := hx.lt
    omega
  · have hcons := h.cons
    show ConsOk c _ s.consumer
    cases hpc' : s.consumer with
    | storeSeq q x =>
      rw [hpc'] at hcons
      exact ⟨hcons.1, hcons.2.1, hcons.2.2.1, hmono hcons.2.2.2⟩
    | storeHead q x =>
      rw [hpc'] at hcons
      exact ⟨hcons.1, hcons.2.1, hmono hcons.2.2⟩
    | _ => rw [hpc'] at hcons; exact hcons
  · exact h.popped_le.trans (List.prefix_append _ _)

/-- A producer writes its item into the slot it has claimed. -/
lemma Inv.write {s : State P T} (h : Inv c s) {p : P} {item : T} {pos : ℕ}
    (hpc : s.producers p = .writeData item pos) : Inv c (s.write c p item pos) := by
  have hcl : Claimed c s item pos := by
    have hok := h.prod p
    rw [hpc] at hok
    exact hok
  have hdata : ∀ {q : ℕ}, s.reclaimed ≤ q → q < s.reclaimed + c.size → q ≠ pos →
      (s.write c p item pos).ring.data (c.slot q) = s.ring.data (c.slot q) := by
    intro q hq hlt hne
    exact Function.update_of_ne (h.slot_ne hq hcl.1 hlt hcl.lt hne) _ _
  refine ⟨h.tail_eq, h.reclaimed_le, h.claimed_le, ?_, ?_, ?_, ?_, h.head_eq, h.popped_le⟩
  · -- a published slot is not the one being written
    intro q hq hlt
    rcases h.slots q hq hlt with h' | ⟨h', hq', hd⟩
    · exact Or.inl h'
    · have hne : q ≠ pos := (hcl.ne_of_published h').symm
      refine Or.inr ⟨h', hq', ?_⟩
      rw [hdata hq hlt hne]
      exact hd
  · refine prod_of_update rfl ⟨hcl, Function.update_self _ _ _⟩ ?_
    intro p' hp
    have hok := h.prod p'
    cases hpc' : s.producers p' with
    | storeSeq item' q =>
      rw [hpc'] at hok
      have hne : q ≠ pos := by
        rintro rfl
        exact hp (h.writers_inj p' p q (by rw [hpc']; rfl) (by rw [hpc]; rfl))
      have hwin := h.claimed_le
      have hq := hok.1.lt
      exact ⟨hok.1, by rw [hdata hok.1.1 (by omega) hne]; exact hok.2⟩
    | _ => rw [hpc'] at hok; exact hok
  · refine writers_inj_of_update h ?_
    intro p' q hp hq hw
    exact hp (h.writers_inj p' p q hw (by rw [hpc]; exact hq))
  · exact h.cons

/-- A producer publishes the slot it has written. -/
lemma Inv.publish {s : State P T} (h : Inv c s) {p : P} {item : T} {pos : ℕ}
    (hpc : s.producers p = .storeSeq item pos) (hlen : s.pushed.length < 2 ^ 63) :
    Inv c (s.publish c p pos) := by
  obtain ⟨hcl, hitem⟩ : Claimed c s item pos ∧ s.ring.data (c.slot pos) = item := by
    have hok := h.prod p
    rw [hpc] at hok
    exact hok
  have hlt := hcl.lt
  have hself : (s.publish c p pos).ring.sequence (c.slot pos) = pos + 1 := by
    rw [← wrap_of_lt (show pos + 1 < 2 ^ 64 by omega)]
    exact Function.update_self _ _ _
  have hseq : ∀ {q : ℕ}, s.reclaimed ≤ q → q < s.reclaimed + c.size → q ≠ pos →
      (s.publish c p pos).ring.sequence (c.slot q) = s.ring.sequence (c.slot q) := by
    intro q hq hlt' hne
    exact Function.update_of_ne (h.slot_ne hq hcl.1 hlt' hlt hne) _ _
  have hwin := h.claimed_le
  refine ⟨h.tail_eq, h.reclaimed_le, h.claimed_le, ?_, ?_, ?_, ?_, h.head_eq, h.popped_le⟩
  · intro q hq hlt'
    by_cases hne : q = pos
    · subst hne
      refine Or.inr ⟨hself, hlt, Or.inl ?_⟩
      rw [← hitem] at hcl
      exact hcl.2.1
    · rw [hseq hq hlt' hne]
      exact h.slots q hq hlt'
  · refine prod_of_update rfl trivial ?_
    intro p' hp
    have hok := h.prod p'
    have hne : ∀ {q : ℕ}, Writes (s.producers p') q → q ≠ pos := by
      rintro q hw rfl
      exact hp (h.writers_inj p' p q hw (by rw [hpc]; rfl))
    cases hpc' : s.producers p' with
    | writeData item' q =>
      rw [hpc'] at hok
      have hq : q < s.pushed.length := Claimed.lt hok
      exact ⟨hok.1, hok.2.1, by
        rw [hseq hok.1 (by omega) (hne (by rw [hpc']; rfl))]; exact hok.2.2⟩
    | storeSeq item' q =>
      rw [hpc'] at hok
      have hq := hok.1.lt
      exact ⟨⟨hok.1.1, hok.1.2.1, by
        rw [hseq hok.1.1 (by omega) (hne (by rw [hpc']; rfl))]; exact hok.1.2.2⟩, hok.2⟩
    | _ => rw [hpc'] at hok; exact hok
  · exact writers_inj_of_update h (fun _ _ _ hw => hw.elim)
  · have hcons := h.cons
    have hsize := c.two_le_size
    -- the consumer's slot is published, hence not the one being published now
    have hr : s.ring.sequence (c.slot s.reclaimed) = s.reclaimed + 1 →
        (s.publish c p pos).ring.sequence (c.slot s.reclaimed) = s.reclaimed + 1 := by
      intro hr
      rw [hseq le_rfl (by omega) (hcl.ne_of_published hr).symm]
      exact hr
    show ConsOk c _ s.consumer
    cases hpc' : s.consumer with
    | readData q =>
      rw [hpc'] at hcons
      exact ⟨hcons.1, hcons.2.1, hr hcons.2.2⟩
    | storeSeq q x =>
      rw [hpc'] at hcons
      exact ⟨hcons.1, hcons.2.1, hr hcons.2.2.1, hcons.2.2.2⟩
    | _ => rw [hpc'] at hcons; exact hcons

/-! ## Steps of the consumer -/

omit [DecidableEq P] in
/-- Only a consumer about to hand a slot back has taken an item out of it. -/
lemma not_took {s : State P T} {pc : PopPc T} (hpc : s.consumer = pc)
    (hne : ∀ pos x, pc ≠ .storeSeq pos x) (pos : ℕ) : ¬ Took s pos := by
  rintro ⟨x, hx⟩
  exact hne pos x (hpc.symm.trans hx)

omit [DecidableEq P] in
/-- The consumer moves alone. -/
lemma Inv.setConsumer {s : State P T} (h : Inv c s) {pc : PopPc T} (hpc : ConsOk c s pc)
    (htook : ∀ pos, ¬ Took s pos) : Inv c (s.setConsumer pc) where
  tail_eq := h.tail_eq
  reclaimed_le := h.reclaimed_le
  claimed_le := h.claimed_le
  slots := by
    intro q hq hlt
    rcases h.slots q hq hlt with h' | ⟨h', hq', hd⟩
    · exact Or.inl h'
    · exact Or.inr ⟨h', hq', Or.inl (hd.resolve_right (htook q))⟩
  prod := h.prod
  writers_inj := h.writers_inj
  cons := hpc
  head_eq := h.head_eq
  popped_le := h.popped_le

omit [DecidableEq P] in
/-- The consumer takes the item out of the first slot of the window. -/
lemma Inv.take {s : State P T} (h : Inv c s) (left : T) {pos : ℕ}
    (hpc : s.consumer = .readData pos) : Inv c (s.take c left pos) := by
  have hsize := c.two_le_size
  obtain ⟨hhead, hpos, hseq⟩ : s.ring.head = s.reclaimed ∧ pos = s.reclaimed ∧
      s.ring.sequence (c.slot s.reclaimed) = s.reclaimed + 1 := by
    have hok := h.cons
    rw [hpc] at hok
    exact hok
  subst hpos
  have hlt := h.lt_of_published hseq
  have hitem : s.pushed[s.reclaimed]? = some (s.ring.data (c.slot s.reclaimed)) := by
    rcases h.slots s.reclaimed le_rfl (by omega) with h' | ⟨-, -, hd | ⟨x, hx⟩⟩
    · omega
    · exact hd
    · rw [hpc] at hx; exact absurd hx (by simp)
  have hdata : ∀ {q : ℕ}, s.reclaimed ≤ q → q < s.reclaimed + c.size → q ≠ s.reclaimed →
      (s.take c left s.reclaimed).ring.data (c.slot q) = s.ring.data (c.slot q) := by
    intro q hq hq' hne
    exact Function.update_of_ne (h.slot_ne hq le_rfl hq' hlt hne) _ _
  have hwin := h.claimed_le
  refine ⟨h.tail_eq, h.reclaimed_le, h.claimed_le, ?_, ?_, h.writers_inj,
    ⟨hhead, rfl, hseq, hitem⟩, h.head_eq, h.popped_le⟩
  · intro q hq hq'
    by_cases hne : q = s.reclaimed
    · subst hne
      exact Or.inr ⟨hseq, hlt, Or.inr ⟨_, rfl⟩⟩
    · rcases h.slots q hq hq' with h' | ⟨h', hl, hd | ⟨x, hx⟩⟩
      · exact Or.inl h'
      · exact Or.inr ⟨h', hl, Or.inl (by rw [hdata hq hq' hne]; exact hd)⟩
      · rw [hpc] at hx; exact absurd hx (by simp)
  · intro p
    have hok := h.prod p
    show ProdOk c _ (s.producers p)
    cases hpc' : s.producers p with
    | storeSeq item' q =>
      rw [hpc'] at hok
      have hq := hok.1.lt
      exact ⟨hok.1, by
        rw [hdata hok.1.1 (by omega) (hok.1.ne_of_published hseq)]; exact hok.2⟩
    | _ => rw [hpc'] at hok; exact hok

omit [DecidableEq P] in
/-- The consumer hands the first slot of the window back: the window moves by one. -/
lemma Inv.reclaim {s : State P T} (h : Inv c s) {pos : ℕ} {item : T}
    (hpc : s.consumer = .storeSeq pos item) (hlen : s.pushed.length < 2 ^ 63) :
    Inv c (s.reclaim c pos item) := by
  obtain ⟨hhead, hpos, hseq, hitem⟩ : s.ring.head = s.reclaimed ∧ pos = s.reclaimed ∧
      s.ring.sequence (c.slot s.reclaimed) = s.reclaimed + 1 ∧
      s.pushed[s.reclaimed]? = some item := by
    have hok := h.cons
    rw [hpc] at hok
    exact hok
  subst hpos
  have hlt := h.lt_of_published hseq
  have hsize := c.two_le_size
  have hsize' := c.size_le
  have hwin := h.claimed_le
  have hother : ∀ {q : ℕ}, s.reclaimed < q → q < s.reclaimed + c.size →
      (s.reclaim c s.reclaimed item).ring.sequence (c.slot q) = s.ring.sequence (c.slot q) := by
    intro q hq hq'
    exact Function.update_of_ne (h.slot_ne hq.le le_rfl hq' hlt (by omega)) _ _
  refine ⟨h.tail_eq, hlt, ?_, ?_, ?_, h.writers_inj, ⟨hhead, rfl, hitem⟩, h.head_eq, h.popped_le⟩
  · show s.pushed.length ≤ s.reclaimed + 1 + c.size
    omega
  · intro q hq hq'
    change s.reclaimed + 1 ≤ q at hq
    change q < s.reclaimed + 1 + c.size at hq'
    by_cases hlast : q = s.reclaimed + c.size
    · -- the slot handed back becomes the last one of the window
      left
      subst hlast
      rw [RingSize.slot_add_size]
      refine (Function.update_self _ _ _).trans ?_
      exact wrap_of_lt (by omega)
    · rw [hother hq (by omega)]
      rcases h.slots q (by omega) (by omega) with h' | ⟨h', hl, hd | ⟨x, hx⟩⟩
      · exact Or.inl h'
      · exact Or.inr ⟨h', hl, Or.inl hd⟩
      · rw [hpc, PopPc.storeSeq.injEq] at hx
        omega
  · intro p
    have hok := h.prod p
    show ProdOk c _ (s.producers p)
    cases hpc' : s.producers p with
    | cas item' q =>
      rw [hpc'] at hok
      refine ⟨hok.1, ?_⟩
      show q < s.reclaimed + 1 + c.size
      have := hok.2
      omega
    | writeData item' q =>
      rw [hpc'] at hok
      have hne : q ≠ s.reclaimed := Claimed.ne_of_published hok hseq
      have hq : q < s.pushed.length := Claimed.lt hok
      have hge : s.reclaimed ≤ q := hok.1
      exact ⟨show s.reclaimed + 1 ≤ q by omega, hok.2.1, by
        rw [hother (by omega) (by omega)]; exact hok.2.2⟩
    | storeSeq item' q =>
      rw [hpc'] at hok
      have hne : q ≠ s.reclaimed := hok.1.ne_of_published hseq
      have hq := hok.1.lt
      have hge : s.reclaimed ≤ q := hok.1.1
      exact ⟨⟨show s.reclaimed + 1 ≤ q by omega, hok.1.2.1, by
        rw [hother (by omega) (by omega)]; exact hok.1.2.2⟩, hok.2⟩
    | _ => rw [hpc'] at hok; exact hok

omit [DecidableEq P] in
/-- The consumer stores its index and returns the item. -/
lemma Inv.advance {s : State P T} (h : Inv c s) {pos : ℕ} {item : T}
    (hpc : s.consumer = .storeHead pos item) (hlen : s.pushed.length < 2 ^ 63) :
    Inv c (s.advance pos item) := by
  obtain ⟨hhead, hrec, hitem⟩ : s.ring.head = pos ∧ s.reclaimed = pos + 1 ∧
      s.pushed[pos]? = some item := by
    have hok := h.cons
    rw [hpc] at hok
    exact hok
  have hlt := (List.getElem?_eq_some_iff.mp hitem).1
  have hwrap : wrap (pos + 1) = pos + 1 := wrap_of_lt (by omega)
  have hpop : s.popped = s.pushed.take pos := by
    rw [List.prefix_iff_eq_take.mp h.popped_le, ← h.head_eq, hhead]
  refine ⟨h.tail_eq, h.reclaimed_le, h.claimed_le, ?_, h.prod, h.writers_inj, ?_, ?_, ?_⟩
  · intro q hq hq'
    rcases h.slots q hq hq' with h' | ⟨h', hl, hd | ⟨x, hx⟩⟩
    · exact Or.inl h'
    · exact Or.inr ⟨h', hl, Or.inl hd⟩
    · rw [hpc] at hx; exact absurd hx (by simp)
  · show wrap (pos + 1) = s.reclaimed
    rw [hwrap, hrec]
  · show wrap (pos + 1) = (s.popped ++ [item]).length
    rw [hwrap, hpop]
    simp
    omega
  · show s.popped ++ [item] <+: s.pushed
    have : s.popped ++ [item] = s.pushed.take (pos + 1) := by
      rw [hpop, List.take_add_one, hitem]; rfl
    rw [this]
    exact List.take_prefix _ _

/-! ## Steps and runs -/

/-- **Every step keeps the invariant while fewer than `2 ^ 63` pushes have succeeded.** -/
lemma inv_step {s t : State P T} {a : Action P T} (h : Inv c s) (hs : Step c s a t)
    (hlen : t.pushed.length < 2 ^ 63) : Inv c t := by
  have hcons := h.cons
  cases move_of_step hs with
  | callPush => exact h.setProducer trivial (fun _ hw => hw)
  | loadTail => exact h.setProducer (le_of_eq h.tail_eq) (fun _ hw => hw)
  | @free p spurious item pos hpc hdiff =>
    have hpos : pos ≤ s.pushed.length := by
      have hok := h.prod p
      rw [hpc] at hok
      exact hok
    have hlen' : s.pushed.length < 2 ^ 63 := hlen
    have hle := h.reclaimed_le
    have hsize := c.size_le
    -- counter and position are both below `2 ^ 64`, so difference zero means equality
    have hseq : s.ring.sequence (c.slot pos) = pos := by
      obtain ⟨q, -, hq, -, hseq⟩ := h.seq_at pos
      rw [signedDiff_eq_zero (by omega) (by omega)] at hdiff
      exact hdiff
    exact h.setProducer ⟨hpos, h.lt_window hseq⟩ (fun _ hw => hw)
  | full => exact h.setProducer trivial (fun _ hw => hw)
  | behind => exact h.setProducer trivial (fun _ hw => hw)
  | claim hpc htail =>
    have hlen' : s.pushed.length + 1 < 2 ^ 63 := by simpa [State.claim] using hlen
    exact h.claim hpc htail hlen'
  | reload => exact h.setProducer (le_of_eq h.tail_eq) (fun _ hw => hw)
  | write hpc => exact h.write hpc
  | publish hpc => exact h.publish hpc hlen
  | callPop hquiet =>
    rcases hquiet with hpc | ⟨x, hpc⟩
    · rw [hpc] at hcons
      exact h.setConsumer hcons (not_took hpc (by simp))
    · rw [hpc] at hcons
      exact h.setConsumer hcons (not_took hpc (by simp))
  | loadHead hpc =>
    rw [hpc] at hcons
    exact h.setConsumer ⟨hcons, hcons⟩ (not_took hpc (by simp))
  | empty hpc =>
    rw [hpc] at hcons
    exact h.setConsumer hcons.1 (not_took hpc (by simp))
  | found hpc hdiff =>
    rw [hpc] at hcons
    obtain ⟨hhead, rfl⟩ := hcons
    have hlen' : s.pushed.length < 2 ^ 63 := hlen
    have hle := h.reclaimed_le
    have hsize := c.two_le_size
    rw [wrap_of_lt (by omega)] at hdiff
    refine h.setConsumer ⟨hhead, rfl, ?_⟩ (not_took hpc (by simp))
    -- a slot that is not published yet would have made the difference negative
    rcases h.slots s.reclaimed le_rfl (by omega) with h' | ⟨h', -, -⟩
    · rw [h'] at hdiff
      exact absurd (signedDiff_consumer (by omega)).1 hdiff
    · exact h'
  | take hpc => exact h.take _ hpc
  | reclaim hpc => exact h.reclaim hpc hlen
  | advance hpc => exact h.advance hpc hlen

/-- The histories only grow: claims and returned items are never taken back. -/
lemma length_le_of_step {s t : State P T} {a : Action P T} (hs : Step c s a t) :
    s.pushed.length ≤ t.pushed.length ∧ s.popped.length ≤ t.popped.length := by
  cases move_of_step hs with
  | claim => simp [State.claim]
  | advance => simp [State.advance]
  | _ => exact ⟨le_rfl, le_rfl⟩

/-- The invariant holds along every run with fewer than `2 ^ 63` successful pushes. -/
lemma inv_run {d : ℕ → T} {as : List (Action P T)} {s : State P T}
    (hrun : Run (Step c) (State.init d) as s) : s.pushed.length < 2 ^ 63 → Inv c s := by
  refine hrun.invariant (I := fun s => s.pushed.length < 2 ^ 63 → Inv c s)
    (fun _ => inv_init c d) ?_
  intro a l b ih hs hlen
  exact inv_step (ih (lt_of_le_of_lt (length_le_of_step hs).1 hlen)) hs hlen

end TickPlant.Mpsc
