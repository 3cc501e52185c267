/-
# Registers shared by many processes

Two kinds of registers that processes update one after the other, each once for every value
it brings.  To a *counter* a process adds its value, modulo the size of the register.  A
*bound* it moves, by a compare-exchange, to its own value if the content that it has loaded
lies beyond that value, in the sense of a preorder `r`; with `≤` the register is a minimum
and with `≥` a maximum.  The content that a process has loaded may be out of date when it
decides, but the register has only moved on in the direction of `r`.

For each kind there is an invariant over what the processes still owe, a rule for each
operation, and what the register holds when nothing is owed.
-/
import Mathlib

namespace TickPlant.Lib

variable {P : Type*} [DecidableEq P]

/-! ## Counters -/

/-- The register holds, modulo `m`, what has been brought, up to what is still owed. -/
structure Counting [Fintype P] (m init total : ℕ) (owes : P → ℕ) (reg : ℕ) : Prop where
  lt : reg < m
  sum_eq : reg + ∑ p, owes p ≡ init + total [MOD m]

namespace Counting

variable [Fintype P] {m init total reg : ℕ} {owes : P → ℕ}

omit [DecidableEq P] in
lemma start (h : init < m) : Counting m init 0 (fun _ : P => 0) init := by
  refine ⟨h, ?_⟩
  rw [Finset.sum_const_zero]

/-- One summand changes. -/
lemma sum_update_add (f : P → ℕ) (p : P) (x : ℕ) :
    ∑ q, Function.update f p x q + f p = ∑ q, f q + x := by
  rw [Finset.sum_update_of_mem (Finset.mem_univ p), ← Finset.add_sum_erase _ f (Finset.mem_univ p),
    Finset.sdiff_singleton_eq_erase]
  omega

/-- A process comes with the value `x`. -/
lemma bring (h : Counting m init total owes reg) {p : P} (hp : owes p = 0) (x : ℕ) :
    Counting m init (total + x) (Function.update owes p x) reg := by
  refine ⟨h.lt, ?_⟩
  have hsum := sum_update_add owes p x
  rw [hp, Nat.add_zero] at hsum
  rw [hsum, ← Nat.add_assoc, ← Nat.add_assoc]
  exact h.sum_eq.add_right x

/-- A process adds what it owes. -/
lemma add (h : Counting m init total owes reg) (p : P) :
    Counting m init total (Function.update owes p 0) ((reg + owes p) % m) := by
  refine ⟨Nat.mod_lt _ (by have := h.lt; omega), ?_⟩
  have hsum := sum_update_add owes p 0
  calc (reg + owes p) % m + ∑ q, Function.update owes p 0 q
      ≡ reg + owes p + ∑ q, Function.update owes p 0 q [MOD m] :=
        (Nat.mod_modEq _ _).add_right _
    _ = reg + ∑ q, owes q := by omega
    _ ≡ init + total [MOD m] := h.sum_eq

/-- What a process does: it adds what it owes, or nothing. -/
inductive Move (m : ℕ) : ℕ → ℕ → ℕ → ℕ → Prop
  | keep (x reg : ℕ) : Move m x reg x reg
  | add (x reg : ℕ) : Move m x reg 0 ((reg + x) % m)

omit [DecidableEq P] [Fintype P] in
lemma Move.of_keep {x y reg reg' : ℕ} (hx : y = x) (hreg : reg' = reg) : Move m x reg y reg' := by
  rw [hx, hreg]
  exact .keep x reg

lemma move (h : Counting m init total owes reg) {p : P} {x reg' : ℕ}
    (hmove : Move m (owes p) reg x reg') :
    Counting m init total (Function.update owes p x) reg' := by
  generalize hx : owes p = y at hmove
  cases hmove with
  | keep => rwa [← hx, Function.update_eq_self]
  | add =>
    rw [← hx]
    exact h.add p

omit [DecidableEq P] in
/-- Nothing is owed. -/
lemma settled (h : Counting m init total owes reg) (howes : ∀ p, owes p = 0) :
    reg = (init + total) % m := by
  have hsum := h.sum_eq
  rw [Finset.sum_eq_zero fun p _ => howes p, Nat.add_zero] at hsum
  rw [← hsum, Nat.mod_eq_of_lt h.lt]

end Counting

/-! ## Bounds -/

variable {α : Type*} {r : α → α → Prop}

/-- The register lies on the near side of all values brought, up to those still owed, and of
everything that a process has seen in it. -/
structure Bounding (r : α → α → Prop) (init : α) (brought : List α) (owes seen : P → Option α)
    (reg : α) : Prop where
  from_init : r reg init
  mem : reg = init ∨ reg ∈ brought
  done : ∀ x ∈ brought, r reg x ∨ ∃ p, owes p = some x
  owes_mem : ∀ p x, owes p = some x → x ∈ brought
  seen_near : ∀ p x, seen p = some x → r reg x

namespace Bounding

variable [IsPreorder α r] {init reg : α} {brought : List α} {owes seen : P → Option α}

omit [DecidableEq P] in
lemma start (init : α) : Bounding r init [] (fun _ : P => none) (fun _ => none) init where
  from_init := refl init
  mem := Or.inl rfl
  done := fun _ hx => absurd hx List.not_mem_nil
  owes_mem := fun _ _ h => absurd h (by simp)
  seen_near := fun _ _ h => absurd h (by simp)

omit [IsPreorder α r] in
/-- A process comes with the value `x`. -/
lemma bring (h : Bounding r init brought owes seen reg) {p : P} (hp : owes p = none)
    (hseen : seen p = none) (x : α) :
    Bounding r init (brought ++ [x]) (Function.update owes p (some x))
      (Function.update seen p none) reg := by
  rw [← hseen, Function.update_eq_self]
  refine ⟨h.from_init, h.mem.imp id (List.mem_append_left _), ?_, ?_, h.seen_near⟩
  · intro y hy
    rcases List.mem_append.mp hy with hy | hy
    · refine (h.done y hy).imp id ?_
      rintro ⟨q, hq⟩
      have hne : q ≠ p := by
        rintro rfl
        rw [hp] at hq
        exact absurd hq (by simp)
      exact ⟨q, by rw [Function.update_of_ne hne]; exact hq⟩
    · rw [List.mem_singleton.mp hy]
      exact Or.inr ⟨p, Function.update_self _ _ _⟩
  · intro q y hq
    by_cases hqp : q = p
    · rw [hqp, Function.update_self] at hq
      rw [← Option.some.inj hq]
      simp
    · rw [Function.update_of_ne hqp] at hq
      exact List.mem_append_left _ (h.owes_mem q y hq)

/-- A process loads the register. -/
lemma load (h : Bounding r init brought owes seen reg) (p : P) :
    Bounding r init brought owes (Function.update seen p (some reg)) reg := by
  refine ⟨h.from_init, h.mem, h.done, h.owes_mem, ?_⟩
  intro q y hq
  by_cases hqp : q = p
  · rw [hqp, Function.update_self] at hq
    rw [← Option.some.inj hq]
    exact refl reg
  · rw [Function.update_of_ne hqp] at hq
    exact h.seen_near q y hq

omit [IsPreorder α r] in
/-- What a process is done with it no longer owes. -/
lemma release (h : Bounding r init brought owes seen reg) {p : P} {x : α} (hp : owes p = some x)
    (hx : r reg x) :
    Bounding r init brought (Function.update owes p none) (Function.update seen p none) reg := by
  refine ⟨h.from_init, h.mem, ?_, ?_, ?_⟩
  · intro y hy
    rcases h.done y hy with hnear | ⟨q, hq⟩
    · exact Or.inl hnear
    · by_cases hqp : q = p
      · rw [hqp, hp] at hq
        exact Or.inl (Option.some.inj hq ▸ hx)
      · exact Or.inr ⟨q, by rw [Function.update_of_ne hqp]; exact hq⟩
  · intro q y hq
    by_cases hqp : q = p
    · rw [hqp, Function.update_self] at hq
      exact absurd hq (by simp)
    · rw [Function.update_of_ne hqp] at hq
      exact h.owes_mem q y hq
  · intro q y hq
    by_cases hqp : q = p
    · rw [hqp, Function.update_self] at hq
      exact absurd hq (by simp)
    · rw [Function.update_of_ne hqp] at hq
      exact h.seen_near q y hq

/-- A process finds that what it has seen, however old, was already near enough. -/
lemma leave (h : Bounding r init brought owes seen reg) {p : P} {x y : α}
    (hp : owes p = some x) (hseen : seen p = some y) (hr : r y x) :
    Bounding r init brought (Function.update owes p none) (Function.update seen p none) reg :=
  h.release hp (IsTrans.trans _ _ _ (h.seen_near p y hseen) hr)

/-- A process replaces the content, which lies beyond its value. -/
lemma exchange (h : Bounding r init brought owes seen reg) {p : P} {x : α}
    (hp : owes p = some x) (hr : r x reg) :
    Bounding r init brought (Function.update owes p none) (Function.update seen p none) x := by
  have hmoved : Bounding r init brought owes seen x :=
    ⟨IsTrans.trans _ _ _ hr h.from_init, Or.inr (h.owes_mem p x hp),
      fun y hy => (h.done y hy).imp (fun hnear => IsTrans.trans _ _ _ hr hnear) id, h.owes_mem,
      fun q y hq => IsTrans.trans _ _ _ hr (h.seen_near q y hq)⟩
  exact hmoved.release hp (refl x)

/-- What a process does: nothing, or one of the three operations above. -/
inductive Move (r : α → α → Prop) : Option α → Option α → α → Option α → Option α → α → Prop
  | keep (o s : Option α) (reg : α) : Move r o s reg o s reg
  | load (o s : Option α) (reg : α) : Move r o s reg o (some reg) reg
  | leave (x y reg : α) (h : r y x) : Move r (some x) (some y) reg none none reg
  | exchange (x : α) (s : Option α) (reg : α) (h : r x reg) : Move r (some x) s reg none none x

omit [DecidableEq P] [IsPreorder α r] in
lemma Move.of_keep {o o' s s' : Option α} {reg' : α} (ho : o' = o) (hs : s' = s)
    (hreg : reg' = reg) : Move r o s reg o' s' reg' := by
  rw [ho, hs, hreg]
  exact .keep o s reg

lemma move (h : Bounding r init brought owes seen reg) {p : P} {o s : Option α} {reg' : α}
    (hmove : Move r (owes p) (seen p) reg o s reg') :
    Bounding r init brought (Function.update owes p o) (Function.update seen p s) reg' := by
  generalize howes : owes p = o₀ at hmove
  generalize hseen : seen p = s₀ at hmove
  cases hmove with
  | keep => rwa [← howes, ← hseen, Function.update_eq_self, Function.update_eq_self]
  | load =>
    rw [← howes, Function.update_eq_self]
    exact h.load p
  | leave x y _ hr => exact h.leave howes hseen hr
  | exchange _ _ _ hr => exact h.exchange howes hr

omit [DecidableEq P] [IsPreorder α r] in
/-- Nothing is owed: the register is one of the values, and near all of them. -/
lemma settled (h : Bounding r init brought owes seen reg) (howes : ∀ p, owes p = none) :
    reg ∈ init :: brought ∧ ∀ x ∈ init :: brought, r reg x := by
  refine ⟨List.mem_cons.mpr h.mem, ?_⟩
  intro x hx
  rcases List.mem_cons.mp hx with rfl | hx
  · exact h.from_init
  · refine (h.done x hx).resolve_right ?_
    rintro ⟨p, hp⟩
    rw [howes p] at hp
    exact absurd hp (by simp)

end Bounding

end TickPlant.Lib
