/-
# Readings that stop

A reading of data that came from outside stops in one of two ways: it throws, or its behaviour is
undefined.  A reading is `Defined` if it does not stop in the second way; the rules derive this
along a sequence of readings, and take a sequence that succeeds apart.
-/
import Mathlib

namespace TickPlant.Lib

/-- How a reading stops. -/
inductive Stop
  | exception
  | undefined
deriving DecidableEq

variable {α β : Type}

/-- A call without a result has thrown. -/
def orThrow : Option α → Except Stop α
  | some a => .ok a
  | none => .error .exception

lemma orThrow_eq_ok {o : Option α} {a : α} : orThrow o = .ok a ↔ o = some a := by
  cases o <;> simp [orThrow]

/-- The behaviour of the reading is defined. -/
def Defined (r : Except Stop α) : Prop := r ≠ .error .undefined

lemma defined_ok (a : α) : Defined (.ok a) := by simp [Defined]

lemma defined_exception : Defined (.error .exception : Except Stop α) := by simp [Defined]

lemma defined_orThrow (o : Option α) : Defined (orThrow o) := by
  cases o with
  | none => exact defined_exception
  | some a => exact defined_ok a

lemma Defined.bind {r : Except Stop α} {f : α → Except Stop β} (hr : Defined r)
    (hf : ∀ a, r = .ok a → Defined (f a)) : Defined (r >>= f) := by
  cases r with
  | ok a => exact hf a rfl
  | error e =>
    cases e with
    | exception => exact defined_exception
    | undefined => exact absurd rfl hr

lemma Defined.ite {c : Prop} [Decidable c] {r r' : Except Stop α} (h : c → Defined r)
    (h' : ¬ c → Defined r') : Defined (if c then r else r') := by
  split_ifs with hc
  · exact h hc
  · exact h' hc

lemma Defined.mapM {f : α → Except Stop β} {l : List α} (h : ∀ x ∈ l, Defined (f x)) :
    Defined (l.mapM f) := by
  induction l with
  | nil => exact defined_ok []
  | cons x l ih =>
    rw [List.mapM_cons]
    refine (h x List.mem_cons_self).bind fun y _ => ?_
    exact (ih fun z hz => h z (List.mem_cons_of_mem x hz)).bind fun ys _ => defined_ok _

/-- A sequence succeeds if its first reading does, and then the rest. -/
lemma bind_eq_ok {r : Except Stop α} {f : α → Except Stop β} {b : β} :
    r >>= f = .ok b ↔ ∃ a, r = .ok a ∧ f a = .ok b := by
  cases r with
  | ok a => exact ⟨fun h => ⟨a, rfl, h⟩, by rintro ⟨_, ⟨⟩, h⟩; exact h⟩
  | error e => exact ⟨fun h => (nomatch h), by rintro ⟨_, h, -⟩; cases h⟩

/-- A list of readings succeeds if each of them does, and gives their results in order. -/
lemma mapM_eq_ok {f : α → Except Stop β} {l : List α} {r : List β} :
    l.mapM f = .ok r ↔ List.Forall₂ (fun a b => f a = .ok b) l r := by
  induction l generalizing r with
  | nil =>
    rw [List.mapM_nil, List.forall₂_nil_left_iff]
    exact ⟨fun h => (Except.ok.inj h).symm, fun h => by rw [h]; rfl⟩
  | cons x l ih =>
    rw [List.mapM_cons, List.forall₂_cons_left_iff]
    constructor
    · intro h
      obtain ⟨y, hy, h⟩ := bind_eq_ok.mp h
      obtain ⟨ys, hys, h⟩ := bind_eq_ok.mp h
      exact ⟨y, ys, hy, ih.mp hys, (Except.ok.inj h).symm⟩
    · rintro ⟨y, ys, hx, hys, rfl⟩
      rw [hx, ih.mpr hys]
      rfl

end TickPlant.Lib
