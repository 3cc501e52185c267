/-
# States made of components

Many state machines are a family of components, and a call touches one of them, its own.  Such a
machine does not tell apart two histories that agree on every component: what a component is
after a run is what its own calls make of it, in their order, wherever the others come in
between.
-/
import Mathlib

namespace TickPlant.Lib

variable {σ ι κ α : Type*} [DecidableEq κ]

/-- A call acts on the component that it names, and on no other. -/
structure Componentwise (apply : σ → ι → σ) (get : κ → σ → α) (key : ι → Option κ)
    (act : κ → α → ι → α) : Prop where
  get_apply : ∀ s l k, get k (apply s l) = if key l = some k then act k (get k s) l else get k s

/-- The calls that name a component, in their order. -/
def callsOn (key : ι → Option κ) (k : κ) (ls : List ι) : List ι :=
  ls.filter fun l => key l = some k

/-- Two histories with the same calls on every component. -/
def SameCalls (key : ι → Option κ) (ls ls' : List ι) : Prop :=
  ∀ k, callsOn key k ls = callsOn key k ls'

lemma callsOn_append (key : ι → Option κ) (k : κ) (ls ls' : List ι) :
    callsOn key k (ls ++ ls') = callsOn key k ls ++ callsOn key k ls' := List.filter_append ..

/-- Two neighbours that name different components may change places. -/
lemma sameCalls_swap {key : ι → Option κ} {l l' : ι} (h : key l ≠ key l') (before after : List ι) :
    SameCalls key (before ++ l :: l' :: after) (before ++ l' :: l :: after) := by
  intro k
  rw [callsOn_append, callsOn_append]
  simp only [callsOn, List.filter_cons]
  by_cases hl : key l = some k
  · have hl' : key l' ≠ some k := fun hl' => h (hl.trans hl'.symm)
    simp [hl, hl']
  · simp [hl]

namespace Componentwise

variable {apply : σ → ι → σ} {get : κ → σ → α} {key : ι → Option κ} {act : κ → α → ι → α}

/-- What a component is after a run. -/
lemma get_foldl (h : Componentwise apply get key act) (ls : List ι) (s : σ) (k : κ) :
    get k (ls.foldl apply s) = (callsOn key k ls).foldl (act k) (get k s) := by
  induction ls generalizing s with
  | nil => rfl
  | cons l ls ih =>
    rw [List.foldl_cons, ih, h.get_apply, callsOn, callsOn, List.filter_cons]
    by_cases hl : key l = some k
    · simp [hl]
    · simp [hl]

/-- Histories with the same calls on every component lead to the same components. -/
lemma get_foldl_congr (h : Componentwise apply get key act) {ls ls' : List ι}
    (hls : SameCalls key ls ls') (s : σ) (k : κ) :
    get k (ls.foldl apply s) = get k (ls'.foldl apply s) := by
  rw [h.get_foldl, h.get_foldl, hls k]

end Componentwise

end TickPlant.Lib
