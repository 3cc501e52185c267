/-
# Runs of labelled transition systems

A transition system is a relation `step s l t`: from the state `s`, the label `l` (an
atomic operation, an event, an answer of the environment) may lead to the state `t`.  A
run is a finite sequence of steps.  This file has the rules that the developments
about such systems use: an invariant kept by every step holds along every run, an
invariant may also speak of the labels seen so far, and a step-by-step simulation of one
system by another carries runs to runs.
-/
import Mathlib

namespace TickPlant.Lib

variable {σ τ ι κ : Type*}

/-- `Run step s ls t`: the labels `ls` lead from `s` to `t`. -/
inductive Run (step : σ → ι → σ → Prop) : σ → List ι → σ → Prop
  | nil (s : σ) : Run step s [] s
  | snoc {s t u : σ} {ls : List ι} {l : ι} :
      Run step s ls t → step t l u → Run step s (ls ++ [l]) u

namespace Run

variable {step : σ → ι → σ → Prop}

lemma single {s t : σ} {l : ι} (h : step s l t) : Run step s [l] t :=
  show Run step s ([] ++ [l]) t from (nil s).snoc h

lemma trans {s t u : σ} {ls ms : List ι} (h : Run step s ls t) (h' : Run step t ms u) :
    Run step s (ls ++ ms) u := by
  induction h' with
  | nil => simpa using h
  | snoc _ hstep ih =>
    rw [← List.append_assoc]
    exact ih.snoc hstep

lemma cons {s t u : σ} {l : ι} {ls : List ι} (h : step s l t) (h' : Run step t ls u) :
    Run step s (l :: ls) u := (single h).trans h'

/-- Executing a step function along a list of labels is a run. -/
lemma of_foldlM {f : σ → ι → Option σ} {s t : σ} {ls : List ι} (h : ls.foldlM f s = some t) :
    Run (fun a l b => f a l = some b) s ls t := by
  induction ls generalizing s with
  | nil =>
    obtain rfl : s = t := by simpa using h
    exact nil s
  | cons l ls ih =>
    rw [List.foldlM_cons] at h
    obtain ⟨u, hu, hrest⟩ := Option.bind_eq_some_iff.mp h
    exact cons hu (ih hrest)

/-- An invariant of the state together with the labels seen so far. -/
lemma trace_invariant {I : List ι → σ → Prop} {s t : σ} {ls : List ι} (h : Run step s ls t)
    (hinit : I [] s)
    (hstep : ∀ (ms : List ι) (a : σ) (l : ι) (b : σ),
      Run step s ms a → I ms a → step a l b → I (ms ++ [l]) b) : I ls t := by
  induction h with
  | nil => exact hinit
  | snoc hrun hs ih => exact hstep _ _ _ _ hrun ih hs

/-- An invariant of the state. -/
lemma invariant {I : σ → Prop} {s t : σ} {ls : List ι} (h : Run step s ls t) (hinit : I s)
    (hstep : ∀ (a : σ) (l : ι) (b : σ), I a → step a l b → I b) : I t :=
  h.trace_invariant (I := fun _ => I) hinit fun _ a l b _ hI hs => hstep a l b hI hs

/-- An invariant of the state that is kept by the steps with certain labels. -/
lemma invariant_of_labels {I : σ → Prop} {p : ι → Prop} {s t : σ} {ls : List ι}
    (h : Run step s ls t) (hls : ∀ l ∈ ls, p l) (hinit : I s)
    (hstep : ∀ (a : σ) (l : ι) (b : σ), I a → step a l b → p l → I b) : I t := by
  refine h.trace_invariant (I := fun ls t => (∀ l ∈ ls, p l) → I t) (fun _ => hinit) ?_ hls
  intro ms a l b _ hI hs hall
  exact hstep a l b (hI fun m hm => hall m (List.mem_append_left _ hm)) hs (hall l (by simp))

/-- A run whose labels all allow the steps of another system is a run of that system. -/
lemma mono_of_labels {step' : σ → ι → σ → Prop} {p : ι → Prop} {s t : σ} {ls : List ι}
    (h : Run step s ls t) (hls : ∀ l ∈ ls, p l)
    (hstep : ∀ a l b, step a l b → p l → step' a l b) : Run step' s ls t := by
  induction h with
  | nil => exact nil _
  | snoc _ hs ih =>
    exact (ih fun m hm => hls m (List.mem_append_left _ hm)).snoc
      (hstep _ _ _ hs (hls _ (by simp)))

/-- **Simulation.**  If every step from a pair of related states is matched by a run of the
other system that ends in related states, then so is every run. -/
lemma simulate {step' : τ → κ → τ → Prop} {R : σ → τ → Prop} {s t : σ} {ls : List ι} {s' : τ}
    (h : Run step s ls t) (hR : R s s')
    (hstep : ∀ a l b a', R a a' → step a l b → ∃ ms b', Run step' a' ms b' ∧ R b b') :
    ∃ ms t', Run step' s' ms t' ∧ R t t' := by
  induction h with
  | nil => exact ⟨[], s', nil s', hR⟩
  | snoc _ hs ih =>
    obtain ⟨ms, t', hrun, hRt⟩ := ih
    obtain ⟨ns, u', hrun', hRu⟩ := hstep _ _ _ _ hRt hs
    exact ⟨ms ++ ns, u', hrun.trans hrun', hRu⟩

end Run

end TickPlant.Lib
