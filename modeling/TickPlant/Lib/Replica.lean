/-
# Replicas

A source holds a map and reports how it changes.  A report is a list of operations, each with a
key and the value that the source now holds there; it *describes* the change if a key that no
operation names has kept its value.  Neither the order of the operations nor repetitions matter,
so a report can be rearranged on its way.

A store that is written key by key and holds what the source held, holds what the source holds
now when it has performed the operations of a report (`Describes.get_foldl`).
-/
import TickPlant.Lib.Writes

namespace TickPlant.Lib

variable {σ ι κ α : Type*}

/-- The operations describe the change of a map from `m` to `m'`. -/
structure Describes (key : ι → κ) (value : ι → α) (m m' : κ → α) (ops : List ι) : Prop where
  named : ∀ o ∈ ops, value o = m' (key o)
  other : ∀ k, (∀ o ∈ ops, key o ≠ k) → m' k = m k

namespace Describes

variable {key : ι → κ} {value value' : ι → α} {m m' : κ → α} {ops ops' : List ι}

/-- A report may be rearranged. -/
lemma perm (h : Describes key value m m' ops) (hperm : ops'.Perm ops) :
    Describes key value m m' ops' where
  named o ho := h.named o (hperm.mem_iff.mp ho)
  other k hk := h.other k fun o ho => hk o (hperm.mem_iff.mpr ho)

/-- Only the values of the operations of the report matter. -/
lemma congr (h : Describes key value m m' ops) (hvalue : ∀ o ∈ ops, value' o = value o) :
    Describes key value' m m' ops where
  named o ho := (hvalue o ho).trans (h.named o ho)
  other := h.other

/-- An empty report describes that nothing has changed. -/
lemma eq_of_nil (h : Describes key value m m' []) : m' = m :=
  funext fun k => h.other k fun _ ho => absurd ho List.not_mem_nil

/-- **A store follows the reports.** -/
lemma get_foldl [DecidableEq κ] {get : σ → κ → α} {step : σ → ι → σ}
    (h : Describes key value m m' ops) (hw : Writes get step key value) {s : σ}
    (hs : get s = m) : get (ops.foldl step s) = m' := by
  funext k
  rw [hw.get_foldl]
  cases hlast : lastNaming key k ops with
  | none =>
    have hother := h.other k (lastNaming_eq_none.mp hlast)
    rw [Option.map_none, Option.getD_none, hs, hother]
  | some o =>
    obtain ⟨ho, rfl⟩ := lastNaming_eq_some hlast
    rw [Option.map_some, Option.getD_some]
    exact h.named o ho

end Describes

end TickPlant.Lib
