/-
# Searching a list for a pattern

`search pat s` is the position of the first occurrence of `pat` in `s`; for a single element it is
`findIdx?` of the standard library.  A delimiter behind a text
is found at the end of the text if it does not begin earlier; for that it must not occur in the text
followed by all of itself but its last element.
-/
import Mathlib

namespace TickPlant.Lib

variable {α : Type*} [DecidableEq α] {pat s : List α}

/-! ## One element -/

lemma findIdx?_eq_none_iff_not_mem {c : α} : s.findIdx? (· = c) = none ↔ c ∉ s := by
  simp only [List.findIdx?_eq_none_iff, decide_eq_false_iff_not]
  constructor
  · intro h hc
    exact h c hc rfl
  · rintro h b hb rfl
    exact h hb

/-- The first `c`, behind a text without it. -/
lemma findIdx?_append_cons {c : α} (h : c ∉ s) (rest : List α) :
    (s ++ c :: rest).findIdx? (· = c) = some s.length := by
  rw [List.findIdx?_append, findIdx?_eq_none_iff_not_mem.mpr h, List.findIdx?_cons]
  simp

/-! ## Patterns -/

/-- The position of the first occurrence of a pattern. -/
def search (pat : List α) : List α → Option ℕ
  | [] => if pat = [] then some 0 else none
  | c :: s => if pat <+: c :: s then some 0 else (search pat s).map (· + 1)

lemma search_eq_none (h : ¬ pat <:+: s) : search pat s = none := by
  induction s with
  | nil =>
    have hne : pat ≠ [] := by
      rintro rfl
      exact h List.nil_infix
    rw [search, if_neg hne]
  | cons c s ih =>
    have hprefix : ¬ pat <+: c :: s := fun hp => h hp.isInfix
    have hrest : ¬ pat <:+: s := fun hi => h (List.infix_cons hi)
    rw [search, if_neg hprefix, ih hrest]
    rfl

/-- The occurrence lies within the list. -/
lemma search_add_length_le {i : ℕ} (h : search pat s = some i) : i + pat.length ≤ s.length := by
  induction s generalizing i with
  | nil =>
    rw [search] at h
    split at h
    · rename_i hnil
      cases h
      simp [hnil]
    · cases h
  | cons c s ih =>
    rw [search] at h
    split at h
    · rename_i hprefix
      cases h
      simpa using hprefix.length_le
    · obtain ⟨j, hj, rfl⟩ := Option.map_eq_some_iff.mp h
      have := ih hj
      rw [List.length_cons]
      omega

/-- A pattern behind a text. -/
lemma search_append (hne : pat ≠ []) (h : ¬ pat <:+: s ++ pat.dropLast) (rest : List α) :
    search pat (s ++ (pat ++ rest)) = some s.length := by
  induction s with
  | nil =>
    obtain ⟨c, pat', rfl⟩ := List.exists_cons_of_ne_nil hne
    rw [List.nil_append, List.cons_append, search, if_pos ⟨rest, by simp⟩]
    rfl
  | cons c s ih =>
    have hprefix : ¬ pat <+: c :: (s ++ (pat ++ rest)) := by
      intro hp
      -- an occurrence at the front is one in the text without the last element
      have hlong : c :: s ++ pat.dropLast <+: c :: (s ++ (pat ++ rest)) := by
        refine ⟨pat.getLast hne :: rest, ?_⟩
        conv_rhs => rw [← List.dropLast_append_getLast hne]
        simp
      have hlen : pat.length ≤ (c :: s ++ pat.dropLast).length := by
        simp
        omega
      exact h (List.prefix_of_prefix_length_le hp hlong hlen).isInfix
    have hrest : ¬ pat <:+: s ++ pat.dropLast := fun hi => h (List.infix_cons hi)
    rw [List.cons_append, search, if_neg hprefix, ih hrest]
    rfl

end TickPlant.Lib
