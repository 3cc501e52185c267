/-
# The values of a finite map

A store keeps records under ids, and a summary of the store (a total, a count, a sum by
group) does not depend on the ids or on the order of the records.  The list of the values of
an association list carries such a summary: up to permutation, writing a key puts the new
value in front of what remains without that key, and a key that is present contributes one
value.
-/
import Mathlib

namespace TickPlant.Lib

variable {κ α : Type*} [DecidableEq κ]

/-- The values of a map, in the order of its entries. -/
def values (m : AList fun _ : κ => α) : List α := m.entries.map Sigma.snd

omit [DecidableEq κ] in
@[simp] lemma values_empty : values (∅ : AList fun _ : κ => α) = [] := rfl

lemma values_insert (m : AList fun _ : κ => α) (k : κ) (x : α) :
    values (m.insert k x) = x :: values (m.erase k) := by
  simp [values, AList.erase]

/-- A key that is present contributes its value. -/
lemma values_perm_erase {m : AList fun _ : κ => α} {k : κ} {x : α} (h : m.lookup k = some x) :
    (values m).Perm (x :: values (m.erase k)) := by
  have hmem : (⟨k, x⟩ : Σ _ : κ, α) ∈ m.entries := AList.mem_lookup_iff.mp h
  obtain ⟨y, l₁, l₂, hnot, hsplit, herase⟩ :=
    List.exists_of_kerase (List.mem_keys_of_mem hmem)
  have hy : x = y := by
    have hk : (⟨k, y⟩ : Σ _ : κ, α) ∈ m.entries := by simp [hsplit]
    rw [← AList.mem_lookup_iff, h] at hk
    simpa using hk
  subst hy
  have hrest : values (m.erase k) = l₁.map Sigma.snd ++ l₂.map Sigma.snd := by
    rw [← List.map_append, ← herase]
    rfl
  rw [hrest, values, hsplit, List.map_append, List.map_cons]
  exact List.perm_middle

/-- A key that is absent contributes nothing. -/
lemma erase_of_not_mem {m : AList fun _ : κ => α} {k : κ} (h : k ∉ m) : m.erase k = m := by
  apply AList.ext
  exact List.kerase_of_notMem_keys h

lemma mem_values {m : AList fun _ : κ => α} {x : α} :
    x ∈ values m ↔ ∃ k, m.lookup k = some x := by
  constructor
  · intro h
    obtain ⟨⟨k, y⟩, hmem, rfl⟩ := List.mem_map.mp h
    exact ⟨k, AList.mem_lookup_iff.mpr hmem⟩
  · rintro ⟨k, hk⟩
    exact List.mem_map.mpr ⟨⟨k, x⟩, AList.mem_lookup_iff.mp hk, rfl⟩

end TickPlant.Lib
