/-
# The fields of a message

`next_field` looks for the next `=` and only then for the next SOH, from one position of the message
to the next.  The fields that the loop of `parse` obtains are compared here with the plain reading
of a message: it is split at SOH, each segment is cut at its first `=`, and the first segment
without `=` ends the message.

For a segment with `=` the two agree.  A segment without `=` is not noticed by `next_field` if any
`=` follows: it becomes part of the tag of a later field, together with the SOH behind it.  So the
two readings agree exactly for messages that have no `=` behind such a segment.
-/
import TickPlant.Fix.RoundTrip

namespace TickPlant.FIXParser

open Lib

/-! ## The fields of the loop -/

/-- The tags and values that the loop of `parse` obtains; the checksum is the last one. -/
def fieldsLoop : ℕ → Bytes → List (ℤ × Bytes)
  | 0, _ => []
  | fuel + 1, cursor =>
    match nextField cursor with
    | none => []
    | some (tag, value, rest) =>
      if tag = 10 then [(tag, value)] else (tag, value) :: fieldsLoop fuel rest

/-- The tags and values that `parse` obtains from a message. -/
def fields (msg : Bytes) : List (ℤ × Bytes) := fieldsLoop msg.length msg

lemma fieldsLoop_fuel {fuel fuel' : ℕ} {cursor : Bytes} (h : cursor.length ≤ fuel)
    (h' : cursor.length ≤ fuel') : fieldsLoop fuel cursor = fieldsLoop fuel' cursor := by
  induction fuel generalizing fuel' cursor with
  | zero =>
    obtain rfl : cursor = [] := List.length_eq_zero_iff.mp (by omega)
    cases fuel' with
    | zero => rfl
    | succ fuel' => rfl
  | succ fuel ih =>
    cases fuel' with
    | zero =>
      obtain rfl : cursor = [] := List.length_eq_zero_iff.mp (by omega)
      rfl
    | succ fuel' =>
      rw [fieldsLoop, fieldsLoop]
      split
      · rfl
      · rename_i tag value rest hfield
        have hshrinks := nextField_shrinks hfield
        split
        · rfl
        · exact congrArg _ (ih (by omega) (by omega))

lemma fields_of_none {cursor : Bytes} (h : nextField cursor = none) : fields cursor = [] := by
  rw [fields]
  cases cursor.length with
  | zero => rfl
  | succ n => rw [fieldsLoop, h]

lemma fields_of_some {cursor value rest : Bytes} {tag : ℤ}
    (h : nextField cursor = some (tag, value, rest)) :
    fields cursor = if tag = 10 then [(tag, value)] else (tag, value) :: fields rest := by
  have hshrinks := nextField_shrinks h
  obtain ⟨n, hn⟩ : ∃ n, cursor.length = n + 1 := ⟨cursor.length - 1, by omega⟩
  rw [fields, hn, fieldsLoop, h]
  dsimp only
  rw [fieldsLoop_fuel (show rest.length ≤ n by omega) le_rfl, fields]

lemma fields_eq_nil_iff {cursor : Bytes} : fields cursor = [] ↔ nextField cursor = none := by
  constructor
  · intro hnil
    cases hfield : nextField cursor with
    | none => rfl
    | some field =>
      rw [fields_of_some hfield] at hnil
      split at hnil <;> cases hnil
  · exact fields_of_none

/-- The loop without its fuel, for an induction over the fields. -/
lemma fields_induction {p : Bytes → Prop} (stop : ∀ cursor, nextField cursor = none → p cursor)
    (step : ∀ cursor tag value rest, nextField cursor = some (tag, value, rest) → p rest → p cursor)
    (cursor : Bytes) : p cursor := by
  induction hn : cursor.length using Nat.strong_induction_on generalizing cursor with
  | _ n ih =>
    cases hfield : nextField cursor with
    | none => exact stop cursor hfield
    | some field =>
      obtain ⟨tag, value, rest⟩ := field
      have hshrinks := nextField_shrinks hfield
      exact step cursor tag value rest hfield (ih rest.length (by omega) rest rfl)

/-- A value ends before the next delimiter. -/
lemma soh_not_mem_value {cursor value rest : Bytes} {tag : ℤ}
    (h : nextField cursor = some (tag, value, rest)) : fixSoh ∉ value := by
  rw [nextField] at h
  split at h
  · cases h
  · dsimp only at h
    split at h
    · rename_i hsoh
      obtain ⟨-, rfl, -⟩ := by simpa using h
      exact findIdx?_eq_none_iff_not_mem.mp hsoh
    · rename_i soh hsoh
      obtain ⟨-, rfl, -⟩ := by simpa using h
      obtain ⟨_, _, hbefore⟩ := List.findIdx?_eq_some_iff_getElem.mp hsoh
      intro hmem
      obtain ⟨j, hj, heq⟩ := List.getElem_of_mem hmem
      rw [List.length_take] at hj
      rw [List.getElem_take] at heq
      exact hbefore j (by omega) (by simpa using heq)

lemma soh_not_mem_fields {msg : Bytes} {f : ℤ × Bytes} (hf : f ∈ fields msg) : fixSoh ∉ f.2 := by
  induction msg using fields_induction with
  | stop cursor hnone =>
    rw [fields_of_none hnone] at hf
    exact absurd hf List.not_mem_nil
  | step cursor tag value rest hfield ih =>
    have hvalue := soh_not_mem_value hfield
    rw [fields_of_some hfield] at hf
    split at hf
    · rw [List.mem_singleton.mp hf]
      exact hvalue
    · rcases List.mem_cons.mp hf with rfl | hf
      · exact hvalue
      · exact ih hf

/-- The loop acts on the fields before the checksum, one after the other. -/
lemma run_eq_foldl (r : Rounding) (msg : Bytes) (s : State) :
    run r msg s = (((fields msg).takeWhile fun f => f.1 ≠ 10).foldl
      (fun s f => onField r f.1 f.2 s) s).out := by
  induction msg using fields_induction generalizing s with
  | stop cursor hnone =>
    rw [fields_of_none hnone, run]
    cases cursor.length with
    | zero => rfl
    | succ n => rw [parseLoop, hnone]; rfl
  | step cursor tag value rest hfield ih =>
    rw [run_eq r s hfield, fields_of_some hfield]
    by_cases h10 : tag = 10
    · simp [h10]
    · rw [if_neg h10, if_neg h10, ih, List.takeWhile_cons_of_pos (by simpa using h10)]
      rfl

/-! ## The plain reading -/

/-- A segment, cut at its first `=`. -/
def cutField (segment : Bytes) : Option (ℤ × Bytes) :=
  (segment.findIdx? (· = 61)).map fun eq => (parseInt (segment.take eq), segment.drop (eq + 1))

/-- The segments up to the first one without `=`. -/
def untilMalformed : List Bytes → List (ℤ × Bytes)
  | [] => []
  | segment :: rest =>
    match cutField segment with
    | none => []
    | some field => field :: untilMalformed rest

/-- The fields up to the checksum, with which `parse` returns. -/
def untilChecksum : List (ℤ × Bytes) → List (ℤ × Bytes)
  | [] => []
  | field :: rest => if field.1 = 10 then [field] else field :: untilChecksum rest

/-- The message is split at SOH and its segments are cut, up to the first malformed one. -/
def plainFields (msg : Bytes) : List (ℤ × Bytes) :=
  untilChecksum (untilMalformed (msg.splitOn fixSoh))

/-- Behind the first segment without `=`, no segment has one, unless the checksum comes first. -/
def EndsClean : List Bytes → Prop
  | [] => True
  | segment :: rest =>
    match cutField segment with
    | none => ∀ t ∈ rest, 61 ∉ t
    | some field => field.1 = 10 ∨ EndsClean rest

/-- Induction over the segments of a message. -/
lemma segment_induction {p : Bytes → Prop} (last : ∀ s, fixSoh ∉ s → p s)
    (more : ∀ s rest, fixSoh ∉ s → p rest → p (s ++ fixSoh :: rest)) (msg : Bytes) : p msg := by
  induction hn : msg.length using Nat.strong_induction_on generalizing msg with
  | _ n ih =>
    by_cases hmem : fixSoh ∈ msg
    · obtain ⟨s, rest, rfl, hs⟩ := List.eq_append_cons_of_mem hmem
      refine more s rest hs (ih rest.length ?_ rest rfl)
      rw [← hn, List.length_append, List.length_cons]
      omega
    · exact last msg hmem

/-- No segment has a byte that the message has not. -/
lemma not_mem_iff_segments {b : UInt8} (hb : b ≠ fixSoh) (msg : Bytes) :
    b ∉ msg ↔ ∀ t ∈ msg.splitOn fixSoh, b ∉ t := by
  induction msg using segment_induction with
  | last s hs => simp [List.splitOn_eq_singleton hs]
  | more s rest hs ih => simp [List.splitOn_append_cons_self_of_not_mem hs, hb, ih]

/-! ## One segment -/

lemma cutField_of_not_mem {s : Bytes} (h : 61 ∉ s) : cutField s = none := by
  rw [cutField, findIdx?_eq_none_iff_not_mem.mpr h]
  rfl

section

variable {t : Bytes} (ht : 61 ∉ t)
include ht

lemma cutField_append (v : Bytes) : cutField (t ++ 61 :: v) = some (parseInt t, v) := by
  rw [cutField, findIdx?_append_cons ht]
  simp

/-- A segment with `=` that another one follows. -/
lemma nextField_more {v : Bytes} (hv : fixSoh ∉ v) (rest : Bytes) :
    nextField (t ++ 61 :: v ++ fixSoh :: rest) = some (parseInt t, v, rest) := by
  have hfield := nextField_field ⟨t, rfl, ht, rfl⟩ hv rest
  simpa using hfield

/-- The last segment. -/
lemma nextField_last {v : Bytes} (hv : fixSoh ∉ v) :
    nextField (t ++ 61 :: v) = some (parseInt t, v, []) := by
  rw [nextField, findIdx?_append_cons ht]
  simp [findIdx?_eq_none_iff_not_mem.mpr hv]

end

lemma nextField_eq_none_iff {cursor : Bytes} : nextField cursor = none ↔ 61 ∉ cursor := by
  rw [← findIdx?_eq_none_iff_not_mem, nextField]
  cases cursor.findIdx? (· = 61) with
  | none => exact iff_of_true rfl rfl
  | some eq =>
    refine iff_of_false ?_ (by simp)
    dsimp only
    split <;> simp

/-! ## Both readings -/

/-- **The tokens of a message.**  For every message, `parse` obtains the fields of the plain reading
if and only if no `=` stands behind the first segment without `=`, or the checksum comes before
that segment. -/
theorem fields_eq_plainFields_iff (msg : Bytes) :
    fields msg = plainFields msg ↔ EndsClean (msg.splitOn fixSoh) := by
  rw [plainFields]
  induction msg using segment_induction with
  | last s hs =>
    rw [List.splitOn_eq_singleton hs]
    by_cases h61 : 61 ∈ s
    · obtain ⟨t, v, rfl, ht⟩ := List.eq_append_cons_of_mem h61
      have hv : fixSoh ∉ v := fun h => hs (by simp [h])
      have hnil : fields [] = [] := rfl
      rw [fields_of_some (nextField_last ht hv), hnil]
      simp [untilMalformed, untilChecksum, EndsClean, cutField_append ht]
    · rw [fields_of_none (nextField_eq_none_iff.mpr h61)]
      simp [untilMalformed, untilChecksum, EndsClean, cutField_of_not_mem h61]
  | more s rest hs ih =>
    rw [List.splitOn_append_cons_self_of_not_mem hs]
    by_cases h61 : 61 ∈ s
    · obtain ⟨t, v, rfl, ht⟩ := List.eq_append_cons_of_mem h61
      have hv : fixSoh ∉ v := fun h => hs (by simp [h])
      rw [fields_of_some (nextField_more ht hv rest)]
      simp only [untilMalformed, untilChecksum, EndsClean, cutField_append ht]
      by_cases h10 : parseInt t = 10
      · simp [h10]
      · rw [if_neg h10, if_neg h10, List.cons_inj_right, ih]
        simp [h10]
    · -- the segment is not noticed if any `=` follows
      have hfields : fields (s ++ fixSoh :: rest) = [] ↔ 61 ∉ rest := by
        rw [fields_eq_nil_iff, nextField_eq_none_iff]
        simp [h61, fixSoh]
      simp only [untilMalformed, untilChecksum, EndsClean, cutField_of_not_mem h61]
      rw [hfields, not_mem_iff_segments (by decide)]

/-- The text `12` before a complete field becomes part of its tag. -/
theorem malformed_absorbs_field :
    fields (bytes "12" ++ fixSoh :: (bytes "35=W" ++ [fixSoh])) = [(12, bytes "W")] ∧
      plainFields (bytes "12" ++ fixSoh :: (bytes "35=W" ++ [fixSoh])) = [] := by
  decide

end TickPlant.FIXParser
