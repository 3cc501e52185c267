/-
# The tag of a field

`next_field` reads the tag of a field with `parse_int`, which stops at the first byte that is no
digit and has no range check.  `switch` then dispatches on the number.

So a tag text is read as written only if its digits stay below `2^31` and, if their number is a case
label, nothing follows them.  `35abc=W` sets the type of the message, and with `int` arithmetic
modulo `2^32` so does `4294967331=W`.
-/
import TickPlant.Fix.Tokens

namespace TickPlant.FIXParser

open Lib

/-! ## The texts of the tags -/

/-- The text before the next `=`. -/
def tagText (cursor : Bytes) : Bytes := cursor.takeWhile (· ≠ 61)

/-- `fieldsLoop` with the texts of the tags. -/
def textFieldsLoop : ℕ → Bytes → List (Bytes × Bytes)
  | 0, _ => []
  | fuel + 1, cursor =>
    match nextField cursor with
    | none => []
    | some (tag, value, rest) =>
      if tag = 10 then [(tagText cursor, value)]
      else (tagText cursor, value) :: textFieldsLoop fuel rest

/-- The texts of the tags and the values of the fields that `parse` obtains from a message. -/
def textFields (msg : Bytes) : List (Bytes × Bytes) := textFieldsLoop msg.length msg

lemma nextField_tag {cursor value rest : Bytes} {tag : ℤ}
    (h : nextField cursor = some (tag, value, rest)) : tag = parseInt (tagText cursor) := by
  have h61 : 61 ∈ cursor := by
    by_contra h61
    rw [nextField_eq_none_iff.mpr h61] at h
    cases h
  obtain ⟨t, v, rfl, ht⟩ := List.eq_append_cons_of_mem h61
  have htext : tagText (t ++ 61 :: v) = t := by
    rw [tagText, List.takeWhile_append_of_pos
      fun b hb => decide_eq_true (by rintro rfl; exact ht hb)]
    simp
  rw [nextField, findIdx?_append_cons ht] at h
  dsimp only at h
  rw [htext]
  split at h <;> simp_all

/-- The fields of the loop, with their tags read. -/
lemma fieldsLoop_eq_map (fuel : ℕ) (cursor : Bytes) :
    fieldsLoop fuel cursor = (textFieldsLoop fuel cursor).map fun f => (parseInt f.1, f.2) := by
  induction fuel generalizing cursor with
  | zero => rfl
  | succ fuel ih =>
    rw [fieldsLoop, textFieldsLoop]
    cases hfield : nextField cursor with
    | none => rfl
    | some field =>
      obtain ⟨tag, value, rest⟩ := field
      dsimp only
      rw [nextField_tag hfield]
      split
      · rfl
      · rw [ih, List.map_cons]

lemma fields_eq_map (msg : Bytes) :
    fields msg = (textFields msg).map fun f => (parseInt f.1, f.2) :=
  fieldsLoop_eq_map msg.length msg

/-! ## The dispatch -/

/-- The case labels of `switch (tag)`. -/
def caseLabels : List ℤ :=
  [8, 9, 35, 34, 49, 56, 52, 55, 262, 268, 269, 279, 270, 271, 11, 17, 31, 32, 38, 39, 40, 44, 54,
    59, 10]

/-- The other tags are ignored. -/
lemma onField_default (r : Rounding) {tag : ℤ} (htag : tag ∉ caseLabels) (value : Bytes)
    (s : State) : onField r tag value s = s := by
  simp only [caseLabels, List.mem_cons, not_or] at htag
  unfold onField
  split
  all_goals first
    | rfl
    | omega

/-! ## The range of the accumulation -/

/-- The values of `result * 10 + (c - '0')` in the loop of `parse_int`, before they are narrowed to
an `int`.  If one of them is in range, then so is the product. -/
def sums : ℤ → Bytes → List ℤ
  | _, [] => []
  | result, c :: rest =>
    if IsDigit c then
      let sum := result * 10 + digitValue c
      sum :: sums (toInt32 sum) rest
    else []

/-- The text after the sign. -/
def unsigned : Bytes → Bytes
  | 45 :: rest => rest
  | sv => sv

/-- The number of the digits at the front of a text. -/
def leadingNumber (sv : Bytes) : ℕ := ofDigits 0 (sv.takeWhile fun b => IsDigit b)

lemma parseIntLoop_takeWhile (result : ℤ) (sv : Bytes) :
    parseIntLoop result sv = parseIntLoop result (sv.takeWhile fun b => IsDigit b) := by
  induction sv generalizing result with
  | nil => rfl
  | cons c sv ih =>
    by_cases hc : IsDigit c
    · rw [List.takeWhile_cons_of_pos (by simpa using hc), parseIntLoop, parseIntLoop, if_pos hc,
        if_pos hc, ih]
    · rw [List.takeWhile_cons_of_neg (by simpa using hc), parseIntLoop, parseIntLoop, if_neg hc]

lemma parseIntLoop_eq (sv : Bytes) : parseIntLoop 0 sv = toInt32 (leadingNumber sv) := by
  rw [parseIntLoop_takeWhile]
  refine parseIntLoop_digits (fun b hb => ?_) 0
  have hdigit := List.mem_takeWhile_imp hb
  exact of_decide_eq_true hdigit

/-- The accumulation stays in range if and only if its last value does. -/
lemma sums_isInt_iff (acc : ℕ) (hacc : acc < 2 ^ 31) (sv : Bytes) :
    (∀ v ∈ sums acc sv, IsInt v) ↔ ofDigits acc (sv.takeWhile fun b => IsDigit b) < 2 ^ 31 := by
  induction sv generalizing acc with
  | nil => simpa [sums, ofDigits] using hacc
  | cons c sv ih =>
    by_cases hc : IsDigit c
    · set next := acc * 10 + digitValue c with hnext
      have hsum : (acc : ℤ) * 10 + digitValue c = next := by
        rw [hnext]
        push_cast
        rfl
      rw [sums, if_pos hc, List.takeWhile_cons_of_pos (by simpa using hc), ofDigits_cons, ← hnext,
        hsum]
      simp only [List.forall_mem_cons]
      by_cases hlt : next < 2 ^ 31
      · have hint : IsInt next := ⟨by omega, by exact_mod_cast hlt⟩
        rw [toInt32_of_lt hint.1 hint.2, ih next hlt]
        exact and_iff_right hint
      · have hle := le_ofDigits next (sv.takeWhile fun b => IsDigit b)
        refine iff_of_false ?_ (by omega)
        rintro ⟨⟨-, h⟩, -⟩
        omega
    · rw [sums, if_neg hc, List.takeWhile_cons_of_neg (by simpa using hc)]
      simpa [ofDigits] using hacc

/-! ## Tags as written -/

/-- The text consists exactly of digits that denote the number. -/
def Denotes (t : Bytes) (n : ℤ) : Prop := t ≠ [] ∧ (∀ b ∈ t, IsDigit b) ∧ (ofDigits 0 t : ℤ) = n

/-- The tag text is dispatched to a case label only if it denotes it, and reading it does not leave
the range of `int`. -/
structure ReadsTag (t : Bytes) : Prop where
  dispatch : ∀ n ∈ caseLabels, parseInt t = n → Denotes t n
  inRange : ∀ v ∈ sums 0 (unsigned t), IsInt v

/-- The digits stay below `2^31`; behind those of a case label, without a sign, nothing follows. -/
structure CleanTag (t : Bytes) : Prop where
  small : leadingNumber (unsigned t) < 2 ^ 31
  complete : t.head? ≠ some 45 → (leadingNumber t : ℤ) ∈ caseLabels → ∀ b ∈ t, IsDigit b

lemma parseInt_signed {rest : Bytes} (hsmall : leadingNumber rest < 2 ^ 31) :
    parseInt (45 :: rest) = -leadingNumber rest := by
  rw [parseInt, parseIntLoop_eq, toInt32_of_lt (i := leadingNumber rest) (by omega)
    (by exact_mod_cast hsmall), toInt32_of_lt (by omega) (by omega)]

lemma unsigned_of_head {t : Bytes} (h : t.head? ≠ some 45) : unsigned t = t := by
  unfold unsigned
  split
  · exact absurd rfl h
  · rfl

lemma parseInt_unsigned {t : Bytes} (h : t.head? ≠ some 45) : parseInt t = parseIntLoop 0 t := by
  unfold parseInt
  split
  · exact absurd rfl h
  · rfl

lemma denotes_iff {t : Bytes} {n : ℤ} (hn : (leadingNumber t : ℤ) = n) (h0 : n ≠ 0) :
    Denotes t n ↔ ∀ b ∈ t, IsDigit b := by
  refine ⟨fun h => h.2.1, fun h => ⟨?_, h, ?_⟩⟩
  · rintro rfl
    exact h0 hn.symm
  · rw [← hn, leadingNumber, List.takeWhile_eq_self_iff.mpr fun b hb => decide_eq_true (h b hb)]

lemma readsTag_iff (t : Bytes) : ReadsTag t ↔ CleanTag t := by
  have hrange : (∀ v ∈ sums 0 (unsigned t), IsInt v) ↔ leadingNumber (unsigned t) < 2 ^ 31 :=
    sums_isInt_iff 0 (by norm_num) (unsigned t)
  have hpos : ∀ n ∈ caseLabels, 0 < n := by decide
  suffices hdispatch : leadingNumber (unsigned t) < 2 ^ 31 →
      ((∀ n ∈ caseLabels, parseInt t = n → Denotes t n) ↔
        (t.head? ≠ some 45 → (leadingNumber t : ℤ) ∈ caseLabels → ∀ b ∈ t, IsDigit b)) from
    ⟨fun h => ⟨hrange.mp h.inRange, (hdispatch (hrange.mp h.inRange)).mp h.dispatch⟩,
      fun h => ⟨(hdispatch h.small).mpr h.complete, hrange.mpr h.small⟩⟩
  intro hsmall
  by_cases hsign : t.head? = some 45
  · -- a sign makes the number no case label
    obtain ⟨rest, rfl⟩ : ∃ rest, t = 45 :: rest := List.head?_eq_some_iff.mp hsign
    refine iff_of_true ?_ fun h => absurd hsign h
    intro n hn htag
    have hneg : parseInt (45 :: rest) = -leadingNumber rest := parseInt_signed hsmall
    have := hpos n hn
    omega
  · rw [unsigned_of_head hsign] at hsmall
    have htag : parseInt t = leadingNumber t := by
      rw [parseInt_unsigned hsign, parseIntLoop_eq, toInt32_of_lt (by omega)
        (by exact_mod_cast hsmall)]
    rw [htag]
    constructor
    · intro h _ hn
      exact (denotes_iff rfl (hpos _ hn).ne').mp (h _ hn rfl)
    · intro h n hn heq
      rw [denotes_iff heq (hpos n hn).ne']
      exact h hsign (heq ▸ hn)

/-- **Tags as written.**  `parse` goes through the fields of `textFields`, their tags read as
numbers, and acts on the case labels only.  For every message, it acts on each of these fields as
the tag that the text before `=` denotes, without leaving the range of `int`, if and only if all
its tag texts are clean. -/
theorem tags_as_written_iff (msg : Bytes) :
    ((∀ f ∈ textFields msg, ReadsTag f.1) ↔ ∀ f ∈ textFields msg, CleanTag f.1) ∧
      (fields msg = (textFields msg).map fun f => (parseInt f.1, f.2)) ∧
      ∀ (r : Rounding) (tag : ℤ) (value : Bytes) (s : State),
        tag ∈ caseLabels ∨ onField r tag value s = s :=
  ⟨forall₂_congr fun f _ => readsTag_iff f.1, fields_eq_map msg, fun r _ value s =>
    or_iff_not_imp_left.mpr fun htag => onField_default r htag value s⟩

/-- Letters behind the tag, and a number that wraps to it. -/
theorem long_tags_are_read :
    (parse .exact (bytes "35abc=W")).2.msgType = .marketDataSnapshot ∧
      (parse .exact (bytes "4294967331=W")).2.msgType = .marketDataSnapshot ∧
      (¬ ∀ f ∈ textFields (bytes "35abc=W"), ReadsTag f.1) ∧
      ¬ ∀ f ∈ textFields (bytes "4294967331=W"), ReadsTag f.1 := by
  have htext : textFields (bytes "35abc=W") = [(bytes "35abc", bytes "W")] := by decide
  have htext' : textFields (bytes "4294967331=W") = [(bytes "4294967331", bytes "W")] := by decide
  refine ⟨by decide +kernel, by decide +kernel, ?_, ?_⟩
  · intro h
    have hread := h _ (by rw [htext]; exact List.mem_singleton_self _)
    obtain ⟨-, hdigits, -⟩ := hread.dispatch 35 (by decide) (by decide)
    exact absurd (hdigits 97 (by decide)) (by decide)
  · intro h
    have hread := h _ (by rw [htext']; exact List.mem_singleton_self _)
    obtain ⟨-, -, hvalue⟩ := hread.dispatch 35 (by decide) (by decide)
    exact absurd hvalue (by decide)

end TickPlant.FIXParser
