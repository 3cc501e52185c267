/-
# What the JSON library reads

The library that reads the replies is not part of the repository.  What is relied on is that it
reads a well-formed text to the value that the text denotes: `JsonValue.ofDoc` is this value
for a document whose strings have no escapes, and `ReadsDoc parse j` says that `parse` returns
it for the compact text of `j`.

A number without a fraction and an exponent is an integer, unsigned if it has no sign, as long
as it fits the 64-bit type; every other number is floating-point, and is taken to be read
exactly.
-/
import TickPlant.Lib.Number
import TickPlant.Report.Echoes
import TickPlant.Report.Sources

namespace TickPlant

open Lib

namespace JsonValue

/-! ## Values of documents -/

/-- The text has no fraction and no exponent. -/
def IsIntText (t : Bytes) : Bool := t.all fun b => b ≠ 46 && b ≠ 101 && b ≠ 69

/-- The value of an integer that fits one of the 64-bit types. -/
def ofInt : Bytes → Option JsonValue
  | 45 :: ds => if ofDigits 0 ds ≤ 2 ^ 63 then some (integer (-ofDigits 0 ds)) else none
  | ds => if ofDigits 0 ds < 2 ^ 64 then some (unsigned (ofDigits 0 ds)) else none

/-- The value of a number. -/
def ofNumber (t : Bytes) : JsonValue :=
  if IsIntText t then (ofInt t).getD (float (numberValue t)) else float (numberValue t)

/-- The value of a number or a literal. -/
def ofAtom (t : Bytes) : JsonValue :=
  if t = bytes "true" then boolean true
  else if t = bytes "false" then boolean false
  else if t = bytes "null" then null
  else ofNumber t

mutual

/-- The value of a document whose strings have no escapes. -/
def ofDoc : Json → JsonValue
  | .atom text => ofAtom text
  | .str s => string s
  | .arr items => array (ofItems items)
  | .obj members => object (ofMembers members)

/-- The values of the items of an array. -/
def ofItems : List Json → List JsonValue
  | [] => []
  | j :: js => ofDoc j :: ofItems js

/-- The values of the members of an object. -/
def ofMembers : List (Bytes × Json) → List (Bytes × JsonValue)
  | [] => []
  | (k, j) :: ms => (k, ofDoc j) :: ofMembers ms

end

lemma ofItems_eq (js : List Json) : ofItems js = js.map ofDoc := by
  induction js with
  | nil => rfl
  | cons j js ih => rw [ofItems, ih, List.map_cons]

end JsonValue

/-- The library reads the compact text of the document, if its keys are distinct and no string of
it has an escape. -/
def ReadsDoc (parse : Bytes → Option JsonValue) (j : Json) : Prop :=
  j.All Verbatim Json.IsAtom → j.DistinctKeys → parse j.render = some (.ofDoc j)

lemma admits_verbatim : Admits Verbatim Json.IsAtom := ⟨fun _ h => h, fun _ h => h⟩

/-! ## Numbers -/

/-- A text that starts with a digit has no sign. -/
lemma ofInt_of_isDigit {t : Bytes} (h : ∀ b ∈ t, IsDigit b) :
    JsonValue.ofInt t =
      if ofDigits 0 t < 2 ^ 64 then some (.unsigned (ofDigits 0 t)) else none := by
  unfold JsonValue.ofInt
  split
  · exact absurd (h 45 List.mem_cons_self) (by decide)
  · rfl

lemma isIntText_of_isDigit {t : Bytes} (h : ∀ b ∈ t, IsDigit b) :
    JsonValue.IsIntText t = true := by
  rw [JsonValue.IsIntText, List.all_eq_true]
  intro b hb
  have hdigit := h b hb
  simp only [Bool.and_eq_true, decide_eq_true_eq]
  refine ⟨⟨?_, ?_⟩, ?_⟩ <;> rintro rfl <;> exact absurd hdigit (by decide)

/-- The value of a text of digits. -/
lemma numberValue_digits {t : Bytes} (h : ∀ b ∈ t, IsDigit b) :
    unsignedValue t = ofDigits 0 t := by
  have hds : ∀ b ∈ ([] : Bytes), IsDigit b := by simp
  have hexp : ∀ b ∈ ([] : Bytes).head?, IsExponentMark b = true := by simp
  have hparts := unsignedValue_parts h hds hexp
  simpa [pointed, exponentValue, ofDigits] using hparts

/-- As a floating-point number, a number has its value. -/
lemma getDouble_ofNumber {t : Bytes} (h : IsNumber t) :
    (JsonValue.ofNumber t).getDouble = some (numberValue t) := by
  rw [JsonValue.ofNumber]
  split
  · rename_i hint
    cases h with
    | @mk sign int frac exp hsign hdigits hzero hfrac hexp =>
      rw [JsonValue.IsIntText, List.all_eq_true] at hint
      have hfrac : frac = [] := by
        rcases hfrac with hfrac | ⟨ds, -, rfl⟩
        · exact hfrac
        · exact absurd (hint 46 (by simp)) (by decide)
      have hexp : exp = [] := by
        rcases hexp with hexp | ⟨e, s, ds, he, -, -, rfl⟩
        · exact hexp
        · have := hint e (by simp)
          rcases he with rfl | rfl <;> exact absurd this (by decide)
      subst hfrac hexp
      have hvalue := numberValue_digits hdigits.2
      simp only [List.append_nil]
      rcases hsign with rfl | rfl
      · have hnumber : numberValue int = ofDigits 0 int := by
          rw [numberValue_of_isDigit fun b hb => hdigits.2 b (List.mem_of_mem_head? hb), hvalue]
        rw [List.nil_append, ofInt_of_isDigit hdigits.2, hnumber]
        split <;> rfl
      · show ((JsonValue.ofInt (45 :: int)).getD _).getDouble = some (-unsignedValue int)
        rw [JsonValue.ofInt, hvalue]
        split
        · show some (((-(ofDigits 0 int : ℤ) : ℤ)) : ℚ) = _
          push_cast
          rfl
        · exact congrArg (fun v => some (-v)) hvalue
  · rfl

/-- A number is not a literal. -/
lemma ofAtom_of_isNumber {t : Bytes} (h : IsNumber t) :
    JsonValue.ofAtom t = .ofNumber t := by
  have hne : ∀ (s : Bytes) (b : UInt8), b ∈ s →
      ¬ (IsDigit b ∨ b ∈ ([43, 45, 46, 69, 101] : List UInt8)) → t ≠ s := by
    rintro s b hb hnot rfl
    exact h.not_mem hnot hb
  rw [JsonValue.ofAtom, if_neg (hne _ 116 (by decide) (by decide)),
    if_neg (hne _ 102 (by decide) (by decide)), if_neg (hne _ 110 (by decide) (by decide))]

/-- A natural number of 64 bits is read as what it is. -/
lemma ofAtom_toText {n : ℕ} (h : n < 2 ^ 64) : JsonValue.ofAtom (toText n) = .unsigned n := by
  have hdigits := decimal_isDigit n
  rw [toText_eq_decimal, ofAtom_of_isNumber (isNumber_decimal n), JsonValue.ofNumber,
    if_pos (isIntText_of_isDigit hdigits), ofInt_of_isDigit hdigits, ofDigits_decimal, if_pos h]
  rfl

end TickPlant
