/-
# JSON texts

The grammar of RFC 8259 over byte strings, in two parts.  The contents of a string are
described by a small automaton (`StrState`), which also checks the UTF-8 encoding; the rest of
the grammar is the inductive predicate `IsJson`, with insignificant white space wherever it
is allowed.

A program that prints JSON has a document in mind: a tree `Json` whose strings are the bytes
put between the quotes.  `isJson_render` says when its compact text is well-formed.  For the
converse there is a coarse scanner, `scan`, that follows the strings of a text, checks what comes
right after them, and outside of them knows the letters that no number and no literal has; every
well-formed text passes it (`IsJson.scan`), so a text that does not is not well-formed.  In
particular it stops at `inf` and `nan`, which `printf` writes for a double that is not finite.
-/
import TickPlant.Lib.Decimal

namespace TickPlant.Lib

/-! ## Strings -/

/-- The states of the automaton for the contents of a string. -/
inductive StrState
  /-- Between two characters. -/
  | clean
  /-- After a backslash. -/
  | escape
  /-- Inside `\uXXXX`, with `owed + 1` hexadecimal digits to come. -/
  | hex (owed : ℕ)
  /-- Inside a UTF-8 sequence: a byte between `low` and `high`, then `owed` more. -/
  | cont (low high : UInt8) (owed : ℕ)
deriving DecidableEq

/-- A hexadecimal digit. -/
def isHex (b : UInt8) : Bool :=
  (48 ≤ b && b ≤ 57) || (65 ≤ b && b ≤ 70) || (97 ≤ b && b ≤ 102)

/-- The first byte of a character. -/
def strStart (b : UInt8) : Option StrState :=
  if b = 92 then some .escape
  else if b < 32 ∨ b = 34 then none
  else if b < 128 then some .clean
  else if 0xC2 ≤ b ∧ b ≤ 0xDF then some (.cont 0x80 0xBF 0)
  else if b = 0xE0 then some (.cont 0xA0 0xBF 1)
  else if b = 0xED then some (.cont 0x80 0x9F 1)
  else if 0xE1 ≤ b ∧ b ≤ 0xEF then some (.cont 0x80 0xBF 1)
  else if b = 0xF0 then some (.cont 0x90 0xBF 2)
  else if 0xF1 ≤ b ∧ b ≤ 0xF3 then some (.cont 0x80 0xBF 2)
  else if b = 0xF4 then some (.cont 0x80 0x8F 2)
  else none

/-- One byte of the contents of a string. -/
def strStep : StrState → UInt8 → Option StrState
  | .clean, b => strStart b
  | .escape, b =>
    if b ∈ ([34, 92, 47, 98, 102, 110, 114, 116] : List UInt8) then some .clean
    else if b = 117 then some (.hex 3)
    else none
  | .hex 0, b => if isHex b then some .clean else none
  | .hex (owed + 1), b => if isHex b then some (.hex owed) else none
  | .cont low high 0, b => if low ≤ b ∧ b ≤ high then some .clean else none
  | .cont low high (owed + 1), b =>
    if low ≤ b ∧ b ≤ high then some (.cont 0x80 0xBF owed) else none

/-- The automaton over a text. -/
def strRun (q : StrState) (s : List UInt8) : Option StrState := s.foldlM strStep q

/-- The contents of a JSON string. -/
def StringBody (s : List UInt8) : Prop := strRun .clean s = some .clean

instance : DecidablePred StringBody := fun _ => inferInstanceAs (Decidable (_ = _))

lemma strRun_append (q : StrState) (s t : List UInt8) :
    strRun q (s ++ t) = (strRun q s).bind fun q' => strRun q' t := List.foldlM_append

lemma strRun_cons (q : StrState) (b : UInt8) (s : List UInt8) :
    strRun q (b :: s) = (strStep q b).bind fun q' => strRun q' s := List.foldlM_cons

/-- After a well-formed beginning, the rest decides. -/
lemma stringBody_append_iff {s t : List UInt8} (hs : StringBody s) :
    StringBody (s ++ t) ↔ StringBody t := by
  rw [StringBody, strRun_append, hs]
  rfl

/-- A byte that stands for itself in a string. -/
def IsPlain (b : UInt8) : Prop := 32 ≤ b ∧ b < 128 ∧ b ≠ 34 ∧ b ≠ 92

instance : DecidablePred IsPlain := fun _ => inferInstanceAs (Decidable (_ ∧ _ ∧ _ ∧ _))

lemma IsPlain.strStart {b : UInt8} (h : IsPlain b) : strStart b = some .clean := by
  obtain ⟨hlow, hhigh, hquote, hslash⟩ := h
  rw [Lib.strStart, if_neg hslash, if_neg (by rw [not_or]; exact ⟨UInt8.not_lt.mpr hlow, hquote⟩),
    if_pos hhigh]

lemma stringBody_of_plain {s : List UInt8} (h : ∀ b ∈ s, IsPlain b) : StringBody s := by
  induction s with
  | nil => rfl
  | cons b s ih =>
    rw [StringBody, strRun_cons, show strStep .clean b = strStart b from rfl,
      (h b List.mem_cons_self).strStart]
    exact ih fun c hc => h c (List.mem_cons_of_mem _ hc)

/-- The contents of a string that stand for themselves: nothing in them is an escape. -/
def Verbatim (s : List UInt8) : Prop := StringBody s ∧ s.all (fun b => b ≠ 92) = true

instance : DecidablePred Verbatim := fun _ => inferInstanceAs (Decidable (_ ∧ _))

lemma verbatim_of_plain {s : List UInt8} (h : ∀ b ∈ s, IsPlain b) : Verbatim s := by
  refine ⟨stringBody_of_plain h, List.all_eq_true.mpr ?_⟩
  intro b hb
  simpa using (h b hb).2.2.2

/-- The continuation bytes of the automaton are above the ASCII range. -/
def StrState.Sane : StrState → Prop
  | .cont low _ _ => 0x80 ≤ low
  | _ => True

lemma strStart_sane {b : UInt8} {q : StrState} (h : strStart b = some q) : q.Sane := by
  rw [strStart] at h
  -- one case for each kind of first byte
  repeat' split at h
  all_goals cases h <;> simp [StrState.Sane]

lemma strStep_sane {q q' : StrState} {b : UInt8} (h : strStep q b = some q') : q'.Sane := by
  cases q with
  | clean => exact strStart_sane h
  | escape =>
    rw [strStep] at h
    split at h
    · cases h; exact trivial
    · split at h
      · cases h; exact trivial
      · cases h
  | hex owed =>
    cases owed with
    | zero =>
      rw [strStep] at h
      split at h
      · cases h; exact trivial
      · cases h
    | succ owed =>
      rw [strStep] at h
      split at h
      · cases h; exact trivial
      · cases h
  | cont low high owed =>
    cases owed with
    | zero =>
      rw [strStep] at h
      split at h
      · cases h; exact trivial
      · cases h
    | succ owed =>
      rw [strStep] at h
      split at h
      · cases h; exact (by decide : (0x80 : UInt8) ≤ 0x80)
      · cases h

lemma strRun_sane {q q' : StrState} {s : List UInt8} (hq : q.Sane) (h : strRun q s = some q') :
    q'.Sane := by
  induction s generalizing q with
  | nil =>
    obtain rfl : q = q' := Option.some.inj h
    exact hq
  | cons b s ih =>
    rw [strRun_cons] at h
    obtain ⟨q₁, hstep, hrest⟩ := Option.bind_eq_some_iff.mp h
    exact ih (strStep_sane hstep) hrest

/-- Inside a character only hexadecimal digits and continuation bytes are accepted. -/
lemma strStep_none {q : StrState} (hq : q.Sane) (hclean : q ≠ .clean) (hescape : q ≠ .escape)
    {b : UInt8} (hb : b < 0x80) (hhex : isHex b = false) : strStep q b = none := by
  cases q with
  | clean => exact absurd rfl hclean
  | escape => exact absurd rfl hescape
  | hex owed => cases owed <;> simp [strStep, hhex]
  | cont low high owed =>
    have hlow : ¬ low ≤ b := UInt8.not_le.mpr (UInt8.lt_of_lt_of_le hb hq)
    cases owed <;> simp [strStep, hlow]

/-- A control character is not accepted anywhere. -/
lemma strStep_control {q : StrState} (hq : q.Sane) {b : UInt8} (hb : b < 32) :
    strStep q b = none := by
  by_cases hclean : q = .clean
  · subst hclean
    have hne : b ≠ 92 := by rintro rfl; exact absurd hb (by decide)
    rw [strStep, strStart, if_neg hne, if_pos (Or.inl hb)]
  by_cases hescape : q = .escape
  · subst hescape
    have hmem : b ∉ ([34, 92, 47, 98, 102, 110, 114, 116] : List UInt8) := by
      intro hmem
      fin_cases hmem <;> exact absurd hb (by decide)
    have hne : b ≠ 117 := by rintro rfl; exact absurd hb (by decide)
    rw [strStep, if_neg hmem, if_neg hne]
  · have hascii : b < 0x80 := UInt8.lt_trans hb (by decide)
    refine strStep_none hq hclean hescape hascii ?_
    have h48 : ¬ (48 : UInt8) ≤ b := UInt8.not_le.mpr (UInt8.lt_trans hb (by decide))
    have h65 : ¬ (65 : UInt8) ≤ b := UInt8.not_le.mpr (UInt8.lt_trans hb (by decide))
    have h97 : ¬ (97 : UInt8) ≤ b := UInt8.not_le.mpr (UInt8.lt_trans hb (by decide))
    simp [isHex, h48, h65, h97]

lemma strRun_no_control {q q' : StrState} {s : List UInt8} (hq : q.Sane)
    (h : strRun q s = some q') {b : UInt8} (hb : b < 32) : b ∉ s := by
  induction s generalizing q with
  | nil => exact List.not_mem_nil
  | cons c s ih =>
    rw [strRun_cons] at h
    obtain ⟨q₁, hstep, hrest⟩ := Option.bind_eq_some_iff.mp h
    rw [List.mem_cons, not_or]
    refine ⟨?_, ih (strStep_sane hstep) hrest⟩
    rintro rfl
    rw [strStep_control hq hb] at hstep
    cases hstep

/-- The contents of a string have no control characters. -/
lemma StringBody.no_control {s : List UInt8} (h : StringBody s) {b : UInt8} (hb : b < 32) :
    b ∉ s :=
  strRun_no_control (show StrState.clean.Sane from trivial) h hb

/-! ## Numbers -/

/-- A non-empty sequence of digits. -/
def Digits (ds : List UInt8) : Prop := ds ≠ [] ∧ ∀ b ∈ ds, IsDigit b

/-- A number: an integer part without superfluous zeros, a fraction and an exponent. -/
inductive IsNumber : List UInt8 → Prop
  | mk {sign int frac exp : List UInt8} (hsign : sign = [] ∨ sign = [45]) (hint : Digits int)
      (hzero : int = [48] ∨ int.head? ≠ some 48)
      (hfrac : frac = [] ∨ ∃ ds, Digits ds ∧ frac = 46 :: ds)
      (hexp : exp = [] ∨ ∃ e s ds, (e = 101 ∨ e = 69) ∧ (s = [] ∨ s = [43] ∨ s = [45]) ∧
        Digits ds ∧ exp = e :: (s ++ ds)) :
      IsNumber (sign ++ int ++ frac ++ exp)

/-- The bytes of a number. -/
lemma IsNumber.mem {t : List UInt8} (h : IsNumber t) {b : UInt8} (hb : b ∈ t) :
    IsDigit b ∨ b ∈ ([43, 45, 46, 69, 101] : List UInt8) := by
  cases h with
  | mk hsign hint hzero hfrac hexp =>
    simp only [List.mem_append] at hb
    rcases hb with ((hb | hb) | hb) | hb
    · rcases hsign with rfl | rfl
      · exact absurd hb List.not_mem_nil
      · rw [List.mem_singleton.mp hb]
        decide
    · exact Or.inl (hint.2 b hb)
    · rcases hfrac with rfl | ⟨ds, hds, rfl⟩
      · exact absurd hb List.not_mem_nil
      · rcases List.mem_cons.mp hb with rfl | hb
        · decide
        · exact Or.inl (hds.2 b hb)
    · rcases hexp with rfl | ⟨e, s, ds, he, hs, hds, rfl⟩
      · exact absurd hb List.not_mem_nil
      · rcases List.mem_cons.mp hb with rfl | hb
        · rcases he with rfl | rfl <;> decide
        · rcases List.mem_append.mp hb with hb | hb
          · rcases hs with rfl | rfl | rfl
            · exact absurd hb List.not_mem_nil
            · rw [List.mem_singleton.mp hb]
              decide
            · rw [List.mem_singleton.mp hb]
              decide
          · exact Or.inl (hds.2 b hb)

lemma IsNumber.not_mem {t : List UInt8} (h : IsNumber t) {b : UInt8}
    (hb : ¬ (IsDigit b ∨ b ∈ ([43, 45, 46, 69, 101] : List UInt8))) : b ∉ t :=
  fun hmem => hb (h.mem hmem)

/-- The decimal text of a number has no superfluous zeros at its beginning. -/
lemma decimal_grammar (n : ℕ) :
    Digits (decimal n) ∧ (decimal n = [48] ∨ (decimal n).head? ≠ some 48) := by
  refine ⟨⟨decimal_ne_nil n, decimal_isDigit n⟩, ?_⟩
  by_cases hn : n = 0
  · left
    rw [hn, decimal_of_lt (by norm_num)]
    rfl
  · right
    obtain ⟨b, rest, hb, hne⟩ := decimal_head hn
    rw [hb]
    simpa using hne

lemma isNumber_decimal (n : ℕ) : IsNumber (decimal n) := by
  obtain ⟨hdigits, hzero⟩ := decimal_grammar n
  have := IsNumber.mk (Or.inl rfl) hdigits hzero (Or.inl rfl) (Or.inl rfl)
  simpa using this

/-! ## Texts -/

/-- Insignificant white space. -/
def Blank (w : List UInt8) : Prop := ∀ b ∈ w, b = 32 ∨ b = 9 ∨ b = 10 ∨ b = 13

/-- Texts separated by commas. -/
def commaJoin : List (List UInt8) → List UInt8
  | [] => []
  | [t] => t
  | t :: u :: rest => t ++ 44 :: commaJoin (u :: rest)

lemma commaJoin_starts (t : List UInt8) (rest : List (List UInt8)) :
    ∃ u, commaJoin (t :: rest) = t ++ u := by
  cases rest with
  | nil => exact ⟨[], (List.append_nil t).symm⟩
  | cons u rest => exact ⟨44 :: commaJoin (u :: rest), rfl⟩

/-- A text between double quotes. -/
def quote (s : List UInt8) : List UInt8 := 34 :: (s ++ [34])

/-- One member of an object: the key, with white space around it, and the text of the
value. -/
structure Member where
  before : List UInt8
  key : List UInt8
  after : List UInt8
  value : List UInt8

/-- The text of a member. -/
def Member.text (m : Member) : List UInt8 := m.before ++ quote m.key ++ m.after ++ 58 :: m.value

/-- The well-formed JSON texts. -/
inductive IsJson : List UInt8 → Prop
  | null : IsJson [110, 117, 108, 108]
  | true : IsJson [116, 114, 117, 101]
  | false : IsJson [102, 97, 108, 115, 101]
  | number {t : List UInt8} (h : IsNumber t) : IsJson t
  | string {s : List UInt8} (h : StringBody s) : IsJson (quote s)
  | emptyArray {w : List UInt8} (h : Blank w) : IsJson (91 :: (w ++ [93]))
  | array {items : List (List UInt8)} (hne : items ≠ []) (h : ∀ t ∈ items, IsJson t) :
      IsJson (91 :: (commaJoin items ++ [93]))
  | emptyObject {w : List UInt8} (h : Blank w) : IsJson (123 :: (w ++ [125]))
  | object {members : List Member} (hne : members ≠ [])
      (hkeys : ∀ m ∈ members, Blank m.before ∧ StringBody m.key ∧ Blank m.after)
      (h : ∀ m ∈ members, IsJson m.value) :
      IsJson (123 :: (commaJoin (members.map Member.text) ++ [125]))
  | pad {w t w' : List UInt8} (hw : Blank w) (h : IsJson t) (hw' : Blank w') :
      IsJson (w ++ t ++ w')

/-! ## Documents -/

/-- A document: numbers and literals by their text, strings by the bytes between the
quotes. -/
inductive Json
  | atom (text : List UInt8)
  | str (s : List UInt8)
  | arr (items : List Json)
  | obj (members : List (List UInt8 × Json))

namespace Json

mutual

/-- The compact text of a document. -/
def render : Json → List UInt8
  | atom text => text
  | str s => quote s
  | arr items => 91 :: (commaJoin (renderItems items) ++ [93])
  | obj members => 123 :: (commaJoin (renderMembers members) ++ [125])

/-- The texts of the items of an array. -/
def renderItems : List Json → List (List UInt8)
  | [] => []
  | j :: js => render j :: renderItems js

/-- The texts of the members of an object. -/
def renderMembers : List (List UInt8 × Json) → List (List UInt8)
  | [] => []
  | (k, j) :: ms => (quote k ++ 58 :: render j) :: renderMembers ms

end

section All

variable (P Q : List UInt8 → Prop)

mutual

/-- Every key and every string satisfies `P`, every atom satisfies `Q`. -/
def All : Json → Prop
  | atom text => Q text
  | str s => P s
  | arr items => AllItems items
  | obj members => AllMembers members

/-- `All` for every item. -/
def AllItems : List Json → Prop
  | [] => True
  | j :: js => All j ∧ AllItems js

/-- `All` for every key and value. -/
def AllMembers : List (List UInt8 × Json) → Prop
  | [] => True
  | (k, j) :: ms => P k ∧ All j ∧ AllMembers ms

end

end All

/-- The text of a number or of a literal. -/
def IsAtom (text : List UInt8) : Prop :=
  IsNumber text ∨ text = [116, 114, 117, 101] ∨ text = [102, 97, 108, 115, 101] ∨
    text = [110, 117, 108, 108]

/-- The keys and strings are contents of strings and the atoms are numbers or literals. -/
def Good (j : Json) : Prop := j.All StringBody IsAtom

mutual

/-- Every object has pairwise distinct keys. -/
def DistinctKeys : Json → Prop
  | atom _ => True
  | str _ => True
  | arr items => DistinctKeysItems items
  | obj members => (members.map Prod.fst).Nodup ∧ DistinctKeysMembers members

/-- `DistinctKeys` for every item. -/
def DistinctKeysItems : List Json → Prop
  | [] => True
  | j :: js => DistinctKeys j ∧ DistinctKeysItems js

/-- `DistinctKeys` for every value. -/
def DistinctKeysMembers : List (List UInt8 × Json) → Prop
  | [] => True
  | (_, j) :: ms => DistinctKeys j ∧ DistinctKeysMembers ms

end

lemma renderItems_eq (js : List Json) : renderItems js = js.map render := by
  induction js with
  | nil => rfl
  | cons j js ih => rw [renderItems, ih, List.map_cons]

lemma renderMembers_eq (ms : List (List UInt8 × Json)) :
    renderMembers ms = ms.map fun m => quote m.1 ++ 58 :: m.2.render := by
  induction ms with
  | nil => rfl
  | cons m ms ih => rw [renderMembers, ih, List.map_cons]

lemma allItems_iff {P Q : List UInt8 → Prop} {js : List Json} :
    AllItems P Q js ↔ ∀ j ∈ js, j.All P Q := by
  induction js with
  | nil => simp [AllItems]
  | cons j js ih => simp [AllItems, ih]

lemma allMembers_iff {P Q : List UInt8 → Prop} {ms : List (List UInt8 × Json)} :
    AllMembers P Q ms ↔ ∀ m ∈ ms, P m.1 ∧ m.2.All P Q := by
  induction ms with
  | nil => simp [AllMembers]
  | cons m ms ih => simp [AllMembers, ih, and_assoc]

lemma distinctKeysMembers_iff {ms : List (List UInt8 × Json)} :
    DistinctKeysMembers ms ↔ ∀ m ∈ ms, m.2.DistinctKeys := by
  induction ms with
  | nil => simp [DistinctKeysMembers]
  | cons m ms ih => simp [DistinctKeysMembers, ih]

lemma distinctKeysItems_iff {js : List Json} :
    DistinctKeysItems js ↔ ∀ j ∈ js, j.DistinctKeys := by
  induction js with
  | nil => simp [DistinctKeysItems]
  | cons j js ih => simp [DistinctKeysItems, ih]

/-- The value `v` stands in a document at a path of keys. -/
inductive Reads : Json → List (List UInt8) → Json → Prop
  | here (v : Json) : Reads v [] v
  | member {ms : List (List UInt8 × Json)} {k : List UInt8} {j v : Json}
      {path : List (List UInt8)} (hmem : (k, j) ∈ ms) (h : Reads j path v) :
      Reads (obj ms) (k :: path) v

/-- Where keys are distinct, at most one value stands at a path. -/
lemma Reads.unique {j v w : Json} {path : List (List UInt8)} (hj : j.DistinctKeys)
    (hv : Reads j path v) (hw : Reads j path w) : v = w := by
  induction hv with
  | here v =>
    cases hw
    rfl
  | @member ms k j v path hmem h ih =>
    cases hw with
    | @member _ _ j' _ _ hmem' h' =>
      obtain ⟨hnodup, hvalues⟩ := hj
      have hsame : j' = j :=
        congrArg Prod.snd (List.inj_on_of_nodup_map hnodup hmem' hmem rfl)
      rw [hsame] at h'
      exact ih (distinctKeysMembers_iff.mp hvalues _ hmem) h'

mutual

/-- The compact text of a good document is well-formed. -/
lemma isJson_render : ∀ j : Json, j.Good → IsJson j.render
  | atom text, h => by
    rw [render]
    rcases h with h | rfl | rfl | rfl
    · exact .number h
    · exact .true
    · exact .false
    · exact .null
  | str s, h => .string h
  | arr [], _ => .emptyArray (w := []) (by simp [Blank])
  | arr (j :: js), h => by
    rw [render]
    exact .array (by simp [renderItems]) (isJson_renderItems (j :: js) h)
  | obj [], _ => .emptyObject (w := []) (by simp [Blank])
  | obj (m :: ms), h => by
    have hall := allMembers_iff.mp h
    have hjson := isJson_renderMembers (m :: ms) h
    have htext : renderMembers (m :: ms) =
        ((m :: ms).map fun m => (⟨[], m.1, [], m.2.render⟩ : Member)).map Member.text := by
      rw [renderMembers_eq, List.map_map]
      refine List.map_congr_left fun x _ => ?_
      simp [Member.text]
    rw [render, htext]
    refine .object (by simp) ?_ ?_
    · intro x hx
      obtain ⟨y, hy, rfl⟩ := List.mem_map.mp hx
      exact ⟨by simp [Blank], (hall y hy).1, by simp [Blank]⟩
    · intro x hx
      obtain ⟨y, hy, rfl⟩ := List.mem_map.mp hx
      exact hjson y hy

lemma isJson_renderItems : ∀ js : List Json, AllItems StringBody IsAtom js →
    ∀ t ∈ renderItems js, IsJson t
  | [], _, t, ht => absurd ht (by simp [renderItems])
  | j :: js, h, t, ht => by
    rcases List.mem_cons.mp ht with rfl | ht
    · exact isJson_render j h.1
    · exact isJson_renderItems js h.2 t ht

lemma isJson_renderMembers : ∀ ms : List (List UInt8 × Json),
    AllMembers StringBody IsAtom ms → ∀ m ∈ ms, IsJson m.2.render
  | [], _, m, hm => absurd hm (by simp)
  | (k, j) :: ms, h, m, hm => by
    rcases List.mem_cons.mp hm with rfl | hm
    · exact isJson_render j h.2.1
    · exact isJson_renderMembers ms h.2.2 m hm

end

/-! ### The bytes of a document -/

/-- A byte that is not part of the punctuation. -/
def IsContent (b : UInt8) : Prop := b ∉ ([34, 44, 58, 91, 93, 123, 125] : List UInt8)

instance : DecidablePred IsContent := fun _ => inferInstanceAs (Decidable (¬ _))

lemma mem_commaJoin {b : UInt8} (hb : b ≠ 44) {ts : List (List UInt8)} :
    b ∈ commaJoin ts ↔ ∃ t ∈ ts, b ∈ t := by
  induction ts with
  | nil => simp [commaJoin]
  | cons t rest ih =>
    cases rest with
    | nil => simp [commaJoin]
    | cons u rest =>
      rw [commaJoin, List.mem_append, List.mem_cons, ih]
      simp [hb]

lemma mem_quote {b : UInt8} (hb : b ≠ 34) {s : List UInt8} : b ∈ quote s ↔ b ∈ s := by
  simp [quote, hb]

mutual

/-- A byte that is not punctuation comes from the keys, the strings and the atoms. -/
lemma not_mem_render {b : UInt8} (hb : IsContent b) :
    ∀ j : Json, b ∉ j.render ↔ j.All (b ∉ ·) (b ∉ ·)
  | atom text => Iff.rfl
  | str s => by
    have hne : b ≠ 34 := by rintro rfl; exact hb (by decide)
    rw [render, mem_quote hne, All]
  | arr items => by
    have hopen : b ≠ 91 := by rintro rfl; exact hb (by decide)
    have hclose : b ≠ 93 := by rintro rfl; exact hb (by decide)
    rw [All, ← not_mem_renderItems hb items]
    simp [render, hopen, hclose]
  | obj members => by
    have hopen : b ≠ 123 := by rintro rfl; exact hb (by decide)
    have hclose : b ≠ 125 := by rintro rfl; exact hb (by decide)
    rw [All, ← not_mem_renderMembers hb members]
    simp [render, hopen, hclose]

lemma not_mem_renderItems {b : UInt8} (hb : IsContent b) :
    ∀ js : List Json, b ∉ commaJoin (renderItems js) ↔ AllItems (b ∉ ·) (b ∉ ·) js
  | [] => by simp [renderItems, commaJoin, AllItems]
  | j :: js => by
    have hne : b ≠ 44 := by rintro rfl; exact hb (by decide)
    rw [AllItems, ← not_mem_render hb j, ← not_mem_renderItems hb js, renderItems,
      mem_commaJoin hne, mem_commaJoin hne]
    simp

lemma not_mem_renderMembers {b : UInt8} (hb : IsContent b) :
    ∀ ms : List (List UInt8 × Json),
      b ∉ commaJoin (renderMembers ms) ↔ AllMembers (b ∉ ·) (b ∉ ·) ms
  | [] => by simp [renderMembers, commaJoin, AllMembers]
  | (k, j) :: ms => by
    have hne : b ≠ 44 := by rintro rfl; exact hb (by decide)
    have hquote : b ≠ 34 := by rintro rfl; exact hb (by decide)
    have hcolon : b ≠ 58 := by rintro rfl; exact hb (by decide)
    rw [AllMembers, ← not_mem_render hb j, ← not_mem_renderMembers hb ms, renderMembers,
      mem_commaJoin hne, mem_commaJoin hne]
    simp [mem_quote hquote, hcolon, and_assoc]

end

end Json

/-! ## The scanner -/

/-- Where the scanner stands. -/
inductive ScanState
  /-- Outside a string. -/
  | out
  /-- After an `n` outside a string, which only `null` has. -/
  | nul
  /-- Inside a string. -/
  | str (q : StrState)
  /-- Right after a string. -/
  | after
deriving DecidableEq

/-- One byte of a text. -/
def scanStep : ScanState → UInt8 → Option ScanState
  | .out, b =>
    if b = 34 then some (.str .clean)
    else if b = 105 then none
    else if b = 110 then some .nul
    else some .out
  | .nul, b => if b = 117 then some .out else none
  | .str q, b => if q = .clean ∧ b = 34 then some .after else (strStep q b).map .str
  | .after, b => if b ∈ ([44, 58, 125, 93, 32, 9, 10, 13] : List UInt8) then some .out else none

/-- The scanner over a text. -/
def scanRun (q : ScanState) (t : List UInt8) : Option ScanState := t.foldlM scanStep q

lemma scanRun_append (q : ScanState) (s t : List UInt8) :
    scanRun q (s ++ t) = (scanRun q s).bind fun q' => scanRun q' t := List.foldlM_append

lemma scanRun_cons (q : ScanState) (b : UInt8) (t : List UInt8) :
    scanRun q (b :: t) = (scanStep q b).bind fun q' => scanRun q' t := List.foldlM_cons

/-- Outside strings the scanner accepts everything without a quote, an `i` and an `n`. -/
lemma scanRun_out {t : List UInt8} (h : ∀ b ∈ t, b ∉ ([34, 105, 110] : List UInt8)) :
    scanRun .out t = some .out := by
  induction t with
  | nil => rfl
  | cons b t ih =>
    obtain ⟨hb, ht⟩ := List.forall_mem_cons.mp h
    simp only [List.mem_cons, List.not_mem_nil, or_false, not_or] at hb
    rw [scanRun_cons, scanStep, if_neg hb.1, if_neg hb.2.1, if_neg hb.2.2]
    exact ih ht

lemma scanRun_number {t : List UInt8} (h : IsNumber t) : scanRun .out t = some .out := by
  have hbytes : ∀ b ∈ ([34, 105, 110] : List UInt8),
      ¬ (IsDigit b ∨ b ∈ ([43, 45, 46, 69, 101] : List UInt8)) := by decide +kernel
  exact scanRun_out fun b hb hmem => hbytes b hmem (h.mem hb)

lemma scanRun_blanks {w : List UInt8} (h : Blank w) : scanRun .out w = some .out := by
  refine scanRun_out fun b hb => ?_
  rcases h b hb with rfl | rfl | rfl | rfl <;> decide

/-- A byte that the automaton accepts does not end the string. -/
lemma scanStep_str {q q' : StrState} {b : UInt8} (h : strStep q b = some q') :
    scanStep (.str q) b = some (.str q') := by
  have hne : ¬ (q = .clean ∧ b = 34) := by
    rintro ⟨rfl, rfl⟩
    exact absurd h (by simp [strStep, strStart])
  rw [scanStep, if_neg hne, h]
  rfl

/-- Inside a string the scanner follows the automaton. -/
lemma scanRun_str {q q' : StrState} {s : List UInt8} (h : strRun q s = some q') :
    scanRun (.str q) s = some (.str q') := by
  induction s generalizing q with
  | nil =>
    obtain rfl : q = q' := Option.some.inj h
    rfl
  | cons b s ih =>
    rw [strRun_cons] at h
    obtain ⟨q₁, hstep, hrest⟩ := Option.bind_eq_some_iff.mp h
    rw [scanRun_cons, scanStep_str hstep]
    exact ih hrest

lemma scanRun_quote {s : List UInt8} (h : StringBody s) : scanRun .out (quote s) = some .after := by
  rw [quote, scanRun_cons, show scanStep .out 34 = some (.str .clean) from rfl, Option.bind_some,
    scanRun_append, scanRun_str h]
  rfl

/-- The scanner does not get through a string in which the automaton stops. -/
lemma scanRun_str_none {q : StrState} {s : List UInt8} (hquote : (34 : UInt8) ∉ s)
    (h : strRun q s = none) : scanRun (.str q) s = none := by
  induction s generalizing q with
  | nil => cases h
  | cons b s ih =>
    rw [List.mem_cons, not_or] at hquote
    rw [strRun_cons] at h
    cases hstep : strStep q b with
    | none =>
      rw [scanRun_cons, scanStep, if_neg fun hq => hquote.1 hq.2.symm, hstep]
      rfl
    | some q₁ =>
      rw [hstep] at h
      rw [scanRun_cons, scanStep_str hstep]
      exact ih hquote.2 h

/-- Where the bytes up to a quote are not the contents of a string, the scanner stops, or it
takes the quote for an escaped one. -/
lemma scanRun_str_bad {m : List UInt8} (hquote : (34 : UInt8) ∉ m) (hbad : ¬ StringBody m)
    (rest : List UInt8) :
    scanRun (.str .clean) (m ++ 34 :: rest) = none ∨
      scanRun (.str .clean) (m ++ 34 :: rest) = scanRun (.str .clean) rest := by
  cases hrun : strRun .clean m with
  | none =>
    left
    rw [scanRun_append, scanRun_str_none hquote hrun]
    rfl
  | some q =>
    have hclean : q ≠ .clean := by
      rintro rfl
      exact hbad hrun
    by_cases hescape : q = .escape
    · right
      rw [scanRun_append, scanRun_str hrun, hescape, Option.bind_some, scanRun_cons]
      rfl
    · left
      have hsane : q.Sane := strRun_sane (show StrState.clean.Sane from trivial) hrun
      have hnone : strStep q 34 = none :=
        strStep_none hsane hclean hescape (by decide) (by decide)
      have hstep : scanStep (.str q) 34 = none := by
        rw [scanStep, if_neg fun h => hclean h.1, hnone]
        rfl
      rw [scanRun_append, scanRun_str hrun, Option.bind_some, scanRun_cons, hstep]
      rfl

/-- The scanner has accepted a value. -/
def ScanState.Done (q : ScanState) : Prop := q = .out ∨ q = .after

/-- The scanner accepts the text of a value. -/
def Scans (t : List UInt8) : Prop := ∃ q : ScanState, q.Done ∧ scanRun .out t = some q

lemma scanRun_blank {q : ScanState} (hq : q.Done) {w : List UInt8} (hw : Blank w) :
    ∃ q' : ScanState, q'.Done ∧ scanRun q w = some q' := by
  induction w generalizing q with
  | nil => exact ⟨q, hq, rfl⟩
  | cons b w ih =>
    have hstep : scanStep q b = some .out := by
      rcases hq with rfl | rfl <;>
        rcases hw b List.mem_cons_self with rfl | rfl | rfl | rfl <;> rfl
    rw [scanRun_cons, hstep]
    exact ih (Or.inl rfl) fun c hc => hw c (List.mem_cons_of_mem _ hc)

/-- After a value the scanner accepts a separator or a closing bracket. -/
lemma scanStep_close {q : ScanState} (hq : q.Done) {b : UInt8}
    (hb : b = 44 ∨ b = 58 ∨ b = 125 ∨ b = 93) : scanStep q b = some .out := by
  rcases hq with rfl | rfl <;> rcases hb with rfl | rfl | rfl | rfl <;> rfl

lemma scanStep_open {b : UInt8} (hb : b = 91 ∨ b = 123) : scanStep .out b = some .out := by
  rcases hb with rfl | rfl <;> rfl

lemma scans_commaJoin {items : List (List UInt8)} (h : ∀ t ∈ items, Scans t) :
    Scans (commaJoin items) := by
  induction items with
  | nil => exact ⟨.out, Or.inl rfl, rfl⟩
  | cons t rest ih =>
    cases rest with
    | nil => exact h t List.mem_cons_self
    | cons u rest =>
      obtain ⟨q, hq, ht⟩ := h t List.mem_cons_self
      rw [commaJoin, Scans]
      simp only [scanRun_append, ht, Option.bind_some, scanRun_cons,
        scanStep_close hq (Or.inl rfl)]
      exact ih fun v hv => h v (List.mem_cons_of_mem _ hv)

/-- A bracketed text, if the scanner accepts what is between the brackets. -/
lemma scans_bracket {l r : UInt8} {t : List UInt8} (hl : l = 91 ∨ l = 123)
    (hr : r = 44 ∨ r = 58 ∨ r = 125 ∨ r = 93) (h : Scans t) : Scans (l :: (t ++ [r])) := by
  obtain ⟨q, hq, ht⟩ := h
  refine ⟨.out, Or.inl rfl, ?_⟩
  rw [scanRun_cons, scanStep_open hl, Option.bind_some, scanRun_append, ht, Option.bind_some,
    scanRun_cons, scanStep_close hq hr]
  rfl

/-- Every well-formed text passes the scanner. -/
lemma IsJson.scan {t : List UInt8} (h : IsJson t) : Scans t := by
  induction h with
  | null => exact ⟨.out, Or.inl rfl, rfl⟩
  | true => exact ⟨.out, Or.inl rfl, rfl⟩
  | false => exact ⟨.out, Or.inl rfl, rfl⟩
  | number h => exact ⟨.out, Or.inl rfl, scanRun_number h⟩
  | string h => exact ⟨.after, Or.inr rfl, scanRun_quote h⟩
  | emptyArray h => exact scans_bracket (by simp) (by simp) (scanRun_blank (Or.inl rfl) h)
  | array hne h ih => exact scans_bracket (by simp) (by simp) (scans_commaJoin ih)
  | emptyObject h => exact scans_bracket (by simp) (by simp) (scanRun_blank (Or.inl rfl) h)
  | object hne hkeys h ih =>
    refine scans_bracket (by simp) (by simp) (scans_commaJoin ?_)
    intro t ht
    obtain ⟨m, hm, rfl⟩ := List.mem_map.mp ht
    obtain ⟨hbefore, hkey, hafter⟩ := hkeys m hm
    obtain ⟨q, hq, hvalue⟩ := ih m hm
    obtain ⟨q', hq', hblank⟩ := scanRun_blank (q := .after) (Or.inr rfl) hafter
    refine ⟨q, hq, ?_⟩
    rw [Member.text, scanRun_append, scanRun_append, scanRun_append, scanRun_blanks hbefore,
      Option.bind_some, scanRun_quote hkey, Option.bind_some, hblank, Option.bind_some,
      scanRun_cons, scanStep_close hq' (by simp), Option.bind_some]
    exact hvalue
  | pad hw h hw' ih =>
    obtain ⟨q, hq, ht⟩ := ih
    obtain ⟨q', hq', hblank⟩ := scanRun_blank hq hw'
    refine ⟨q', hq', ?_⟩
    rw [scanRun_append, scanRun_append, scanRun_blanks hw, Option.bind_some, ht, Option.bind_some]
    exact hblank

/-! ## Texts of numbers that are not finite -/

/-- What `printf` writes for a double that is not finite. -/
def IsNonFinite (t : List UInt8) : Prop :=
  t ∈ ([[105, 110, 102], [45, 105, 110, 102], [110, 97, 110], [45, 110, 97, 110]] :
    List (List UInt8))

instance : DecidablePred IsNonFinite := fun _ => inferInstanceAs (Decidable (_ ∈ _))

lemma scanRun_nonFinite {t : List UInt8} (h : IsNonFinite t) : scanRun .out t = none := by
  rw [IsNonFinite] at h
  fin_cases h <;> rfl

/-- Such a text is no number. -/
lemma IsNonFinite.not_isNumber {t : List UInt8} (h : IsNonFinite t) : ¬ IsNumber t := by
  intro hnumber
  have hout := scanRun_number hnumber
  rw [scanRun_nonFinite h] at hout
  cases hout

lemma scanRun_left {q : ScanState} {s t : List UInt8} (h : scanRun q (s ++ t) ≠ none) :
    scanRun q s ≠ none := by
  intro hnone
  rw [scanRun_append, hnone] at h
  exact h rfl

namespace Json

/-- The strings of a document are contents of strings, and its atoms are numbers, literals or
texts of doubles that are not finite. -/
def Printed (j : Json) : Prop := j.All StringBody fun t => IsAtom t ∨ IsNonFinite t

/-- After a good document the scanner goes on. -/
lemma Good.scan_append {j : Json} (h : j.Good) {b : UInt8}
    (hb : b = 44 ∨ b = 58 ∨ b = 125 ∨ b = 93) (rest : List UInt8) :
    scanRun .out (j.render ++ b :: rest) = scanRun .out rest := by
  obtain ⟨q, hq, hscan⟩ := (isJson_render j h).scan
  rw [scanRun_append, hscan, Option.bind_some, scanRun_cons, scanStep_close hq hb, Option.bind_some]

/-- The scanner gets through a key. -/
lemma scanRun_key {k : List UInt8} (h : StringBody k) (rest : List UInt8) :
    scanRun .out (quote k ++ 58 :: rest) = scanRun .out rest := by
  rw [scanRun_append, scanRun_quote h, Option.bind_some, scanRun_cons]
  rfl

mutual

/-- A document through which the scanner gets has no atom that is not finite. -/
lemma good_of_scan : ∀ j : Json, j.Printed → scanRun .out j.render ≠ none → j.Good
  | atom text, h, hscan => h.resolve_right fun hatom => hscan (scanRun_nonFinite hatom)
  | str s, h, _ => h
  | arr items, h, hscan => by
    rw [render, scanRun_cons] at hscan
    exact goodItems_of_scan items h (scanRun_left hscan)
  | obj members, h, hscan => by
    rw [render, scanRun_cons] at hscan
    exact goodMembers_of_scan members h (scanRun_left hscan)

lemma goodItems_of_scan : ∀ js : List Json,
    AllItems StringBody (fun t => IsAtom t ∨ IsNonFinite t) js →
      scanRun .out (commaJoin (renderItems js)) ≠ none → AllItems StringBody IsAtom js
  | [], _, _ => trivial
  | [j], h, hscan => ⟨good_of_scan j h.1 hscan, trivial⟩
  | j :: k :: js, h, hscan => by
    have hj : j.Good := good_of_scan j h.1 (scanRun_left hscan)
    rw [renderItems, renderItems, commaJoin, hj.scan_append (Or.inl rfl)] at hscan
    exact ⟨hj, goodItems_of_scan (k :: js) h.2 hscan⟩

lemma goodMembers_of_scan : ∀ ms : List (List UInt8 × Json),
    AllMembers StringBody (fun t => IsAtom t ∨ IsNonFinite t) ms →
      scanRun .out (commaJoin (renderMembers ms)) ≠ none → AllMembers StringBody IsAtom ms
  | [], _, _ => trivial
  | [(k, j)], h, hscan => by
    rw [renderMembers, renderMembers, commaJoin, scanRun_key h.1] at hscan
    exact ⟨h.1, good_of_scan j h.2.1 hscan, trivial⟩
  | (k, j) :: m :: ms, h, hscan => by
    have htext : commaJoin (renderMembers ((k, j) :: m :: ms)) =
        quote k ++ 58 :: (j.render ++ 44 :: commaJoin (renderMembers (m :: ms))) := by
      rw [renderMembers, renderMembers, commaJoin, List.append_assoc, List.cons_append]
    rw [htext, scanRun_key h.1] at hscan
    have hj : j.Good := good_of_scan j h.2.1 (scanRun_left hscan)
    rw [hj.scan_append (Or.inl rfl)] at hscan
    exact ⟨h.1, hj, goodMembers_of_scan (m :: ms) h.2.2 hscan⟩

end

/-- A document whose strings are contents of strings has a well-formed text exactly if its
atoms are finite. -/
lemma isJson_render_iff {j : Json} (h : j.Printed) : IsJson j.render ↔ j.Good := by
  constructor
  · intro hjson
    obtain ⟨q, -, hscan⟩ := hjson.scan
    exact good_of_scan j h (by rw [hscan]; exact Option.some_ne_none q)
  · exact isJson_render j

end Json

end TickPlant.Lib
