/-
# Prefixes of JSON texts

A JSON object or array that has been cut short is not a JSON text any more: as long as the
last bracket is missing, the brackets do not balance.  `nest` counts the brackets outside of
strings.  In a well-formed text the count never falls below its value at the beginning and
comes back to it at the end (`Nested`), so inside an outer pair of brackets it stays above.
-/
import TickPlant.Lib.Json

namespace TickPlant.Lib

/-- The number of open brackets; inside a string, also whether a backslash came last. -/
structure Nest where
  depth : ℕ
  str : Option Bool
deriving DecidableEq

/-- One byte of a text. -/
def nestStep : Nest → UInt8 → Nest
  | ⟨d, none⟩, b =>
    if b = 34 then ⟨d, some false⟩
    else if b = 123 ∨ b = 91 then ⟨d + 1, none⟩
    else if b = 125 ∨ b = 93 then ⟨d - 1, none⟩
    else ⟨d, none⟩
  | ⟨d, some true⟩, _ => ⟨d, some false⟩
  | ⟨d, some false⟩, b =>
    if b = 34 then ⟨d, none⟩ else if b = 92 then ⟨d, some true⟩ else ⟨d, some false⟩

/-- The count over a text. -/
def nest (n : Nest) (t : List UInt8) : Nest := t.foldl nestStep n

lemma nest_append (n : Nest) (s t : List UInt8) : nest n (s ++ t) = nest (nest n s) t :=
  List.foldl_append

lemma nest_cons (n : Nest) (b : UInt8) (t : List UInt8) : nest n (b :: t) = nest (nestStep n b) t :=
  rfl

/-- The brackets of the text balance. -/
structure Nested (t : List UInt8) : Prop where
  above : ∀ d p, p <+: t → d ≤ (nest ⟨d, none⟩ p).depth
  back : ∀ d, nest ⟨d, none⟩ t = ⟨d, none⟩

/-- A prefix of `s ++ t` stops in `s` or in `t`. -/
lemma prefix_split {p s t : List UInt8} (h : p <+: s ++ t) :
    p <+: s ∨ ∃ u, p = s ++ u ∧ u <+: t := by
  by_cases hlen : p.length ≤ s.length
  · exact Or.inl (List.prefix_of_prefix_length_le h (List.prefix_append s t) hlen)
  · obtain ⟨u, rfl⟩ := List.prefix_of_prefix_length_le (List.prefix_append s t) h (by omega)
    exact Or.inr ⟨u, rfl, (List.prefix_append_right_inj s).mp h⟩

lemma nested_nil : Nested [] where
  above := by
    intro d p hp
    rw [List.prefix_nil.mp hp]
    exact le_refl d
  back := fun _ => rfl

lemma Nested.append {s t : List UInt8} (hs : Nested s) (ht : Nested t) : Nested (s ++ t) where
  above := by
    intro d p hp
    rcases prefix_split hp with hp | ⟨u, rfl, hu⟩
    · exact hs.above d p hp
    · rw [nest_append, hs.back]
      exact ht.above d u hu
  back := by
    intro d
    rw [nest_append, hs.back, ht.back]

/-- A byte that is neither a quote nor a bracket. -/
def IsFlat (b : UInt8) : Prop := b ∉ ([34, 91, 93, 123, 125] : List UInt8)

instance : DecidablePred IsFlat := fun _ => inferInstanceAs (Decidable (¬ _))

lemma nestStep_flat {b : UInt8} (h : IsFlat b) (d : ℕ) : nestStep ⟨d, none⟩ b = ⟨d, none⟩ := by
  simp only [IsFlat, List.mem_cons, List.not_mem_nil, or_false, not_or] at h
  obtain ⟨hquote, hopen, hclose, hbrace, hend⟩ := h
  simp [nestStep, hquote, hopen, hclose, hbrace, hend]

lemma nested_flat {t : List UInt8} (h : ∀ b ∈ t, IsFlat b) : Nested t := by
  have hback : ∀ {p : List UInt8}, (∀ b ∈ p, IsFlat b) → ∀ d, nest ⟨d, none⟩ p = ⟨d, none⟩ := by
    intro p hp d
    induction p with
    | nil => rfl
    | cons b p ih =>
      rw [nest_cons, nestStep_flat (hp b List.mem_cons_self)]
      exact ih fun c hc => hp c (List.mem_cons_of_mem b hc)
  refine ⟨?_, hback h⟩
  intro d p hp
  rw [hback fun b hb => h b (hp.subset hb)]

/-! ## Strings -/

/-- The automaton has just read a backslash. -/
def StrState.escaped (q : StrState) : Bool := q = .escape

/-- One byte inside a string. -/
lemma nestStep_str {q q' : StrState} {b : UInt8} (hq : q.Sane) (h : strStep q b = some q') (d : ℕ) :
    nestStep ⟨d, some q.escaped⟩ b = ⟨d, some q'.escaped⟩ := by
  by_cases hescape : q = .escape
  · subst hescape
    have hq' : q'.escaped = false := by
      simp only [strStep] at h
      split at h
      · cases h; rfl
      · split at h
        · cases h; rfl
        · cases h
    rw [hq']
    rfl
  have hfalse : q.escaped = false := decide_eq_false hescape
  by_cases hclean : q = .clean
  · subst hclean
    rw [hfalse]
    change strStart b = some q' at h
    rw [strStart] at h
    split at h
    · rename_i hb
      cases h
      subst hb
      rfl
    · rename_i hslash
      split at h
      · cases h
      · rename_i hother
        have hquote : b ≠ 34 := fun hb => hother (Or.inr hb)
        have hq' : q'.escaped = false := by
          repeat' split at h
          all_goals cases h <;> rfl
        simp [nestStep, hquote, hslash, hq']
  · -- inside a character
    have hquote : b ≠ 34 := by
      rintro rfl
      rw [strStep_none hq hclean hescape (by decide) (by decide)] at h
      cases h
    have hslash : b ≠ 92 := by
      rintro rfl
      rw [strStep_none hq hclean hescape (by decide) (by decide)] at h
      cases h
    have hq' : q'.escaped = false := by
      cases q with
      | clean => exact absurd rfl hclean
      | escape => exact absurd rfl hescape
      | hex owed =>
        cases owed <;> simp only [strStep] at h <;> split at h <;> cases h <;> rfl
      | cont low high owed =>
        cases owed <;> simp only [strStep] at h <;> split at h <;> cases h <;> rfl
    rw [hfalse, hq']
    simp [nestStep, hquote, hslash]

lemma nest_str {q q' : StrState} {s : List UInt8} (hq : q.Sane) (h : strRun q s = some q') (d : ℕ) :
    nest ⟨d, some q.escaped⟩ s = ⟨d, some q'.escaped⟩ := by
  induction s generalizing q with
  | nil =>
    obtain rfl : q = q' := Option.some.inj h
    rfl
  | cons b s ih =>
    rw [strRun_cons] at h
    obtain ⟨q₁, hstep, hrest⟩ := Option.bind_eq_some_iff.mp h
    rw [nest_cons, nestStep_str hq hstep]
    exact ih (strStep_sane hstep) hrest

lemma nested_quote {s : List UInt8} (h : StringBody s) : Nested (quote s) := by
  have hsane : StrState.clean.Sane := trivial
  have hin : ∀ {p}, p <+: s → ∀ d, ∃ esc, nest ⟨d, some false⟩ p = ⟨d, some esc⟩ := by
    rintro p ⟨u, rfl⟩ d
    rw [StringBody, strRun_append] at h
    obtain ⟨q, hq, -⟩ := Option.bind_eq_some_iff.mp h
    exact ⟨q.escaped, nest_str hsane hq d⟩
  have hback : ∀ d, nest ⟨d, none⟩ (quote s) = ⟨d, none⟩ := by
    intro d
    have hbody : nest ⟨d, some false⟩ s = ⟨d, some false⟩ := nest_str hsane h d
    rw [quote, nest_cons, nest_append, show nestStep ⟨d, none⟩ 34 = ⟨d, some false⟩ from rfl, hbody]
    rfl
  refine ⟨?_, hback⟩
  intro d p hp
  rcases List.prefix_cons_iff.mp hp with rfl | ⟨p', rfl, hp'⟩
  · exact le_refl d
  · rcases List.prefix_concat_iff.mp hp' with rfl | hbody
    · rw [show 34 :: (s ++ [34]) = quote s from rfl, hback]
    · obtain ⟨esc, hesc⟩ := hin hbody d
      rw [nest_cons, show nestStep ⟨d, none⟩ 34 = ⟨d, some false⟩ from rfl, hesc]

/-! ## Brackets -/

/-- An opening and a closing bracket. -/
def IsPair (l r : UInt8) : Prop := l = 123 ∧ r = 125 ∨ l = 91 ∧ r = 93

/-- Up to the closing bracket the count is above its value before the opening one. -/
lemma Nested.inside {t : List UInt8} (h : Nested t) {l r : UInt8} (hlr : IsPair l r) (d : ℕ)
    {p : List UInt8} (hp : p <+: t) : d < (nest ⟨d, none⟩ (l :: p)).depth := by
  have hopen : nestStep ⟨d, none⟩ l = ⟨d + 1, none⟩ := by
    rcases hlr with ⟨rfl, -⟩ | ⟨rfl, -⟩ <;> rfl
  rw [nest_cons, hopen]
  exact h.above (d + 1) p hp

lemma Nested.bracket {t : List UInt8} (h : Nested t) {l r : UInt8} (hlr : IsPair l r) :
    Nested (l :: (t ++ [r])) := by
  have hback : ∀ d, nest ⟨d, none⟩ (l :: (t ++ [r])) = ⟨d, none⟩ := by
    intro d
    have hopen : nestStep ⟨d, none⟩ l = ⟨d + 1, none⟩ := by
      rcases hlr with ⟨rfl, -⟩ | ⟨rfl, -⟩ <;> rfl
    rw [nest_cons, hopen, nest_append, h.back]
    rcases hlr with ⟨-, rfl⟩ | ⟨-, rfl⟩ <;> rfl
  refine ⟨?_, hback⟩
  intro d p hp
  rcases List.prefix_cons_iff.mp hp with rfl | ⟨p', rfl, hp'⟩
  · exact le_refl d
  · rcases List.prefix_concat_iff.mp hp' with rfl | hbody
    · rw [hback]
    · exact (h.inside hlr d hbody).le

lemma nested_commaJoin {items : List (List UInt8)} (h : ∀ t ∈ items, Nested t) :
    Nested (commaJoin items) := by
  induction items with
  | nil => exact nested_nil
  | cons t rest ih =>
    have ht := h t List.mem_cons_self
    cases rest with
    | nil => exact ht
    | cons u rest =>
      have hcomma : Nested [44] := nested_flat (by decide +kernel)
      exact ht.append (hcomma.append (ih fun v hv => h v (List.mem_cons_of_mem _ hv)))

lemma nested_blank {w : List UInt8} (h : Blank w) : Nested w := by
  refine nested_flat fun b hb => ?_
  rcases h b hb with rfl | rfl | rfl | rfl <;> decide

lemma nested_number {t : List UInt8} (h : IsNumber t) : Nested t := by
  refine nested_flat fun b hb => ?_
  intro hmem
  simp only [List.mem_cons, List.not_mem_nil, or_false] at hmem
  rcases hmem with rfl | rfl | rfl | rfl | rfl <;> exact h.not_mem (by decide) hb

/-- **The brackets of a well-formed text balance.** -/
lemma IsJson.nested {t : List UInt8} (h : IsJson t) : Nested t := by
  induction h with
  | null => exact nested_flat (by decide +kernel)
  | true => exact nested_flat (by decide +kernel)
  | false => exact nested_flat (by decide +kernel)
  | number h => exact nested_number h
  | string h => exact nested_quote h
  | emptyArray h => exact (nested_blank h).bracket (Or.inr ⟨rfl, rfl⟩)
  | array hne h ih => exact (nested_commaJoin ih).bracket (Or.inr ⟨rfl, rfl⟩)
  | emptyObject h => exact (nested_blank h).bracket (Or.inl ⟨rfl, rfl⟩)
  | object hne hkeys h ih =>
    refine (nested_commaJoin ?_).bracket (Or.inl ⟨rfl, rfl⟩)
    intro t ht
    obtain ⟨m, hm, rfl⟩ := List.mem_map.mp ht
    obtain ⟨hbefore, hkey, hafter⟩ := hkeys m hm
    have hcolon : Nested [58] := nested_flat (by decide +kernel)
    exact (((nested_blank hbefore).append (nested_quote hkey)).append (nested_blank hafter)).append
      (hcolon.append (ih m hm))
  | pad hw h hw' ih => exact ((nested_blank hw).append ih).append (nested_blank hw')

/-- A text in brackets has no well-formed text as a proper prefix. -/
lemma IsJson.eq_of_prefix {t p : List UInt8} {l r : UInt8} (hlr : IsPair l r) (ht : Nested t)
    (hp : IsJson p) (hne : p ≠ []) (hpre : p <+: l :: (t ++ [r])) : p = l :: (t ++ [r]) := by
  rcases List.prefix_cons_iff.mp hpre with rfl | ⟨p', rfl, hpre'⟩
  · exact absurd rfl hne
  · rcases List.prefix_concat_iff.mp hpre' with rfl | hbody
    · rfl
    · have hlt := ht.inside hlr 0 hbody
      rw [hp.nested.back] at hlt
      exact absurd hlt (lt_irrefl 0)

/-- No well-formed text is empty. -/
lemma IsJson.ne_nil {t : List UInt8} (h : IsJson t) : t ≠ [] := by
  induction h with
  | null | true | false => simp
  | number h =>
    cases h with
    | mk hsign hint =>
      simp [hint.1]
  | string | emptyArray | array | emptyObject | object => simp [quote]
  | pad hw h hw' ih => simp [ih]

namespace Json

section Mono

variable {P Q P' Q' : List UInt8 → Prop}

mutual

lemma All.mono (hP : ∀ s, P s → P' s) (hQ : ∀ t, Q t → Q' t) : ∀ j : Json, j.All P Q → j.All P' Q'
  | atom text, h => hQ text h
  | str s, h => hP s h
  | arr items, h => AllItems.mono hP hQ items h
  | obj members, h => AllMembers.mono hP hQ members h

lemma AllItems.mono (hP : ∀ s, P s → P' s) (hQ : ∀ t, Q t → Q' t) :
    ∀ js : List Json, AllItems P Q js → AllItems P' Q' js
  | [], _ => trivial
  | j :: js, h => ⟨All.mono hP hQ j h.1, AllItems.mono hP hQ js h.2⟩

lemma AllMembers.mono (hP : ∀ s, P s → P' s) (hQ : ∀ t, Q t → Q' t) :
    ∀ ms : List (List UInt8 × Json), AllMembers P Q ms → AllMembers P' Q' ms
  | [], _ => trivial
  | (k, j) :: ms, h => ⟨hP k h.1, All.mono hP hQ j h.2.1, AllMembers.mono hP hQ ms h.2.2⟩

end

end Mono

end Json

/-- **A document that has been cut short is not well-formed.** -/
lemma Json.eq_of_prefix {members : List (List UInt8 × Json)} (h : (Json.obj members).Good)
    {p : List UInt8} (hp : IsJson p) (hpre : p <+: (Json.obj members).render) :
    p = (Json.obj members).render := by
  have hbody : Nested (commaJoin (Json.renderMembers members)) := by
    refine nested_commaJoin fun t ht => ?_
    rw [Json.renderMembers_eq] at ht
    obtain ⟨m, hm, rfl⟩ := List.mem_map.mp ht
    have hall := Json.allMembers_iff.mp h m hm
    have hcolon : Nested [58] := nested_flat (by decide +kernel)
    exact (nested_quote hall.1).append (hcolon.append (Json.isJson_render m.2 hall.2).nested)
  exact hp.eq_of_prefix (Or.inl ⟨rfl, rfl⟩) hbody hp.ne_nil hpre

end TickPlant.Lib
