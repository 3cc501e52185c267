/-
# The repeating group

The entries of a message are filled by a state machine over its fields: tag 279, and tag 269 in a
snapshot or while no entry is open, opens an entry, tag 268 resets the group, and tags 269, 270, 271
and 279 fill the entry that is open.  The fields come in any order, and the type of the message may
change between them.

`onField_step` says what one field does to the group, in four cases.  From it follow, along every
run, that the index of the open entry stays within the entries in use, and that an entry in use
holds nothing but values of the fields from the one that opened it up to the next one that opens an
entry or resets the group.
-/
import TickPlant.Fix.Tokens

namespace TickPlant.FIXParser

open Lib

/-! ## One field -/

/-- The field opens an entry. -/
def Opens (s : State) (f : ℤ × Bytes) : Prop :=
  s.out.numEntries < fixMaxMdEntries ∧
    (f.1 = 279 ∨ f.1 = 269 ∧ (s.out.msgType = .marketDataSnapshot ∨ s.currentEntry < 0))

/-- The field opens an entry or resets the group. -/
def EndsEntry (s : State) (f : ℤ × Bytes) : Prop := f.1 = 268 ∨ Opens s f

/-- What a field does to the entry that is open. -/
def fillWith (r : Rounding) (f : ℤ × Bytes) (e : MDEntry) : MDEntry :=
  match f.1 with
  | 269 => { e with entryType := parseInt f.2 }
  | 279 => { e with updateAction := parseInt f.2 }
  | 270 => { e with price := parseDouble r f.2 }
  | 271 => { e with quantity := parseDouble r f.2 }
  | _ => e

/-- What a field can do to the group: reset it, open an entry and fill it, find no room for an
entry, or fill the entry that is open. -/
inductive GroupStep (r : Rounding) (f : ℤ × Bytes) (s s' : State) : Prop
  | reset (hends : f.1 = 268) (hnum : s'.out.numEntries = 0) (hcurrent : s'.currentEntry = -1)
      (hentries : s'.out.entries = s.out.entries)
  | opened (hends : Opens s f) (hnum : s'.out.numEntries = s.out.numEntries + 1)
      (hcurrent : s'.currentEntry = s.out.numEntries)
      (hentries : s'.out.entries = s.out.entries.set s.out.numEntries
        (fillWith r f ⟨0, 0, 0, 0⟩))
  | full (hends : ¬ EndsEntry s f) (hnum : s'.out.numEntries = s.out.numEntries)
      (hcurrent : s'.currentEntry = -1) (hentries : s'.out.entries = s.out.entries)
  | filled (hends : ¬ EndsEntry s f) (hnum : s'.out.numEntries = s.out.numEntries)
      (hcurrent : s'.currentEntry = s.currentEntry)
      (hopen : 0 ≤ s.currentEntry →
        s'.out.entries = s.out.entries.modify s.currentEntry.toNat (fillWith r f))
      (hnone : s.currentEntry < 0 → s'.out.entries = s.out.entries)

/-- The tags of the group. -/
def groupTags : List ℤ := [268, 269, 270, 271, 279]

/-- The other fields leave the group alone. -/
lemma onField_other (r : Rounding) {tag : ℤ} (htag : tag ∉ groupTags) (value : Bytes) (s : State) :
    (onField r tag value s).currentEntry = s.currentEntry ∧
      (onField r tag value s).out.numEntries = s.out.numEntries ∧
      (onField r tag value s).out.entries = s.out.entries := by
  simp only [groupTags, List.mem_cons, List.not_mem_nil, or_false, not_or] at htag
  obtain ⟨h268, h269, h270, h271, h279⟩ := htag
  unfold onField
  split
  all_goals first
    | exact ⟨rfl, rfl, rfl⟩
    | contradiction

/-- A field that tries to open an entry. -/
lemma GroupStep.of_addEntry {r : Rounding} {f : ℤ × Bytes} {s : State}
    (htag : f.1 = 279 ∨ f.1 = 269 ∧ (s.out.msgType = .marketDataSnapshot ∨ s.currentEntry < 0)) :
    GroupStep r f s (addEntry s (fillWith r f ⟨0, 0, 0, 0⟩)) := by
  rw [addEntry]
  by_cases hroom : s.out.numEntries < fixMaxMdEntries
  · rw [if_pos hroom]
    exact .opened ⟨hroom, htag⟩ rfl rfl rfl
  · rw [if_neg hroom]
    refine .full ?_ rfl rfl rfl
    rintro (h268 | ⟨h, -⟩)
    · omega
    · exact hroom h

/-- A field that fills the open entry. -/
lemma GroupStep.of_fillEntry {r : Rounding} {f : ℤ × Bytes} {s : State} (hends : ¬ EndsEntry s f) :
    GroupStep r f s (fillEntry (fillWith r f) s) := by
  rw [fillEntry]
  by_cases hopen : 0 ≤ s.currentEntry
  · rw [if_pos hopen]
    exact .filled hends rfl rfl (fun _ => rfl) fun hnone => absurd hnone (not_lt.mpr hopen)
  · rw [if_neg hopen]
    exact .filled hends rfl rfl (fun h => absurd h hopen) fun _ => rfl

/-- One field of the loop. -/
lemma onField_step (r : Rounding) (f : ℤ × Bytes) (s : State) :
    GroupStep r f s (onField r f.1 f.2 s) := by
  obtain ⟨tag, value⟩ := f
  by_cases htag : tag ∈ groupTags
  · simp only [groupTags, List.mem_cons, List.not_mem_nil, or_false] at htag
    rcases htag with rfl | rfl | rfl | rfl | rfl
    · exact .reset rfl rfl rfl rfl
    · -- tag 269 opens an entry in a snapshot, or if none is open
      show GroupStep r _ s (fillEntry _ (if _ then _ else _))
      by_cases hopens : s.out.msgType = .marketDataSnapshot ∨ s.currentEntry < 0
      · rw [if_pos hopens, openEntry_eq, fillEntry_addEntry]
        exact .of_addEntry (Or.inr ⟨rfl, hopens⟩)
      · rw [if_neg hopens]
        refine .of_fillEntry ?_
        rintro (⟨⟨⟩⟩ | ⟨-, ⟨⟨⟩⟩ | ⟨-, h⟩⟩)
        exact hopens h
    · exact .of_fillEntry (by simp [EndsEntry, Opens])
    · exact .of_fillEntry (by simp [EndsEntry, Opens])
    · show GroupStep r _ s (fillEntry _ _)
      rw [openEntry_eq, fillEntry_addEntry]
      exact .of_addEntry (Or.inl rfl)
  · obtain ⟨hcurrent, hnum, hentries⟩ := onField_other r htag value s
    simp only [groupTags, List.mem_cons, List.not_mem_nil, or_false, not_or] at htag
    obtain ⟨h268, h269, h270, h271, h279⟩ := htag
    have hfill : fillWith r (tag, value) = id := by
      ext e : 1
      simp only [fillWith]
      rfl
    have hends : ¬ EndsEntry s (tag, value) := by
      rintro (h | ⟨-, h | ⟨h, -⟩⟩)
      · exact h268 h
      · exact h279 h
      · exact h269 h
    refine .filled hends hnum hcurrent ?_ fun _ => hentries
    intro _
    rw [hfill, List.modify_id, hentries]

/-! ## Along a run -/

/-- The state after some fields. -/
def stateAfter (r : Rounding) (fs : List (ℤ × Bytes)) : State :=
  fs.foldl (fun s f => onField r f.1 f.2 s) ⟨{}, -1⟩

lemma stateAfter_concat (r : Rounding) (fs : List (ℤ × Bytes)) (f : ℤ × Bytes) :
    stateAfter r (fs ++ [f]) = onField r f.1 f.2 (stateAfter r fs) := by
  simp [stateAfter]

/-- The open entry is the last one in use, and there is room for all entries in use. -/
structure InBounds (s : State) : Prop where
  current : s.currentEntry = -1 ∨ s.currentEntry + 1 = s.out.numEntries
  num_le : s.out.numEntries ≤ fixMaxMdEntries
  length : s.out.entries.length = fixMaxMdEntries

lemma InBounds.step {r : Rounding} {f : ℤ × Bytes} {s s' : State} (h : InBounds s)
    (hstep : GroupStep r f s s') : InBounds s' := by
  obtain ⟨hcurrent, hle, hlength⟩ := h
  cases hstep with
  | reset _ hnum hcurrent' hentries =>
    exact ⟨Or.inl hcurrent', by rw [hnum]; exact Nat.zero_le _, by rw [hentries, hlength]⟩
  | opened hends hnum hcurrent' hentries =>
    have hroom := hends.1
    refine ⟨Or.inr ?_, by omega, by rw [hentries, List.length_set, hlength]⟩
    rw [hcurrent', hnum]
    rfl
  | full _ hnum hcurrent' hentries =>
    exact ⟨Or.inl hcurrent', by rw [hnum]; exact hle, by rw [hentries, hlength]⟩
  | filled _ hnum hcurrent' hopen hnone =>
    refine ⟨by rw [hcurrent', hnum]; exact hcurrent, by rw [hnum]; exact hle, ?_⟩
    rcases lt_or_ge s.currentEntry 0 with hneg | hpos
    · rw [hnone hneg, hlength]
    · rw [hopen hpos, List.length_modify, hlength]

lemma inBounds_stateAfter (r : Rounding) (fs : List (ℤ × Bytes)) : InBounds (stateAfter r fs) := by
  induction fs using List.reverseRecOn with
  | nil => exact ⟨Or.inl rfl, Nat.zero_le _, List.length_replicate⟩
  | append_singleton fs f ih =>
    rw [stateAfter_concat]
    exact ih.step (onField_step r f _)

/-! ## Where the values of an entry come from -/

/-- Every value of an entry is a default or the value of one of the fields. -/
structure Sourced (r : Rounding) (fs : List (ℤ × Bytes)) (e : MDEntry) : Prop where
  entryType : e.entryType = 0 ∨ ∃ v, (269, v) ∈ fs ∧ e.entryType = parseInt v
  updateAction : e.updateAction = 0 ∨ ∃ v, (279, v) ∈ fs ∧ e.updateAction = parseInt v
  price : e.price = 0 ∨ ∃ v, (270, v) ∈ fs ∧ e.price = parseDouble r v
  quantity : e.quantity = 0 ∨ ∃ v, (271, v) ∈ fs ∧ e.quantity = parseDouble r v

lemma Sourced.mono {r : Rounding} {fs gs : List (ℤ × Bytes)} {e : MDEntry} (h : Sourced r fs e)
    (hsub : ∀ f ∈ fs, f ∈ gs) : Sourced r gs e := by
  obtain ⟨h₁, h₂, h₃, h₄⟩ := h
  exact ⟨h₁.imp_right fun ⟨v, hv, he⟩ => ⟨v, hsub _ hv, he⟩,
    h₂.imp_right fun ⟨v, hv, he⟩ => ⟨v, hsub _ hv, he⟩,
    h₃.imp_right fun ⟨v, hv, he⟩ => ⟨v, hsub _ hv, he⟩,
    h₄.imp_right fun ⟨v, hv, he⟩ => ⟨v, hsub _ hv, he⟩⟩

lemma sourced_default (r : Rounding) (fs : List (ℤ × Bytes)) : Sourced r fs ⟨0, 0, 0, 0⟩ :=
  ⟨Or.inl rfl, Or.inl rfl, Or.inl rfl, Or.inl rfl⟩

/-- Filling an entry takes the value of the field. -/
lemma Sourced.fillWith {r : Rounding} {fs : List (ℤ × Bytes)} {f : ℤ × Bytes} {e : MDEntry}
    (h : Sourced r fs e) (hf : f ∈ fs) : Sourced r fs (fillWith r f e) := by
  obtain ⟨tag, v⟩ := f
  rw [FIXParser.fillWith]
  split
  · rename_i htag
    obtain rfl : tag = 269 := htag
    exact { h with entryType := Or.inr ⟨v, hf, rfl⟩ }
  · rename_i htag
    obtain rfl : tag = 279 := htag
    exact { h with updateAction := Or.inr ⟨v, hf, rfl⟩ }
  · rename_i htag
    obtain rfl : tag = 270 := htag
    exact { h with price := Or.inr ⟨v, hf, rfl⟩ }
  · rename_i htag
    obtain rfl : tag = 271 := htag
    exact { h with quantity := Or.inr ⟨v, hf, rfl⟩ }
  · exact h

/-- The entry was opened by `opener`, with index `i`, and holds values of that field and of `seg`,
the fields behind it up to the next one that opens an entry or resets the group. -/
structure Origin (r : Rounding) (fs : List (ℤ × Bytes)) (i : ℕ) (e : MDEntry)
    (before : List (ℤ × Bytes)) (opener : ℤ × Bytes) (seg after : List (ℤ × Bytes)) : Prop where
  split : fs = before ++ opener :: (seg ++ after)
  opens : Opens (stateAfter r before) opener
  index : (stateAfter r before).out.numEntries = i
  seg_fills : ∀ pre f post, seg = pre ++ f :: post →
    ¬ EndsEntry (stateAfter r (before ++ opener :: pre)) f
  after_ends : ∀ f post, after = f :: post →
    EndsEntry (stateAfter r (before ++ opener :: seg)) f
  sourced : Sourced r (opener :: seg) e

namespace Origin

variable {r : Rounding} {fs before seg after : List (ℤ × Bytes)} {i : ℕ} {e e' : MDEntry}
  {opener f : ℤ × Bytes}

/-- The field just read opens the entry. -/
lemma start (hopens : Opens (stateAfter r fs) f) :
    Origin r (fs ++ [f]) (stateAfter r fs).out.numEntries (fillWith r f ⟨0, 0, 0, 0⟩) fs f [] []
    where
  split := rfl
  opens := hopens
  index := rfl
  seg_fills := by simp
  after_ends := by simp
  sourced := (sourced_default r [f]).fillWith List.mem_cons_self

/-- A field behind the entry that is still the last one. -/
lemma append_seg (h : Origin r fs i e before opener seg [])
    (hends : ¬ EndsEntry (stateAfter r fs) f) (hsourced : Sourced r (opener :: (seg ++ [f])) e') :
    Origin r (fs ++ [f]) i e' before opener (seg ++ [f]) [] where
  split := by simp [h.split]
  opens := h.opens
  index := h.index
  seg_fills := by
    intro pre g post hsplit
    rcases List.eq_nil_or_concat post with rfl | ⟨post, l, rfl⟩
    · obtain ⟨rfl, hlast⟩ := List.append_inj' hsplit rfl
      obtain rfl : f = g := by simpa using hlast
      have hfs := h.split
      rw [List.append_nil] at hfs
      rwa [← hfs]
    · have hconcat : seg ++ [f] = pre ++ g :: post ++ [l] := by simpa using hsplit
      exact h.seg_fills pre g post (List.append_inj' hconcat rfl).1
  after_ends := by simp
  sourced := hsourced

/-- A field behind the end of the entry. -/
lemma append_after (h : Origin r fs i e before opener seg after)
    (hends : after = [] → EndsEntry (stateAfter r fs) f) :
    Origin r (fs ++ [f]) i e before opener seg (after ++ [f]) where
  split := by simp [h.split]
  opens := h.opens
  index := h.index
  seg_fills := h.seg_fills
  after_ends := by
    intro g post hafter
    cases after with
    | nil =>
      obtain ⟨rfl, -⟩ := by simpa using hafter
      have hfs := h.split
      rw [List.append_nil] at hfs
      rw [← hfs]
      exact hends rfl
    | cons g' post' =>
      obtain ⟨rfl, -⟩ := by simpa using hafter
      exact h.after_ends _ _ rfl
  sourced := h.sourced

/-- A field that ends no entry: it may fill the entry if nothing follows that one yet. -/
lemma step (h : Origin r fs i e before opener seg after) (hends : ¬ EndsEntry (stateAfter r fs) f)
    (he' : e' = e ∨ after = [] ∧ e' = fillWith r f e) :
    ∃ seg' after', Origin r (fs ++ [f]) i e' before opener seg' after' ∧
      (after' = [] ↔ after = []) := by
  cases after with
  | nil =>
    have hmore : Sourced r (opener :: (seg ++ [f])) e :=
      h.sourced.mono fun g hg => by simp at hg ⊢; tauto
    refine ⟨seg ++ [f], [], h.append_seg hends ?_, Iff.rfl⟩
    rcases he' with rfl | ⟨-, rfl⟩
    · exact hmore
    · exact hmore.fillWith (by simp)
  | cons g post =>
    obtain rfl : e' = e := he'.resolve_right fun h => absurd h.1 (List.cons_ne_nil g post)
    refine ⟨seg, g :: post ++ [f], h.append_after fun h => ?_, by simp⟩
    exact absurd h (List.cons_ne_nil g post)

end Origin

/-- Every entry in use has its origin; it is the last entry exactly if nothing follows it. -/
lemma exists_origin (r : Rounding) (fs : List (ℤ × Bytes)) (i : ℕ)
    (hi : i < (stateAfter r fs).out.numEntries) :
    ∃ e, (stateAfter r fs).out.entries[i]? = some e ∧ ∃ before opener seg after,
      Origin r fs i e before opener seg after ∧
        (after = [] ↔ i + 1 = (stateAfter r fs).out.numEntries) := by
  induction fs using List.reverseRecOn with
  | nil => exact absurd hi (Nat.not_lt_zero i)
  | append_singleton fs f ih =>
    have hbounds := inBounds_stateAfter r fs
    have hstep := onField_step r f (stateAfter r fs)
    rw [← stateAfter_concat] at hstep
    generalize hs' : stateAfter r (fs ++ [f]) = s' at hi hstep ⊢
    cases hstep with
    | reset _ hnum =>
      rw [hnum] at hi
      exact absurd hi (Nat.not_lt_zero i)
    | opened hopens hnum _ hentries =>
      rcases Nat.lt_or_ge i (stateAfter r fs).out.numEntries with hold | hnew
      · obtain ⟨e, he, before, opener, seg, after, horigin, hlast⟩ := ih hold
        refine ⟨e, ?_, before, opener, seg, after ++ [f],
          horigin.append_after fun _ => Or.inr hopens, ?_⟩
        · rw [hentries, List.getElem?_set_ne (by omega), he]
        · rw [hnum]
          simp
          omega
      · obtain rfl : i = (stateAfter r fs).out.numEntries := by omega
        refine ⟨_, ?_, fs, f, [], [], Origin.start hopens, by simp [hnum]⟩
        rw [hentries, List.getElem?_set_self (by rw [hbounds.length]; exact hopens.1)]
    | full hends hnum _ hentries =>
      rw [hnum] at hi ⊢
      obtain ⟨e, he, before, opener, seg, after, horigin, hlast⟩ := ih hi
      obtain ⟨seg', after', horigin', hafter⟩ := horigin.step hends (Or.inl rfl)
      exact ⟨e, by rw [hentries, he], before, opener, seg', after', horigin', hafter.trans hlast⟩
    | filled hends hnum _ hopen hnone =>
      rw [hnum] at hi ⊢
      obtain ⟨e, he, before, opener, seg, after, horigin, hlast⟩ := ih hi
      -- only the last entry can be filled
      have hread : ∃ e', s'.out.entries[i]? = some e' ∧
          (e' = e ∨ after = [] ∧ e' = fillWith r f e) := by
        rcases lt_or_ge (stateAfter r fs).currentEntry 0 with hneg | hpos
        · exact ⟨e, by rw [hnone hneg, he], Or.inl rfl⟩
        · rw [hopen hpos, List.getElem?_modify, he]
          split
          · rename_i hcurrent
            have hindex := hbounds.current.resolve_left (by omega)
            exact ⟨fillWith r f e, rfl, Or.inr ⟨hlast.mpr (by omega), rfl⟩⟩
          · exact ⟨e, rfl, Or.inl rfl⟩
      obtain ⟨e', he', hfill⟩ := hread
      obtain ⟨seg', after', horigin', hafter⟩ := horigin.step hends hfill
      exact ⟨e', he', before, opener, seg', after', horigin', hafter.trans hlast⟩

/-! ## The loop, iteration by iteration -/

/-- One iteration of the loop of `parse`: the rest of the message and the new state; `none` if the
loop ends. -/
def loopStep (r : Rounding) : Bytes × State → Option (Bytes × State)
  | (cursor, s) =>
    match nextField cursor with
    | none => none
    | some (tag, value, rest) => if tag = 10 then none else some (rest, onField r tag value s)

/-- The rest of the message and the state before iteration `k`, if the loop gets there. -/
def loopAt (r : Rounding) (msg : Bytes) (k : ℕ) : Option (Bytes × State) :=
  (fun o => o.bind (loopStep r))^[k] (some (msg, ⟨{}, -1⟩))

/-- The loop ends, after at most as many iterations as there are bytes, and returns the message of
its last state. -/
lemma loop_ends (r : Rounding) (cursor : Bytes) (s : State) :
    ∃ k ≤ cursor.length, ∃ cursor' s',
      (fun o => o.bind (loopStep r))^[k] (some (cursor, s)) = some (cursor', s') ∧
        loopStep r (cursor', s') = none ∧ run r cursor s = s'.out := by
  induction cursor using fields_induction generalizing s with
  | stop cursor hnone =>
    refine ⟨0, Nat.zero_le _, cursor, s, rfl, by rw [loopStep, hnone], ?_⟩
    rw [run_eq_foldl, fields_of_none hnone]
    rfl
  | step cursor tag value rest hfield ih =>
    by_cases h10 : tag = 10
    · refine ⟨0, Nat.zero_le _, cursor, s, rfl, ?_, ?_⟩
      · rw [loopStep, hfield]
        exact if_pos h10
      · rw [run_eq r s hfield, if_pos h10]
    · obtain ⟨k, hk, cursor', s', hiterate, hend, hrun⟩ := ih (onField r tag value s)
      have hshrinks := nextField_shrinks hfield
      have hstep : loopStep r (cursor, s) = some (rest, onField r tag value s) := by
        rw [loopStep, hfield]
        exact if_neg h10
      refine ⟨k + 1, by omega, cursor', s', ?_, hend, ?_⟩
      · rw [Function.iterate_succ_apply, Option.bind_some, hstep, hiterate]
      · rw [run_eq r s hfield, if_neg h10, hrun]

/-- Every state of the loop is the one after some fields. -/
lemma loopAt_state (r : Rounding) {msg cursor : Bytes} {s : State} {k : ℕ}
    (h : loopAt r msg k = some (cursor, s)) : ∃ fs, s = stateAfter r fs := by
  induction k generalizing cursor s with
  | zero =>
    cases h
    exact ⟨[], rfl⟩
  | succ k ih =>
    rw [loopAt, Function.iterate_succ_apply'] at h
    obtain ⟨⟨cursor₀, s₀⟩, hk, hstep⟩ := Option.bind_eq_some_iff.mp h
    obtain ⟨fs, rfl⟩ := ih hk
    rw [loopStep] at hstep
    split at hstep
    · cases hstep
    · rename_i tag value rest hfield
      split at hstep
      · cases hstep
      · cases hstep
        exact ⟨fs ++ [(tag, value)], (stateAfter_concat r fs (tag, value)).symm⟩

/-- **The repeating group is safe.**  For every byte string `parse` ends, within as many iterations
as there are bytes; before every iteration the index of the open entry is `-1` or below the number
of entries, which is at most the 32 of the array; and every entry in use in the message returned
holds only defaults and values of the fields from the one that opened it up to the next one that
opens an entry or resets the group. -/
theorem parse_group_safe (r : Rounding) (msg : Bytes) :
    (∃ k ≤ msg.length, ∃ cursor s, loopAt r msg k = some (cursor, s) ∧
        loopStep r (cursor, s) = none ∧ (parse r msg).2 = s.out) ∧
      (∀ k cursor s, loopAt r msg k = some (cursor, s) →
        -1 ≤ s.currentEntry ∧ s.currentEntry < s.out.numEntries ∧
          s.out.numEntries ≤ fixMaxMdEntries ∧ s.out.entries.length = fixMaxMdEntries) ∧
      ∀ i < (parse r msg).2.numEntries, ∃ e, (parse r msg).2.entries[i]? = some e ∧
        ∃ before opener seg after,
          Origin r ((fields msg).takeWhile fun f => f.1 ≠ 10) i e before opener seg after := by
  refine ⟨loop_ends r msg ⟨{}, -1⟩, ?_, ?_⟩
  · intro k cursor s hk
    obtain ⟨fs, rfl⟩ := loopAt_state r hk
    obtain ⟨hcurrent, hle, hlength⟩ := inBounds_stateAfter r fs
    exact ⟨by omega, by omega, hle, hlength⟩
  · intro i hi
    have hparse : (parse r msg).2 =
        (stateAfter r ((fields msg).takeWhile fun f => f.1 ≠ 10)).out := by
      rw [parse_snd, run_eq_foldl]
      rfl
    rw [hparse] at hi ⊢
    obtain ⟨e, he, before, opener, seg, after, horigin, -⟩ := exists_origin r _ i hi
    exact ⟨e, he, before, opener, seg, after, horigin⟩

end TickPlant.FIXParser
