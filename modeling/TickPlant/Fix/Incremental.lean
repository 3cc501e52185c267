/-
# Groups without an update action

In an incremental refresh tag 279 opens an entry.  A comment at tag 269 says that messages without
tag 279 are handled as well, by opening an entry whenever none is open.  The entry stays open to the
end of the message, so this works for the first group: every later one fills the entry of the first
again, and the message is returned with one entry, that of the last group.

A message is given by the fields that the loop obtains from it: any header with type `X` at its
end, tag 268, the groups, and any fields behind them that do not belong to a group.
-/
import TickPlant.Fix.Groups

namespace TickPlant.FIXParser

open Lib

/-- A group of tags 269, 270 and 271, and other fields behind them. -/
structure Group where
  entryType : Bytes
  price : Bytes
  quantity : Bytes
  others : List (ℤ × Bytes)

/-- The fields of a group. -/
def Group.fields (g : Group) : List (ℤ × Bytes) :=
  (269, g.entryType) :: (270, g.price) :: (271, g.quantity) :: g.others

/-- The type of the message after some fields. -/
def msgTypeOf (fs : List (ℤ × Bytes)) : FIXMsgType :=
  fs.foldl (fun t f => if f.1 = 35 then parseMsgType f.2 else t) .unknown

/-- Fields that neither belong to a group nor change the type of the message. -/
def Neutral (fs : List (ℤ × Bytes)) : Prop := ∀ f ∈ fs, f.1 ∉ groupTags ∧ f.1 ≠ 35

/-- An incremental refresh whose groups omit tag 279. -/
structure OmitsActions (msg : Bytes) (header : List (ℤ × Bytes)) (count : Bytes)
    (groups : List Group) (trailer : List (ℤ × Bytes)) : Prop where
  fields_eq : ((fields msg).takeWhile fun f => f.1 ≠ 10) =
    header ++ (268, count) :: (groups.flatMap Group.fields ++ trailer)
  msgType : msgTypeOf header = .marketDataIncremental
  others : ∀ g ∈ groups, Neutral g.others
  trailer : Neutral trailer

/-- The message has one entry for each group, with its values. -/
def ReadsGroups (r : Rounding) (groups : List Group) (out : FIXRecord) : Prop :=
  out.numEntries = groups.length ∧ ∀ (i : ℕ) (g : Group), groups[i]? = some g →
    ∃ e : MDEntry, out.entries[i]? = some e ∧ e.entryType = parseInt g.entryType ∧
      e.price = parseDouble r g.price ∧ e.quantity = parseDouble r g.quantity

/-! ## The type of the message -/

lemma openEntry_msgType (s : State) : (openEntry s).out.msgType = s.out.msgType :=
  addEntry_msgType s _

lemma fillEntry_msgType (f : MDEntry → MDEntry) (s : State) :
    (fillEntry f s).out.msgType = s.out.msgType := by
  rw [fillEntry]
  split <;> rfl

/-- Only tag 35 changes the type. -/
lemma onField_msgType (r : Rounding) (f : ℤ × Bytes) (s : State) :
    (onField r f.1 f.2 s).out.msgType =
      if f.1 = 35 then parseMsgType f.2 else s.out.msgType := by
  obtain ⟨tag, value⟩ := f
  by_cases h35 : tag = 35
  · subst h35
    rfl
  · rw [if_neg h35]
    unfold onField
    split
    case h_9 =>
      -- tag 269
      rw [fillEntry_msgType]
      split
      · exact openEntry_msgType s
      · rfl
    all_goals first
      | rfl
      | contradiction
      | simp only [fillEntry_msgType, openEntry_msgType]

lemma stateAfter_msgType (r : Rounding) (fs : List (ℤ × Bytes)) :
    (stateAfter r fs).out.msgType = msgTypeOf fs := by
  induction fs using List.reverseRecOn with
  | nil => rfl
  | append_singleton fs f ih =>
    rw [stateAfter_concat, onField_msgType, ih]
    simp [msgTypeOf]

/-- Neutral fields leave the group and the type alone. -/
lemma foldl_neutral (r : Rounding) {fs : List (ℤ × Bytes)} (hfs : Neutral fs) (s : State) :
    let s' := fs.foldl (fun s f => onField r f.1 f.2 s) s
    s'.out.msgType = s.out.msgType ∧ s'.currentEntry = s.currentEntry ∧
      s'.out.numEntries = s.out.numEntries ∧ s'.out.entries = s.out.entries := by
  induction fs generalizing s with
  | nil => exact ⟨rfl, rfl, rfl, rfl⟩
  | cons f fs ih =>
    obtain ⟨htag, h35⟩ := hfs f List.mem_cons_self
    obtain ⟨hcurrent, hnum, hentries⟩ := onField_other r htag f.2 s
    have hmsg : (onField r f.1 f.2 s).out.msgType = s.out.msgType := by
      rw [onField_msgType, if_neg h35]
    obtain ⟨hmsg', hcurrent', hnum', hentries'⟩ :=
      ih (fun g hg => hfs g (List.mem_cons_of_mem f hg)) (onField r f.1 f.2 s)
    exact ⟨hmsg'.trans hmsg, hcurrent'.trans hcurrent, hnum'.trans hnum, hentries'.trans hentries⟩

/-! ## The groups -/

/-- The message is an incremental refresh, and its only entry is open. -/
structure InGroup (s : State) (e : MDEntry) : Prop where
  msgType : s.out.msgType = .marketDataIncremental
  numEntries : s.out.numEntries = 1
  currentEntry : s.currentEntry = 0
  entry : s.out.entries[0]? = some e

namespace InGroup

variable {r : Rounding} {s : State} {e : MDEntry}

lemma fillEntry (h : InGroup s e) (f : MDEntry → MDEntry) : InGroup (fillEntry f s) (f e) := by
  obtain ⟨hmsg, hnum, hcurrent, hentry⟩ := h
  rw [FIXParser.fillEntry, hcurrent, if_pos le_rfl]
  refine ⟨hmsg, hnum, rfl, ?_⟩
  show (s.out.entries.modify 0 f)[0]? = _
  rw [List.getElem?_modify, hentry]
  rfl

/-- Tag 269 opens no entry. -/
lemma onField_269 (h : InGroup s e) (value : Bytes) :
    InGroup (onField r 269 value s) { e with entryType := parseInt value } := by
  have hopen : ¬ (s.out.msgType = .marketDataSnapshot ∨ s.currentEntry < 0) := by
    rw [h.msgType, h.currentEntry]
    decide
  show InGroup (FIXParser.fillEntry _ (if _ then _ else _)) _
  rw [if_neg hopen]
  exact h.fillEntry _

lemma neutral (h : InGroup s e) {fs : List (ℤ × Bytes)} (hfs : Neutral fs) :
    InGroup (fs.foldl (fun s f => onField r f.1 f.2 s) s) e := by
  obtain ⟨hmsg, hcurrent, hnum, hentries⟩ := foldl_neutral r hfs s
  exact ⟨hmsg.trans h.msgType, hnum.trans h.numEntries, hcurrent.trans h.currentEntry,
    by rw [hentries, h.entry]⟩

/-- A group behind the first one overwrites its entry. -/
lemma group (h : InGroup s e) {g : Group} (hg : Neutral g.others) :
    InGroup (g.fields.foldl (fun s f => onField r f.1 f.2 s) s)
      ⟨parseInt g.entryType, e.updateAction, parseDouble r g.price, parseDouble r g.quantity⟩ := by
  have htype := h.onField_269 (r := r) g.entryType
  have hprice := htype.fillEntry fun e => { e with price := parseDouble r g.price }
  have hquantity := hprice.fillEntry fun e => { e with quantity := parseDouble r g.quantity }
  exact hquantity.neutral hg

/-- So all of them leave one entry. -/
lemma groups (h : InGroup s e) {gs : List Group} (hgs : ∀ g ∈ gs, Neutral g.others) :
    ∃ e', InGroup ((gs.flatMap Group.fields).foldl (fun s f => onField r f.1 f.2 s) s) e' := by
  induction gs generalizing s e with
  | nil => exact ⟨e, h⟩
  | cons g gs ih =>
    rw [List.flatMap_cons, List.foldl_append]
    exact ih (h.group (hgs g List.mem_cons_self)) fun g' hg' => hgs g' (List.mem_cons_of_mem g hg')

/-- The first group opens an entry. -/
lemma first (hmsg : s.out.msgType = .marketDataIncremental) (hnum : s.out.numEntries = 0)
    (hcurrent : s.currentEntry = -1) (hlength : s.out.entries.length = fixMaxMdEntries) {g : Group}
    (hg : Neutral g.others) :
    InGroup (g.fields.foldl (fun s f => onField r f.1 f.2 s) s)
      ⟨parseInt g.entryType, 0, parseDouble r g.price, parseDouble r g.quantity⟩ := by
  have hopened : InGroup (openEntry s) ⟨0, 0, 0, 0⟩ := by
    rw [openEntry, hnum, if_pos (by decide)]
    refine ⟨hmsg, rfl, rfl, ?_⟩
    show (s.out.entries.set 0 _)[0]? = _
    rw [List.getElem?_set_self (by rw [hlength]; decide)]
  have htype : InGroup (onField r 269 g.entryType s) ⟨parseInt g.entryType, 0, 0, 0⟩ := by
    show InGroup (FIXParser.fillEntry _ (if _ then _ else _)) _
    rw [if_pos (Or.inr (by rw [hcurrent]; decide))]
    exact hopened.fillEntry _
  have hprice := htype.fillEntry fun e => { e with price := parseDouble r g.price }
  have hquantity := hprice.fillEntry fun e => { e with quantity := parseDouble r g.quantity }
  exact hquantity.neutral hg

end InGroup

/-- **Groups without tag 279.**  For every incremental refresh whose groups omit tag 279, `parse`
returns one entry for each group, with its values, if and only if there is at most one group. -/
theorem groups_read_iff (r : Rounding) (msg : Bytes) (header : List (ℤ × Bytes)) (count : Bytes)
    (groups : List Group) (trailer : List (ℤ × Bytes))
    (h : OmitsActions msg header count groups trailer) :
    ReadsGroups r groups (parse r msg).2 ↔ groups.length ≤ 1 := by
  obtain ⟨hfields, hmsg, hothers, htrailer⟩ := h
  set s := onField r 268 count (stateAfter r header) with hs
  have hparse : (parse r msg).2 = (trailer.foldl (fun s f => onField r f.1 f.2 s)
      ((groups.flatMap Group.fields).foldl (fun s f => onField r f.1 f.2 s) s)).out := by
    rw [parse_snd, run_eq_foldl, hfields, List.foldl_append, List.foldl_cons, List.foldl_append]
    rfl
  have hmsg' : s.out.msgType = .marketDataIncremental := by
    rw [hs, onField_msgType r (268, count), if_neg (by norm_num), stateAfter_msgType, hmsg]
  have hnum : s.out.numEntries = 0 := rfl
  have hcurrent : s.currentEntry = -1 := rfl
  have hlength : s.out.entries.length = fixMaxMdEntries :=
    (inBounds_stateAfter r header).length
  cases groups with
  | nil =>
    refine iff_of_true ⟨?_, by simp⟩ (by simp)
    rw [hparse]
    exact (foldl_neutral r htrailer s).2.2.1
  | cons g gs =>
    rw [List.flatMap_cons, List.foldl_append] at hparse
    have hfirst := InGroup.first (r := r) hmsg' hnum hcurrent hlength
      (hothers g List.mem_cons_self)
    cases gs with
    | nil =>
      have hlast := hfirst.neutral (r := r) htrailer
      rw [List.flatMap_nil, List.foldl_nil] at hparse
      refine iff_of_true ⟨?_, fun i d hd => ?_⟩ (by simp)
      · rw [hparse, hlast.numEntries, List.length_singleton]
      · obtain ⟨rfl, rfl⟩ : i = 0 ∧ g = d := by
          cases i with
          | zero => exact ⟨rfl, Option.some.inj hd⟩
          | succ i => simp at hd
        rw [hparse]
        exact ⟨_, hlast.entry, rfl, rfl, rfl⟩
    -- every group overwrites the entry of the first one
    | cons g' gs =>
      have hlater : ∀ d ∈ g' :: gs, Neutral d.others :=
        fun d hd => hothers d (List.mem_cons_of_mem g hd)
      obtain ⟨e, hgroups⟩ := hfirst.groups (r := r) hlater
      have hlast := hgroups.neutral (r := r) htrailer
      refine iff_of_false ?_ (by simp)
      rintro ⟨hlength, -⟩
      rw [hparse, hlast.numEntries] at hlength
      simp at hlength

/-- A refresh with one group. -/
def oneGroup : Bytes :=
  (bytes "8=FIX.4.4|35=X|268=1|269=0|270=100|271=1|10=000|").map
    fun c => if c = 124 then fixSoh else c

/-- A refresh with two. -/
def twoGroups : Bytes :=
  (bytes "8=FIX.4.4|35=X|268=2|269=0|270=100|271=1|269=1|270=101|271=2|10=000|").map
    fun c => if c = 124 then fixSoh else c

theorem groups_read_iff_oneGroup :
    ReadsGroups .exact [⟨bytes "0", bytes "100", bytes "1", []⟩] (parse .exact oneGroup).2 :=
  (groups_read_iff .exact oneGroup [(8, bytes "FIX.4.4"), (35, bytes "X")] (bytes "1")
    [⟨bytes "0", bytes "100", bytes "1", []⟩] []
    ⟨by decide +kernel, rfl, by simp [Neutral], by simp [Neutral]⟩).mpr le_rfl

/-- The second group is read into the entry of the first. -/
theorem second_group_overwrites :
    OmitsActions twoGroups [(8, bytes "FIX.4.4"), (35, bytes "X")] (bytes "2")
        [⟨bytes "0", bytes "100", bytes "1", []⟩, ⟨bytes "1", bytes "101", bytes "2", []⟩] [] ∧
      (parse .exact twoGroups).2.filled = [⟨1, 0, 101, 2⟩] ∧
      ¬ ReadsGroups .exact
        [⟨bytes "0", bytes "100", bytes "1", []⟩, ⟨bytes "1", bytes "101", bytes "2", []⟩]
        (parse .exact twoGroups).2 := by
  refine ⟨⟨by decide +kernel, rfl, by simp [Neutral], by simp [Neutral]⟩, by decide +kernel, ?_⟩
  rintro ⟨hnum, -⟩
  have hone : (parse .exact twoGroups).2.numEntries = 1 := by decide +kernel
  rw [hone] at hnum
  simp at hnum

end TickPlant.FIXParser
