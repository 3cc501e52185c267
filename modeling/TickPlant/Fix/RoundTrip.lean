/-
# The parser reads what the builder writes

A message of the builder is a sequence of fields.  `run_field` says what one field at the front
of the input does: its value is consumed and handed to the state machine, whatever follows.
The fields of one group of the market data together add one entry to the message, or none once
it is full (`run_entryText`); from this, by induction over the entries, the message that the
parser returns has the first 32 of them, in their order.  What stands after the checksum is not
read.
-/
import TickPlant.Fix.Parser
import TickPlant.Lib.Search

namespace TickPlant

open Lib

namespace FIXParser

/-! ## Numbers -/

lemma toInt32_of_lt {i : ℤ} (h : -2 ^ 31 ≤ i) (h' : i < 2 ^ 31) : toInt32 i = i :=
  Int.bmod_eq_of_le (by norm_num; exact h) (by norm_num; exact h')

/-- Wrapping before the next digit makes no difference. -/
lemma toInt32_digit (i : ℤ) (d : ℕ) : toInt32 (toInt32 i * 10 + d) = toInt32 (i * 10 + d) := by
  have hsplit : toInt32 i * 10 + d =
      i * 10 + d - ((2 ^ 32 : ℕ) : ℤ) * (10 * Int.bdiv i (2 ^ 32)) := by
    have := Int.bmod_add_bdiv i (2 ^ 32)
    rw [toInt32]
    linarith
  rw [toInt32, hsplit, Int.sub_mul_bmod_self_left]
  rfl

/-- Digits are read as their value, modulo `2^32`. -/
lemma parseIntLoop_digits {ds : Bytes} (hds : ∀ b ∈ ds, IsDigit b) (acc : ℕ) :
    parseIntLoop (toInt32 acc) ds = toInt32 (ofDigits acc ds) := by
  induction ds generalizing acc with
  | nil => rfl
  | cons c ds ih =>
    rw [ofDigits_cons, parseIntLoop, if_pos (hds c List.mem_cons_self), toInt32_digit]
    have := ih (fun b hb => hds b (List.mem_cons_of_mem _ hb)) (acc * 10 + digitValue c)
    push_cast at this
    exact this

lemma parseIntLoop_toText (n : ℕ) : parseIntLoop 0 (toText n) = toInt32 n := by
  rw [toText_eq_decimal]
  have := parseIntLoop_digits (decimal_isDigit n) 0
  rwa [ofDigits_decimal, show toInt32 ((0 : ℕ) : ℤ) = 0 from rfl] at this

/-- The text of a number starts with a digit. -/
lemma toText_head (n : ℕ) : ∃ d rest, toText n = d :: rest ∧ IsDigit d := by
  rw [toText_eq_decimal]
  cases hdec : decimal n with
  | nil => exact absurd hdec (decimal_ne_nil n)
  | cons d rest =>
    have hmem : d ∈ decimal n := by rw [hdec]; exact List.mem_cons_self
    exact ⟨d, rest, rfl, decimal_isDigit n d hmem⟩

/-- A text without a sign is read digit by digit. -/
lemma parseInt_toText (n : ℕ) : parseInt (toText n) = toInt32 n := by
  obtain ⟨d, rest, htext, hd⟩ := toText_head n
  have hplain : parseInt (toText n) = parseIntLoop 0 (toText n) := by
    rw [htext, parseInt]
    rintro rest' ⟨⟩
    exact absurd hd (by decide)
  rw [hplain, parseIntLoop_toText]

/-- The values of an `int`. -/
def IsInt (i : ℤ) : Prop := -2 ^ 31 ≤ i ∧ i < 2 ^ 31

/-- An `int` is read back from its text.  For `INT_MIN` the digits overflow, and changing the
sign overflows back. -/
lemma parseInt_intText {i : ℤ} (h : IsInt i) : parseInt (intText i) = i := by
  rw [intText]
  split
  · have hneg : toInt32 (-toInt32 i.natAbs) = toInt32 (-i.natAbs) := by simp [toInt32]
    rw [parseInt, parseIntLoop_toText, hneg, show -(i.natAbs : ℤ) = i by omega,
      toInt32_of_lt h.1 h.2]
  · rw [parseInt_toText, show (i.natAbs : ℤ) = i by omega, toInt32_of_lt h.1 h.2]

lemma soh_not_mem_toText (n : ℕ) : fixSoh ∉ toText n := by
  rw [toText_eq_decimal]
  intro h
  exact absurd (decimal_isDigit n _ h) (by decide)

lemma soh_not_mem_intText (i : ℤ) : fixSoh ∉ intText i := by
  rw [intText]
  split
  · rw [List.mem_cons, not_or]
    exact ⟨by decide, soh_not_mem_toText _⟩
  · exact soh_not_mem_toText _

/-! ## One field -/

/-- A text that names a tag: digits up to the equals sign. -/
def IsTag (text : Bytes) (tag : ℤ) : Prop :=
  ∃ digits, text = digits ++ [61] ∧ 61 ∉ digits ∧ parseInt digits = tag

/-- The decimal text of a number and an equals sign name the tag. -/
lemma isTag_toText (n : ℕ) : IsTag (toText n ++ [61]) (toInt32 n) := by
  refine ⟨toText n, rfl, ?_, parseInt_toText n⟩
  rw [toText_eq_decimal]
  intro h
  exact absurd (decimal_isDigit n _ h) (by decide)

lemma nextField_field {text : Bytes} {tag : ℤ} (htag : IsTag text tag) {value : Bytes}
    (hvalue : fixSoh ∉ value) (rest : Bytes) :
    nextField (text ++ value ++ [fixSoh] ++ rest) = some (tag, value, rest) := by
  obtain ⟨digits, rfl, hdigits, rfl⟩ := htag
  have htext : digits ++ [61] ++ value ++ [fixSoh] ++ rest =
      digits ++ 61 :: (value ++ fixSoh :: rest) := by simp
  rw [htext, nextField, findIdx?_append_cons hdigits]
  simp [findIdx?_append_cons hvalue]

/-- A field takes at least one byte. -/
lemma nextField_shrinks {cursor value rest : Bytes} {tag : ℤ}
    (h : nextField cursor = some (tag, value, rest)) : rest.length < cursor.length := by
  rw [nextField] at h
  split at h
  · cases h
  · rename_i eq heq
    have hlt : eq < cursor.length := (List.findIdx?_eq_some_iff_getElem.mp heq).1
    dsimp only at h
    split at h
    · obtain ⟨-, -, rfl⟩ := by simpa using h
      simp
      omega
    · obtain ⟨-, -, rfl⟩ := by simpa using h
      rw [List.length_drop]
      omega

/-- The length of the input is enough fuel, and more does not matter. -/
lemma parseLoop_fuel (r : Rounding) {fuel fuel' : ℕ} {cursor : Bytes} (s : State)
    (h : cursor.length ≤ fuel) (h' : cursor.length ≤ fuel') :
    parseLoop r fuel cursor s = parseLoop r fuel' cursor s := by
  induction fuel generalizing fuel' cursor s with
  | zero =>
    have hnil : cursor = [] := List.length_eq_zero_iff.mp (by omega)
    subst hnil
    cases fuel' with
    | zero => rfl
    | succ fuel' => rfl
  | succ fuel ih =>
    cases fuel' with
    | zero =>
      have hnil : cursor = [] := List.length_eq_zero_iff.mp (by omega)
      subst hnil
      rfl
    | succ fuel' =>
      rw [parseLoop, parseLoop]
      split
      · rfl
      · rename_i tag value rest hfield
        have hshrinks := nextField_shrinks hfield
        split
        · rfl
        · exact ih _ (by omega) (by omega)

/-- The loop with enough fuel. -/
def run (r : Rounding) (cursor : Bytes) (s : State) : FIXRecord :=
  parseLoop r cursor.length cursor s

lemma parse_fst (r : Rounding) (msg : Bytes) : (parse r msg).1 = (parse r msg).2.valid := rfl

lemma parse_snd (r : Rounding) (msg : Bytes) : (parse r msg).2 = run r msg ⟨{}, -1⟩ := rfl

/-- One step of the loop. -/
lemma run_eq (r : Rounding) {cursor value rest : Bytes} {tag : ℤ} (s : State)
    (h : nextField cursor = some (tag, value, rest)) :
    run r cursor s = if tag = 10 then s.out else run r rest (onField r tag value s) := by
  have hshrinks := nextField_shrinks h
  obtain ⟨n, hn⟩ : ∃ n, cursor.length = n + 1 := ⟨cursor.length - 1, by omega⟩
  rw [run, hn, parseLoop, h]
  dsimp only
  split
  · rfl
  · exact parseLoop_fuel r _ (by omega) le_rfl

/-- A field at the front of the input. -/
lemma run_field (r : Rounding) {text : Bytes} {tag : ℤ} (htag : IsTag text tag) (h10 : tag ≠ 10)
    {value : Bytes} (hvalue : fixSoh ∉ value) (rest : Bytes) (s : State) :
    run r (text ++ value ++ [fixSoh] ++ rest) s = run r rest (onField r tag value s) := by
  rw [run_eq r s (nextField_field htag hvalue rest), if_neg h10]

/-- The checksum ends the message. -/
lemma run_checksum (r : Rounding) {value : Bytes} (hvalue : fixSoh ∉ value) (rest : Bytes)
    (s : State) : run r (bytes "10=" ++ value ++ [fixSoh] ++ rest) s = s.out := by
  have htag : IsTag (bytes "10=") 10 := isTag_toText 10
  rw [run_eq r s (nextField_field htag hvalue rest), if_pos rfl]

/-! ## One group -/

/-- The state in which entry `n` has been opened and filled. -/
def putEntry (n : ℕ) (e : MDEntry) (s : State) : State where
  out := { s.out with numEntries := n + 1, entries := s.out.entries.set n e }
  currentEntry := n

/-- What a group does to the message. -/
def addEntry (s : State) (e : MDEntry) : State :=
  if s.out.numEntries < fixMaxMdEntries then putEntry s.out.numEntries e s
  else { s with currentEntry := -1 }

lemma modify_set_self {α : Type*} (l : List α) (n : ℕ) (a : α) (f : α → α) :
    (l.set n a).modify n f = l.set n (f a) := by
  refine List.ext_getElem? fun i => ?_
  rw [List.getElem?_modify, List.getElem?_set, List.getElem?_set]
  split
  · split <;> rfl
  · simp

lemma fillEntry_putEntry (f : MDEntry → MDEntry) (n : ℕ) (e : MDEntry) (s : State) :
    fillEntry f (putEntry n e s) = putEntry n (f e) s := by
  rw [fillEntry, if_pos (by simp [putEntry])]
  simp [putEntry, modify_set_self]

lemma fillEntry_full (f : MDEntry → MDEntry) (s : State) :
    fillEntry f { s with currentEntry := -1 } = { s with currentEntry := -1 } := by
  rw [fillEntry, if_neg (by norm_num)]

/-- Opening an entry and filling it. -/
lemma fillEntry_addEntry (f : MDEntry → MDEntry) (s : State) (e : MDEntry) :
    fillEntry f (addEntry s e) = addEntry s (f e) := by
  rw [addEntry, addEntry]
  split
  · exact fillEntry_putEntry f _ e s
  · exact fillEntry_full f s

lemma openEntry_eq (s : State) : openEntry s = addEntry s ⟨0, 0, 0, 0⟩ := rfl

lemma addEntry_msgType (s : State) (e : MDEntry) :
    (addEntry s e).out.msgType = s.out.msgType := by
  rw [addEntry]
  split <;> rfl

/-- A group of a snapshot. -/
lemma onField_snapshot (r : Rounding) {s : State}
    (hmsg : s.out.msgType = .marketDataSnapshot) (entryType price quantity : Bytes) :
    onField r 271 quantity (onField r 270 price (onField r 269 entryType s)) =
      addEntry s ⟨parseInt entryType, 0, parseDouble r price, parseDouble r quantity⟩ := by
  have hopen : onField r 269 entryType s =
      fillEntry (fun e => { e with entryType := parseInt entryType }) (openEntry s) := by
    show fillEntry _ (if _ then _ else _) = _
    rw [if_pos (Or.inl hmsg)]
  show fillEntry _ (fillEntry _ _) = _
  rw [hopen, openEntry_eq, fillEntry_addEntry, fillEntry_addEntry, fillEntry_addEntry]

/-- A group of an incremental refresh.  Where there is no room for it, tag 269 tries to open an
entry once more, in vain. -/
lemma onField_incremental (r : Rounding) {s : State}
    (hmsg : s.out.msgType = .marketDataIncremental)
    (updateAction entryType price quantity : Bytes) :
    onField r 271 quantity (onField r 270 price (onField r 269 entryType
        (onField r 279 updateAction s))) =
      addEntry s ⟨parseInt entryType, parseInt updateAction, parseDouble r price,
        parseDouble r quantity⟩ := by
  have hopen : onField r 279 updateAction s =
      addEntry s ⟨0, parseInt updateAction, 0, 0⟩ := by
    show fillEntry _ _ = _
    rw [openEntry_eq, fillEntry_addEntry]
  have htype : onField r 269 entryType (addEntry s ⟨0, parseInt updateAction, 0, 0⟩) =
      addEntry s ⟨parseInt entryType, parseInt updateAction, 0, 0⟩ := by
    show fillEntry _ (if _ then _ else _) = _
    rw [addEntry_msgType, hmsg]
    by_cases hroom : s.out.numEntries < fixMaxMdEntries
    · have hcurrent : ¬ (addEntry s ⟨0, parseInt updateAction, 0, 0⟩).currentEntry < 0 := by
        simp [addEntry, hroom, putEntry]
      rw [if_neg (by simp [hcurrent]), fillEntry_addEntry]
    · have hfull : ∀ e, addEntry s e = { s with currentEntry := -1 } := by
        intro e
        rw [addEntry, if_neg hroom]
      have hagain : openEntry { s with currentEntry := -1 } = { s with currentEntry := -1 } := by
        rw [openEntry, if_neg hroom]
      rw [hfull, hfull, if_pos (Or.inr (by norm_num)), hagain, fillEntry_full]
  show fillEntry _ (fillEntry _ _) = _
  rw [hopen, htype, fillEntry_addEntry, fillEntry_addEntry]

/-! ## All groups -/

/-- The entry that the parser makes of the fields of one of the builder. -/
def readEntry (r : Rounding) (fmt : ℚ → Bytes) (msgTypeStr : Bytes) (e : MDEntry) : MDEntry where
  entryType := parseInt (intText e.entryType)
  updateAction := if msgTypeStr = bytes "X" then parseInt (intText e.updateAction) else 0
  price := parseDouble r (fmt e.price)
  quantity := parseDouble r (fmt e.quantity)

/-- The type of the message matches the text it was built with. -/
def IsMarketData (msgTypeStr : Bytes) (s : State) : Prop :=
  msgTypeStr = bytes "W" ∧ s.out.msgType = .marketDataSnapshot ∨
    msgTypeStr = bytes "X" ∧ s.out.msgType = .marketDataIncremental

lemma IsMarketData.addEntry {msgTypeStr : Bytes} {s : State} (h : IsMarketData msgTypeStr s)
    (e : MDEntry) : IsMarketData msgTypeStr (addEntry s e) := by
  rwa [IsMarketData, addEntry_msgType]

section

variable {fmt : ℚ → Bytes} {msgTypeStr : Bytes} {e : MDEntry} {s : State}

/-- The fields of one entry add one entry to the message. -/
lemma run_entryText (r : Rounding) (hmsg : IsMarketData msgTypeStr s)
    (hprice : fixSoh ∉ fmt e.price) (hquantity : fixSoh ∉ fmt e.quantity) (rest : Bytes) :
    run r (entryText fmt msgTypeStr fixSoh e ++ rest) s =
      run r rest (addEntry s (readEntry r fmt msgTypeStr e)) := by
  have h279 : IsTag (bytes "279=") 279 := isTag_toText 279
  have h269 : IsTag (bytes "269=") 269 := isTag_toText 269
  have h270 : IsTag (bytes "270=") 270 := isTag_toText 270
  have h271 : IsTag (bytes "271=") 271 := isTag_toText 271
  have hfields : ∀ s' : State, run r ((bytes "269=" ++ intText e.entryType ++ [fixSoh]) ++
      ((bytes "270=" ++ fmt e.price ++ [fixSoh]) ++
        ((bytes "271=" ++ fmt e.quantity ++ [fixSoh]) ++ rest))) s' =
      run r rest (onField r 271 (fmt e.quantity) (onField r 270 (fmt e.price)
        (onField r 269 (intText e.entryType) s'))) := by
    intro s'
    rw [run_field r h269 (by norm_num) (soh_not_mem_intText _),
      run_field r h270 (by norm_num) hprice, run_field r h271 (by norm_num) hquantity]
  rcases hmsg with ⟨rfl, hsnapshot⟩ | ⟨rfl, hincremental⟩
  · have hne : bytes "W" ≠ bytes "X" := by decide
    simp only [entryText, readEntry, if_neg hne, List.nil_append, List.append_assoc]
    have := hfields s
    simp only [List.append_assoc] at this
    rw [this, onField_snapshot r hsnapshot]
  · have haction := run_field r h279 (by norm_num) (soh_not_mem_intText e.updateAction)
      ((bytes "269=" ++ intText e.entryType ++ [fixSoh]) ++
        ((bytes "270=" ++ fmt e.price ++ [fixSoh]) ++
          ((bytes "271=" ++ fmt e.quantity ++ [fixSoh]) ++ rest))) s
    rw [hfields, onField_incremental r hincremental] at haction
    simp only [entryText, readEntry, if_pos, List.append_assoc] at haction ⊢
    exact haction

end

/-- The fields of all entries, by induction over them. -/
lemma run_entries (r : Rounding) {fmt : ℚ → Bytes} {msgTypeStr : Bytes} {entries : List MDEntry}
    (hprice : ∀ e ∈ entries, fixSoh ∉ fmt e.price)
    (hquantity : ∀ e ∈ entries, fixSoh ∉ fmt e.quantity) {s : State}
    (hmsg : IsMarketData msgTypeStr s) (rest : Bytes) :
    run r (entries.flatMap (entryText fmt msgTypeStr fixSoh) ++ rest) s =
      run r rest ((entries.map (readEntry r fmt msgTypeStr)).foldl addEntry s) := by
  induction entries generalizing s with
  | nil => rfl
  | cons e entries ih =>
    rw [List.flatMap_cons, List.append_assoc,
      run_entryText r hmsg (hprice e List.mem_cons_self) (hquantity e List.mem_cons_self),
      ih (fun d hd => hprice d (List.mem_cons_of_mem _ hd))
        (fun d hd => hquantity d (List.mem_cons_of_mem _ hd)) (hmsg.addEntry _)]
    rfl

/-- The message has room for 32 entries and those in use are the first ones. -/
structure Fits (s : State) : Prop where
  length : s.out.entries.length = fixMaxMdEntries
  num : s.out.numEntries ≤ fixMaxMdEntries

lemma Fits.filled_length {s : State} (h : Fits s) : s.out.filled.length = s.out.numEntries := by
  rw [FIXRecord.filled, List.length_take, h.length]
  exact min_eq_left h.num

/-- A message with an entry more, if there was room. -/
lemma Fits.addEntry {s : State} (h : Fits s) (e : MDEntry) :
    Fits (addEntry s e) ∧
      (addEntry s e).out.filled = (s.out.filled ++ [e]).take fixMaxMdEntries ∧
      (addEntry s e).out.seqNum = s.out.seqNum ∧ (addEntry s e).out.symbol = s.out.symbol := by
  have hfilled := h.filled_length
  rw [FIXParser.addEntry]
  by_cases hroom : s.out.numEntries < fixMaxMdEntries
  · rw [if_pos hroom]
    refine ⟨⟨?_, hroom⟩, ?_, rfl, rfl⟩
    · simp [putEntry, h.length]
    · rw [List.take_of_length_le (by simp [hfilled]; omega)]
      show (s.out.entries.set s.out.numEntries e).take (s.out.numEntries + 1) = _
      rw [List.take_add_one, List.take_set_of_le le_rfl, List.getElem?_set_self (by
        rw [h.length]; exact hroom)]
      rfl
  · have hfull : s.out.numEntries = fixMaxMdEntries := le_antisymm h.num (not_lt.mp hroom)
    rw [if_neg hroom]
    refine ⟨⟨h.length, h.num⟩, ?_, rfl, rfl⟩
    rw [List.take_append_of_le_length (by omega), List.take_of_length_le (by omega)]

lemma take_take_append {α : Type*} (n : ℕ) (l m : List α) :
    (l.take n ++ m).take n = (l ++ m).take n := by
  rw [List.take_append, List.take_append, List.take_take, min_self, List.length_take]
  congr 2
  omega

/-- All entries, as far as there is room. -/
lemma Fits.foldl {s : State} (h : Fits s) (es : List MDEntry) :
    Fits (es.foldl FIXParser.addEntry s) ∧
      (es.foldl FIXParser.addEntry s).out.filled = (s.out.filled ++ es).take fixMaxMdEntries ∧
      (es.foldl FIXParser.addEntry s).out.seqNum = s.out.seqNum ∧
      (es.foldl FIXParser.addEntry s).out.symbol = s.out.symbol ∧
      (es.foldl FIXParser.addEntry s).out.msgType = s.out.msgType := by
  induction es generalizing s with
  | nil =>
    refine ⟨h, ?_, rfl, rfl, rfl⟩
    rw [List.append_nil, List.take_of_length_le]
    · rfl
    · rw [FIXRecord.filled, List.length_take]
      exact le_trans (min_le_left _ _) h.num
  | cons e es ih =>
    obtain ⟨hfits, hfilled, hseq, hsym⟩ := h.addEntry e
    obtain ⟨hfits', hfilled', hseq', hsym', hmsg'⟩ := ih hfits
    refine ⟨hfits', ?_, hseq'.trans hseq, hsym'.trans hsym, hmsg'.trans (addEntry_msgType s e)⟩
    rw [List.foldl_cons, hfilled', hfilled, take_take_append, List.append_assoc]
    rfl

/-! ## The whole message -/

/-- The state after the header and before the groups. -/
def header (sendingTime msgTypeStr symbol : Bytes) (seqNum : ℤ) : State where
  out :=
    { msgType := parseMsgType msgTypeStr
      seqNum := parseInt (intText seqNum)
      sender := bytes "SIMULATOR"
      target := bytes "CLIENT"
      sendTime := sendingTime
      symbol := symbol }
  currentEntry := -1

lemma fits_header (sendingTime msgTypeStr symbol : Bytes) (seqNum : ℤ) :
    Fits (header sendingTime msgTypeStr symbol seqNum) :=
  ⟨List.length_replicate, Nat.zero_le _⟩

section

variable (r : Rounding) {fmt : ℚ → Bytes} {sendingTime msgTypeStr symbol : Bytes}
  {entries : List MDEntry}

/-- The fields before the groups. -/
lemma run_header (hmsg : fixSoh ∉ msgTypeStr) (htime : fixSoh ∉ sendingTime)
    (hsym : fixSoh ∉ symbol) (seqNum : ℤ) (length : Bytes) (hlength : fixSoh ∉ length)
    (count : ℕ) (rest : Bytes) :
    run r ((bytes "8=FIX.4.4" ++ [fixSoh]) ++ ((bytes "9=" ++ length ++ [fixSoh]) ++
      ((bytes "35=" ++ msgTypeStr ++ [fixSoh]) ++ ((bytes "34=" ++ intText seqNum ++ [fixSoh]) ++
        ((bytes "49=SIMULATOR" ++ [fixSoh]) ++ ((bytes "56=CLIENT" ++ [fixSoh]) ++
          ((bytes "52=" ++ sendingTime ++ [fixSoh]) ++ ((bytes "55=" ++ symbol ++ [fixSoh]) ++
            ((bytes "268=" ++ toText count ++ [fixSoh]) ++ rest))))))))) ⟨{}, -1⟩ =
      run r rest (header sendingTime msgTypeStr symbol seqNum) := by
  have h8 : IsTag (bytes "8=") 8 := isTag_toText 8
  have h9 : IsTag (bytes "9=") 9 := isTag_toText 9
  have h35 : IsTag (bytes "35=") 35 := isTag_toText 35
  have h34 : IsTag (bytes "34=") 34 := isTag_toText 34
  have h49 : IsTag (bytes "49=") 49 := isTag_toText 49
  have h56 : IsTag (bytes "56=") 56 := isTag_toText 56
  have h52 : IsTag (bytes "52=") 52 := isTag_toText 52
  have h55 : IsTag (bytes "55=") 55 := isTag_toText 55
  have h268 : IsTag (bytes "268=") 268 := isTag_toText 268
  rw [show bytes "8=FIX.4.4" = bytes "8=" ++ bytes "FIX.4.4" from rfl,
    show bytes "49=SIMULATOR" = bytes "49=" ++ bytes "SIMULATOR" from rfl,
    show bytes "56=CLIENT" = bytes "56=" ++ bytes "CLIENT" from rfl,
    run_field r h8 (by norm_num) (by decide), run_field r h9 (by norm_num) hlength,
    run_field r h35 (by norm_num) hmsg, run_field r h34 (by norm_num) (soh_not_mem_intText _),
    run_field r h49 (by norm_num) (by decide), run_field r h56 (by norm_num) (by decide),
    run_field r h52 (by norm_num) htime, run_field r h55 (by norm_num) hsym,
    run_field r h268 (by norm_num) (soh_not_mem_toText _)]
  rfl

/-- What the parser makes of a message of the builder, whatever follows it. -/
lemma run_build (hmsg : msgTypeStr = bytes "W" ∨ msgTypeStr = bytes "X")
    (htime : fixSoh ∉ sendingTime) (hsym : fixSoh ∉ symbol)
    (hprice : ∀ e ∈ entries, fixSoh ∉ fmt e.price)
    (hquantity : ∀ e ∈ entries, fixSoh ∉ fmt e.quantity) (seqNum : ℤ) (t : Bytes) :
    (parse r (buildFixMessage fmt sendingTime msgTypeStr symbol entries seqNum fixSoh ++ t)).2 =
      ((entries.map (readEntry r fmt msgTypeStr)).foldl addEntry
        (header sendingTime msgTypeStr symbol seqNum)).out := by
  have hmsg' : fixSoh ∉ msgTypeStr := by rcases hmsg with rfl | rfl <;> decide
  have hmarket : IsMarketData msgTypeStr (header sendingTime msgTypeStr symbol seqNum) := by
    rcases hmsg with rfl | rfl
    · exact Or.inl ⟨rfl, rfl⟩
    · exact Or.inr ⟨rfl, rfl⟩
  have hsum : ∀ n, fixSoh ∉ zeroPad 3 (toText n) := by
    intro n hmem
    rcases List.mem_append.mp hmem with h | h
    · exact absurd (List.eq_of_mem_replicate h) (by decide)
    · exact soh_not_mem_toText n h
  rw [parse_snd]
  simp only [buildFixMessage]
  generalize checksum _ = sum
  have hrun := run_header r hmsg' htime hsym seqNum
    (intText (toInt32 (bodyText fmt sendingTime msgTypeStr symbol entries seqNum fixSoh).length))
    (soh_not_mem_intText _) entries.length
    (entries.flatMap (entryText fmt msgTypeStr fixSoh) ++
      (bytes "10=" ++ zeroPad 3 (toText sum) ++ [fixSoh] ++ t))
  rw [run_entries r hprice hquantity hmarket, run_checksum r (hsum sum)] at hrun
  rw [← hrun, bodyText]
  simp only [List.append_assoc]

end

/-- The parser has read the message that was built from the symbol, the entries and the
sequence number. -/
structure ReadsBack (msgType : FIXMsgType) (action : MDEntry → ℤ) (symbol : Bytes)
    (entries : List MDEntry) (seqNum : ℤ) (result : Bool × FIXRecord) : Prop where
  valid : result.1 = true
  msgType : result.2.msgType = msgType
  symbol : result.2.symbol = symbol
  seqNum : result.2.seqNum = seqNum
  numEntries : result.2.numEntries = min entries.length fixMaxMdEntries
  entry : ∀ i < result.2.numEntries, ∃ e read, entries[i]? = some e ∧
    result.2.entries[i]? = some read ∧ read.entryType = e.entryType ∧
    read.updateAction = action e

section

variable (r : Rounding) {fmt : ℚ → Bytes} {sendingTime msgTypeStr symbol : Bytes}
  {entries : List MDEntry}

/-- The message that the parser returns, for both kinds. -/
lemma parse_buildFixMessage (hmsg : msgTypeStr = bytes "W" ∨ msgTypeStr = bytes "X")
    (htime : fixSoh ∉ sendingTime) (hsym : fixSoh ∉ symbol)
    (hprice : ∀ e ∈ entries, fixSoh ∉ fmt e.price)
    (hquantity : ∀ e ∈ entries, fixSoh ∉ fmt e.quantity) (seqNum : ℤ) (t : Bytes) :
    ∃ out, parse r
        (buildFixMessage fmt sendingTime msgTypeStr symbol entries seqNum fixSoh ++ t) =
          (true, out) ∧
      out.msgType = parseMsgType msgTypeStr ∧ out.symbol = symbol ∧
      out.seqNum = parseInt (intText seqNum) ∧
      out.numEntries = min entries.length fixMaxMdEntries ∧
      out.filled = (entries.map (readEntry r fmt msgTypeStr)).take fixMaxMdEntries := by
  have hrun := run_build r hmsg htime hsym hprice hquantity seqNum t
  obtain ⟨hfits, hfilled, hseq, hsymbol, htype⟩ :=
    (fits_header sendingTime msgTypeStr symbol seqNum).foldl
      (entries.map (readEntry r fmt msgTypeStr))
  have hnum := hfits.filled_length
  rw [← hrun] at hfilled hseq hsymbol htype hnum
  have hlength := congrArg List.length hfilled
  generalize buildFixMessage fmt sendingTime msgTypeStr symbol entries seqNum fixSoh ++ t = msg
    at hfilled hseq hsymbol htype hnum hlength ⊢
  have hvalid : (parse r msg).1 = true := by
    rw [parse_fst, FIXRecord.valid, htype]
    rcases hmsg with rfl | rfl <;> rfl
  refine ⟨(parse r msg).2, Prod.ext hvalid rfl, htype, hsymbol, hseq, ?_, hfilled⟩
  rw [← hnum, hlength, List.length_take]
  simp [header, FIXRecord.filled, min_comm]

/-- What the book and the engine get of a message that was built. -/
lemma toMessage_buildFixMessage (hmsg : msgTypeStr = bytes "W" ∨ msgTypeStr = bytes "X")
    (htime : fixSoh ∉ sendingTime) (hsym : fixSoh ∉ symbol)
    (hprice : ∀ e ∈ entries, fixSoh ∉ fmt e.price)
    (hquantity : ∀ e ∈ entries, fixSoh ∉ fmt e.quantity) (seqNum : ℤ) (t : Bytes) :
    (parse r
      (buildFixMessage fmt sendingTime msgTypeStr symbol entries seqNum fixSoh ++ t)).2.toMessage =
        ⟨parseMsgType msgTypeStr, symbol,
          (entries.map (readEntry r fmt msgTypeStr)).take fixMaxMdEntries⟩ := by
  obtain ⟨out, hparse, htype, hsymbol, -, -, hfilled⟩ :=
    parse_buildFixMessage r hmsg htime hsym hprice hquantity seqNum t
  rw [hparse, FIXRecord.toMessage, htype, hsymbol, hfilled]

/-- The entries that are in use have the types and actions of the first entries. -/
lemma readsBack_buildFixMessage (hmsg : msgTypeStr = bytes "W" ∨ msgTypeStr = bytes "X")
    (htime : fixSoh ∉ sendingTime) (hsym : fixSoh ∉ symbol) (hfmt : ∀ q, fixSoh ∉ fmt q)
    (hentries : ∀ e ∈ entries, IsInt e.entryType ∧ IsInt e.updateAction) {seqNum : ℤ}
    (hseq : IsInt seqNum) (t : Bytes) :
    ReadsBack (parseMsgType msgTypeStr)
      (fun e => if msgTypeStr = bytes "X" then e.updateAction else 0) symbol entries seqNum
      (parse r (buildFixMessage fmt sendingTime msgTypeStr symbol entries seqNum fixSoh ++ t)) := by
  obtain ⟨out, hparse, htype, hsymbol, hseq', hnum, hfilled⟩ :=
    parse_buildFixMessage r hmsg htime hsym (fun e _ => hfmt e.price)
      (fun e _ => hfmt e.quantity) seqNum t
  rw [hparse]
  refine ⟨rfl, htype, hsymbol, hseq'.trans (parseInt_intText hseq), hnum, ?_⟩
  intro i hi
  have hi' : i < entries.length ∧ i < fixMaxMdEntries := by
    simp only at hi
    omega
  obtain ⟨e, he⟩ : ∃ e, entries[i]? = some e := ⟨_, List.getElem?_eq_getElem hi'.1⟩
  obtain ⟨htypeInt, hactionInt⟩ := hentries e (List.mem_of_getElem? he)
  refine ⟨e, readEntry r fmt msgTypeStr e, he, ?_, ?_, ?_⟩
  · rw [← List.getElem?_take_of_lt hi]
    show out.filled[i]? = _
    rw [hfilled, List.getElem?_take_of_lt hi'.2, List.getElem?_map, he]
    rfl
  · exact parseInt_intText htypeInt
  · simp only [readEntry]
    split
    · exact parseInt_intText hactionInt
    · rfl

end

/-- **What is built is read back.**  For every symbol without SOH, every list of entries, every
sequence number and every text after the message, the parser accepts what `build_snapshot` and
`build_incremental` write and returns the type of the message, the symbol, the sequence number
and, of the first 32 entries, the types and, for an incremental refresh, the actions, in their
order.  The texts of prices and quantities only have to be free of SOH. -/
theorem parse_build (r : Rounding) (fmt : ℚ → Bytes) (hfmt : ∀ q, fixSoh ∉ fmt q)
    (sendingTime : Bytes) (htime : fixSoh ∉ sendingTime) (symbol : Bytes)
    (hsym : fixSoh ∉ symbol) (entries : List MDEntry)
    (hentries : ∀ e ∈ entries, IsInt e.entryType ∧ IsInt e.updateAction) (seqNum : ℤ)
    (hseq : IsInt seqNum) (t : Bytes) :
    ReadsBack .marketDataSnapshot (fun _ => 0) symbol entries seqNum
        (parse r (buildSnapshot fmt sendingTime symbol entries seqNum true ++ t)) ∧
      ReadsBack .marketDataIncremental MDEntry.updateAction symbol entries seqNum
        (parse r (buildIncremental fmt sendingTime symbol entries seqNum true ++ t)) :=
  ⟨readsBack_buildFixMessage r (Or.inl rfl) htime hsym hfmt hentries hseq t,
    readsBack_buildFixMessage r (Or.inr rfl) htime hsym hfmt hentries hseq t⟩

/-- `%g` writes no SOH. -/
lemma soh_not_mem_gText (p : ℕ) (q : ℚ) : fixSoh ∉ gText p q :=
  fun h => absurd (isGByte_gText h) (by decide)

theorem parse_build_twoEntries :
    ReadsBack .marketDataSnapshot (fun _ => 0) (bytes "BTC") [⟨0, 0, 100, 1⟩, ⟨1, 2, 101, 3⟩] 7
      (parse .exact (buildSnapshot (gText 6) (bytes "20250101-00:00:00.000") (bytes "BTC")
        [⟨0, 0, 100, 1⟩, ⟨1, 2, 101, 3⟩] 7 true ++ bytes "8=FIX")) :=
  (parse_build .exact (gText 6) (soh_not_mem_gText 6) (bytes "20250101-00:00:00.000") (by decide)
    (bytes "BTC") (by decide) [⟨0, 0, 100, 1⟩, ⟨1, 2, 101, 3⟩] (by simp [IsInt]) 7
    (by simp [IsInt]) (bytes "8=FIX")).1

end FIXParser

end TickPlant
