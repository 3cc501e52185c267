/-
# Chunked bodies are decoded

A body is encoded chunk by chunk: the size in hexadecimal, an extension if any, CRLF, the data,
CRLF.  The data may be any bytes, also such that look like the line of a size: the decoder does not
look at them, it skips as many bytes as the size says.

The induction is over the chunks, with the part of the body that was read before as a parameter.
It is about every beginning of an encoding at once: where the body is cut off, within a line, within
the data or within the CRLF behind them, decides only after how many whole chunks the loop ends.
-/
import TickPlant.Report.Chunked

namespace TickPlant.QuestDbDataSource

open Lib

/-! ## The encoding -/

/-- A text of a size: hexadecimal digits of either case, with any number of zeros in front. -/
structure IsSize (text : Bytes) (n : ℕ) : Prop where
  ne_nil : text ≠ []
  isHexDigit : ∀ c ∈ text, isHexDigit c = true
  ofHex_eq : ofHex text = n

/-- Chunk extensions: nothing, or a text behind `;` that does not end the line. -/
structure IsExtension (text : Bytes) : Prop where
  semicolon : text = [] ∨ ∃ ext, text = 59 :: ext
  crlf_free : ¬ crlf <:+: text

/-- A chunk that is not empty, with the text of its size and its extensions. -/
structure Chunk where
  data : Bytes
  size : Bytes
  extension : Bytes
  data_ne_nil : data ≠ []
  isSize : IsSize size data.length
  isExtension : IsExtension extension

/-- The line before the data. -/
def line (size extension : Bytes) : Bytes := size ++ extension ++ crlf

/-- A chunk on the wire. -/
def Chunk.text (c : Chunk) : Bytes := line c.size c.extension ++ (c.data ++ crlf)

/-- The chunks, the chunk of size zero and the trailer. -/
def encode (chunks : List Chunk) (zero extension trailer : Bytes) : Bytes :=
  chunks.flatMap Chunk.text ++ (line zero extension ++ trailer)

/-! ## One line -/

/-- A text without CR in front of another one adds no end of a line. -/
lemma crlf_infix_append {s t : Bytes} (hs : 13 ∉ s) (h : crlf <:+: s ++ t) : crlf <:+: t := by
  induction s with
  | nil => exact h
  | cons c s ih =>
    rw [List.mem_cons, not_or] at hs
    rw [List.cons_append, List.infix_cons_iff] at h
    refine ih hs.2 (h.resolve_left ?_)
    rintro ⟨rest, hrest⟩
    exact hs.1 (List.cons.inj hrest).1

/-- A text that is free of CRLF stays so if a CR follows. -/
lemma crlf_infix_concat {s : Bytes} (h : crlf <:+: s ++ [13]) : crlf <:+: s := by
  rw [List.infix_concat_iff] at h
  refine h.resolve_left ?_
  rintro ⟨t, ht⟩
  have hlast := congrArg List.getLast? ht
  simp [crlf] at hlast

section

variable {size extension : Bytes} {n : ℕ}

lemma line_crlf_free (hsize : IsSize size n) (hext : IsExtension extension) :
    ¬ crlf <:+: size ++ extension ++ [13] := by
  intro h
  have hcr : 13 ∉ size := fun hmem => absurd (hsize.isHexDigit 13 hmem) (by decide)
  exact hext.crlf_free (crlf_infix_append hcr (crlf_infix_concat h))

/-- A digit is no space, no sign, no `x` and no `;`. -/
lemma isHexDigit_spec : ∀ c : UInt8, isHexDigit c = true →
    isSpace c = false ∧ c ≠ 45 ∧ c ≠ 43 ∧ c ≠ 120 ∧ c ≠ 88 ∧ c ≠ 59 := by
  decide +kernel

lemma skipHexPrefix_digits {s : Bytes} (hs : ∀ c ∈ s, isHexDigit c = true) :
    skipHexPrefix s = s := by
  rw [skipHexPrefix.eq_def]
  split
  · rename_i x c rest
    obtain ⟨-, -, -, hx, hX, -⟩ := isHexDigit_spec x (hs x (by simp))
    rw [if_neg (by simp [hx, hX])]
  · rfl

/-- `std::stoul` reads the text of a size. -/
lemma stoul_size (hsize : IsSize size n) (hn : n < 2 ^ 64) : stoul size = some n := by
  obtain ⟨hne, hhex, rfl⟩ := hsize
  have hspace : size.dropWhile isSpace = size := by
    obtain ⟨c, rest, rfl⟩ := List.exists_cons_of_ne_nil hne
    rw [List.dropWhile_cons_of_neg]
    simp [(isHexDigit_spec c (hhex c List.mem_cons_self)).1]
  have hsign : readSign size = (false, size) := by
    obtain ⟨c, rest, rfl⟩ := List.exists_cons_of_ne_nil hne
    obtain ⟨-, hminus, hplus, -⟩ := isHexDigit_spec c (hhex c List.mem_cons_self)
    rw [readSign.eq_def]
    split
    · rename_i h
      exact absurd (List.cons.inj h).1 hminus
    · rename_i h
      exact absurd (List.cons.inj h).1 hplus
    · rfl
  have hdigits : (skipHexPrefix size).takeWhile isHexDigit = size := by
    rw [skipHexPrefix_digits hhex, List.takeWhile_eq_self_iff]
    exact hhex
  simp only [stoul, hspace, hsign, hdigits]
  rw [if_neg (by simp [hne]; omega)]
  rfl

lemma sizeLine_line (hsize : IsSize size n) (hn : n < 2 ^ 64) (hext : IsExtension extension)
    (pre rest : Bytes) :
    sizeLine (pre ++ (line size extension ++ rest)) pre.length =
      some ((size ++ extension).length, n) := by
  have hsearch : search crlf (line size extension ++ rest) = some (size ++ extension).length := by
    rw [line, List.append_assoc _ crlf]
    exact search_append (by decide) (line_crlf_free hsize hext) rest
  have htake : (line size extension ++ rest).take (size ++ extension).length =
      size ++ extension := by
    rw [line, List.append_assoc _ crlf, List.take_left]
  have hcut : (size ++ extension).takeWhile (· ≠ 59) = size := by
    have hne : ∀ c ∈ size, decide (c ≠ 59) = true :=
      fun c hc => decide_eq_true (isHexDigit_spec c (hsize.isHexDigit c hc)).2.2.2.2.2
    rw [List.takeWhile_append_of_pos hne]
    rcases hext.semicolon with rfl | ⟨ext, rfl⟩ <;> simp
  simp only [sizeLine, List.drop_left, hsearch, Option.bind_eq_bind, Option.bind_some, htake, hcut,
    stoul_size hsize hn]
  rfl

/-- A body that is cut off within a line ends the loop. -/
lemma turn_cut (hsize : IsSize size n) (hext : IsExtension extension) (pre : Bytes) {t : Bytes}
    (ht : t <+: size ++ extension ++ [13]) : turn (pre ++ t) pre.length = none := by
  have hnone : search crlf t = none :=
    search_eq_none fun h => line_crlf_free hsize hext (h.trans ht.isInfix)
  have hline : sizeLine (pre ++ t) pre.length = none := by
    rw [sizeLine, List.drop_left, hnone]
    rfl
  rw [turn, hline]
  split <;> rfl

/-- The chunk of size zero ends the loop. -/
lemma turn_zero (hsize : IsSize size 0) (hext : IsExtension extension) (pre rest : Bytes) :
    turn (pre ++ (line size extension ++ rest)) pre.length = none := by
  rw [turn, sizeLine_line hsize (by norm_num) hext]
  split <;> rfl

end

section

variable (c : Chunk) (pre : Bytes)

lemma length_line (size extension : Bytes) :
    (line size extension).length = (size ++ extension).length + 2 := by
  rw [line, List.length_append]
  rfl

/-- What a turn does at a chunk: whether the data are complete decides. -/
lemma turn_line (rest : Bytes)
    (hmax : (pre ++ (line c.size c.extension ++ rest)).length ≤ maxSize)
    (hdata : c.data.length ≤ maxSize) :
    turn (pre ++ (line c.size c.extension ++ rest)) pre.length =
      if rest.length < c.data.length then none
      else some (rest.take c.data.length, (pre ++ c.text).length) := by
  have hne : c.data.length ≠ 0 := fun h => c.data_ne_nil (List.length_eq_zero_iff.mp h)
  have hbody : (pre ++ (line c.size c.extension ++ rest)).length =
      pre.length + (c.size ++ c.extension).length + 2 + rest.length := by
    rw [List.length_append, List.length_append, length_line]
    omega
  have htext : (pre ++ c.text).length =
      pre.length + (c.size ++ c.extension).length + 2 + c.data.length + 2 := by
    rw [Chunk.text, List.length_append, List.length_append, List.length_append, length_line]
    have : crlf.length = 2 := rfl
    omega
  have hdrop : (pre ++ (line c.size c.extension ++ rest)).drop
      (pre.length + (c.size ++ c.extension).length + 2) = rest := by
    rw [← List.append_assoc, List.drop_left']
    rw [List.length_append, length_line]
    omega
  have hmod : ∀ k ≤ 2 ^ 64 - 1, k % 2 ^ 64 = k := fun k hk => Nat.mod_eq_of_lt (by omega)
  rw [maxSize] at hmax hdata
  rw [turn, if_pos (by omega), sizeLine_line c.isSize (by omega) c.isExtension]
  simp only [if_neg hne]
  rw [hmod (pre.length + (c.size ++ c.extension).length + 2) (by omega), hmod _ (by omega), hdrop]
  by_cases hshort : rest.length < c.data.length
  · rw [if_pos (by omega), if_pos hshort]
  · rw [if_neg (by omega), if_neg hshort, hmod _ (by omega), htext]

end

/-! ## Every beginning of an encoding -/

/-- A beginning of two texts ends within the first or contains it. -/
lemma prefix_append_cases {s u t : Bytes} (h : t <+: s ++ u) :
    t.length < s.length ∨ ∃ t', t = s ++ t' ∧ t' <+: u := by
  rcases Nat.lt_or_ge t.length s.length with hlt | hge
  · exact Or.inl hlt
  · obtain ⟨t', rfl⟩ := List.prefix_of_prefix_length_le (List.prefix_append s u) h hge
    exact Or.inr ⟨t', rfl, (List.prefix_append_right_inj s).mp h⟩

section

variable {zero extension : Bytes} (trailer : Bytes)

/-- A beginning that is shorter than the first line is cut off within it. -/
lemma turn_of_short {size : Bytes} {n : ℕ} (hsize : IsSize size n) (hext : IsExtension extension)
    (pre : Bytes) {t rest : Bytes} (ht : t <+: line size extension ++ rest)
    (hlt : t.length < (line size extension).length) : turn (pre ++ t) pre.length = none := by
  refine turn_cut hsize hext pre ?_
  have hline : size ++ extension ++ [13] <+: line size extension ++ rest :=
    ⟨10 :: rest, by simp [line, crlf]⟩
  refine List.prefix_of_prefix_length_le ht hline ?_
  rw [length_line] at hlt
  rw [List.length_append, List.length_singleton]
  omega

/-- The loop on a beginning of an encoding returns the data of the first whole chunks, and those of
all chunks for the whole encoding. -/
lemma decodeLoop_beginning (hzero : IsSize zero 0) (hext : IsExtension extension)
    (chunks : List Chunk) (hdata : ∀ c ∈ chunks, c.data.length ≤ maxSize) (pre result : Bytes)
    {t : Bytes} (ht : t <+: encode chunks zero extension trailer)
    (hmax : (pre ++ t).length ≤ maxSize) :
    ∃ n fuel, decodeLoop (pre ++ t) fuel pre.length result =
        some (result ++ (chunks.take n).flatMap Chunk.data) ∧
      (t = encode chunks zero extension trailer → n = chunks.length) := by
  induction chunks generalizing pre result t with
  | nil =>
    rw [encode, List.flatMap_nil, List.nil_append] at ht
    have hend : turn (pre ++ t) pre.length = none := by
      rcases prefix_append_cases ht with hlt | ⟨t', rfl, -⟩
      · exact turn_of_short hzero hext pre ht hlt
      · exact turn_zero hzero hext pre t'
    refine ⟨0, 1, ?_, fun _ => rfl⟩
    rw [decodeLoop, hend]
    simp
  | cons c chunks ih =>
    have hencode : encode (c :: chunks) zero extension trailer =
        line c.size c.extension ++ (c.data ++ (crlf ++ encode chunks zero extension trailer)) := by
      simp [encode, Chunk.text]
    rw [hencode] at ht ⊢
    rcases prefix_append_cases ht with hlt | ⟨t₁, rfl, ht₁⟩
    · -- within the line
      refine ⟨0, 1, ?_, ?_⟩
      · rw [decodeLoop, turn_of_short c.isSize c.isExtension pre ht hlt]
        simp
      · rintro rfl
        rw [List.length_append] at hlt
        omega
    have hturn := turn_line c pre t₁ hmax (hdata c List.mem_cons_self)
    rcases prefix_append_cases ht₁ with hlt | ⟨t₂, rfl, ht₂⟩
    · -- within the data
      rw [if_pos hlt] at hturn
      refine ⟨0, 1, ?_, ?_⟩
      · rw [decodeLoop, hturn]
        simp
      · intro heq
        rw [List.append_cancel_left heq, List.length_append] at hlt
        omega
    rw [if_neg (by simp), List.take_left] at hturn
    rcases prefix_append_cases ht₂ with hlt | ⟨t₃, rfl, ht₃⟩
    · -- within the CRLF behind the data: the position is past the end
      have hlength : (pre ++ (line c.size c.extension ++ (c.data ++ t₂))).length ≤
          (pre ++ c.text).length := by
        simp only [Chunk.text, List.length_append]
        omega
      refine ⟨1, 2, ?_, ?_⟩
      · rw [decodeLoop, hturn]
        dsimp only
        rw [decodeLoop, turn, if_neg (by omega)]
        simp
      · intro heq
        have hrest := List.append_cancel_left (List.append_cancel_left heq)
        rw [hrest, List.length_append] at hlt
        omega
    · -- the chunk is whole, and the induction hypothesis is about what follows it
      have hnext : pre ++ (line c.size c.extension ++ (c.data ++ (crlf ++ t₃))) =
          pre ++ c.text ++ t₃ := by simp [Chunk.text]
      rw [hnext] at hmax
      obtain ⟨n, fuel, hloop, hn⟩ := ih (fun d hd => hdata d (List.mem_cons_of_mem c hd))
        (pre ++ c.text) (result ++ c.data) ht₃ hmax
      refine ⟨n + 1, fuel + 1, ?_, ?_⟩
      · rw [decodeLoop, hturn]
        dsimp only
        rw [hnext, hloop]
        simp
      · intro heq
        rw [hn (List.append_cancel_left (List.append_cancel_left (List.append_cancel_left heq))),
          List.length_cons]

lemma length_data_le {c : Chunk} {chunks : List Chunk} (h : c ∈ chunks) :
    c.data.length ≤ (encode chunks zero extension trailer).length := by
  have htext : c.text.length ≤ (chunks.flatMap Chunk.text).length := by
    obtain ⟨before, after, rfl⟩ := List.append_of_mem h
    simp only [List.flatMap_append, List.flatMap_cons, List.length_append]
    omega
  have hdata : c.data.length ≤ c.text.length := by
    simp only [Chunk.text, List.length_append]
    omega
  rw [encode, List.length_append]
  omega

end

section

variable {chunks : List Chunk} {zero extension trailer : Bytes} (hzero : IsSize zero 0)
  (hext : IsExtension extension) (hmax : (encode chunks zero extension trailer).length ≤ maxSize)
include hzero hext hmax

lemma decodes_beginning {t : Bytes} (ht : t <+: encode chunks zero extension trailer) :
    ∃ n, DecodesTo t ((chunks.take n).flatMap Chunk.data) ∧
      (t = encode chunks zero extension trailer → n = chunks.length) := by
  have hdata : ∀ c ∈ chunks, c.data.length ≤ maxSize :=
    fun c hc => (length_data_le trailer hc).trans hmax
  obtain ⟨n, fuel, hloop, hn⟩ :=
    decodeLoop_beginning trailer hzero hext chunks hdata [] [] ht (ht.length_le.trans hmax)
  exact ⟨n, ⟨fuel, hloop⟩, hn⟩

/-- The encoding as a whole. -/
lemma decodes_encode :
    DecodesTo (encode chunks zero extension trailer) (chunks.flatMap Chunk.data) := by
  obtain ⟨n, hdecodes, hn⟩ := decodes_beginning hzero hext hmax (List.prefix_refl _)
  rwa [hn rfl, List.take_length] at hdecodes

end

/-- **Chunked bodies are decoded.**  For all chunks that are not empty, whatever their bytes, the
texts of their sizes, their extensions, the last chunk and the trailer: `decode_chunked` returns the
data of the chunks one after the other, and for every beginning of the encoding the data of the
first whole chunks. -/
theorem chunks_decoded (chunks : List Chunk) (zero extension trailer : Bytes)
    (hzero : IsSize zero 0) (hext : IsExtension extension)
    (hmax : (encode chunks zero extension trailer).length ≤ maxSize) :
    DecodesTo (encode chunks zero extension trailer) (chunks.flatMap Chunk.data) ∧
      ∀ t, t <+: encode chunks zero extension trailer →
        ∃ n, DecodesTo t ((chunks.take n).flatMap Chunk.data) := by
  refine ⟨decodes_encode hzero hext hmax, fun t ht => ?_⟩
  obtain ⟨n, hdecodes, -⟩ := decodes_beginning hzero hext hmax ht
  exact ⟨n, hdecodes⟩

/-- A chunk whose data look like the line of a size. -/
def trickyChunk : Chunk where
  data := bytes "0\r\n"
  size := bytes "003"
  extension := bytes ";a=b"
  data_ne_nil := by decide
  isSize := ⟨by decide, by decide +kernel, by decide +kernel⟩
  isExtension := ⟨Or.inr ⟨bytes "a=b", by decide +kernel⟩, by decide⟩

theorem chunks_decoded_tricky :
    DecodesTo (encode [trickyChunk] (bytes "0") [] crlf) (bytes "0\r\n") ∧
      ∀ t, t <+: encode [trickyChunk] (bytes "0") [] crlf →
        ∃ n, DecodesTo t (([trickyChunk].take n).flatMap Chunk.data) :=
  chunks_decoded [trickyChunk] (bytes "0") [] crlf
    ⟨by decide, by decide +kernel, by decide +kernel⟩ ⟨Or.inl rfl, by decide⟩ (by decide +kernel)

/-- A reply whose headers name the encoding is read as the data of its chunks. -/
theorem httpBody_chunked (headers : Bytes) (chunks : List Chunk) (zero extension trailer : Bytes)
    (hblank : ¬ crlf ++ crlf <:+: headers ++ (crlf ++ [13]))
    (hchunked : bytes "transfer-encoding: chunked" <:+: headers.map toLower)
    (hzero : IsSize zero 0) (hext : IsExtension extension)
    (hmax : (encode chunks zero extension trailer).length ≤ maxSize) :
    ∃ fuel, httpBody fuel (headers ++ (crlf ++ crlf ++ encode chunks zero extension trailer)) =
      some (chunks.flatMap Chunk.data) := by
  obtain ⟨fuel, hdecode⟩ := decodes_encode hzero hext hmax
  have hne : crlf ++ crlf ≠ [] := by decide
  have hsearch := search_append hne hblank (encode chunks zero extension trailer)
  have htake : (headers ++ (crlf ++ crlf ++ encode chunks zero extension trailer)).take
      headers.length = headers := List.take_left
  have hdrop : (headers ++ (crlf ++ crlf ++ encode chunks zero extension trailer)).drop
      (headers.length + 4) = encode chunks zero extension trailer := by
    rw [← List.append_assoc]
    exact List.drop_left' (by rw [List.length_append]; rfl)
  refine ⟨fuel, ?_⟩
  simp only [httpBody, hsearch, htake, hdrop, if_pos hchunked]
  exact hdecode

end TickPlant.QuestDbDataSource
