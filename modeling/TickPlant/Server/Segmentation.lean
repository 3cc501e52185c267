/-
# How the stream is cut into `recv` results

All three servers look for a line once after each successful `recv`, so what they have
consumed after a list of `recv` results is `absorbed`: at most one line per result, the
other complete lines staying in the buffer until more bytes arrive.

The complete lines left in the buffer behave like a queue that is served once per arrival.
It is empty after the last result exactly when no final part of the list has more newlines
than results (`backlog_eq_zero`), and only then have all lines of the stream been consumed
(`absorbed_all_iff`).
-/
import TickPlant.Server.Connection

namespace TickPlant

/-! ## A queue served once per arrival -/

/-- The queue after arrivals of the given sizes, with one departure after each. -/
def backlog (q : ℕ) (arrivals : List ℕ) : ℕ := arrivals.foldl (fun q n => q + n - 1) q

/-- No final part of the list has more arrivals than services. -/
def KeepsUp (arrivals : List ℕ) : Prop := ∀ t, t <:+ arrivals → t.sum ≤ t.length

lemma keepsUp_cons {n : ℕ} {ns : List ℕ} :
    KeepsUp (n :: ns) ↔ KeepsUp ns ∧ n + ns.sum ≤ ns.length + 1 := by
  constructor
  · intro h
    exact ⟨fun t ht => h t (ht.trans (List.suffix_cons n ns)),
      by simpa using h (n :: ns) List.suffix_rfl⟩
  · rintro ⟨h, hall⟩ t ht
    rcases List.suffix_cons_iff.mp ht with rfl | ht
    · simpa using hall
    · exact h t ht

/-- The queue is empty at the end when every final part keeps up, the initial queue counted
to the whole list. -/
lemma backlog_eq_zero {q : ℕ} {ns : List ℕ} :
    backlog q ns = 0 ↔ KeepsUp ns ∧ q + ns.sum ≤ ns.length := by
  induction ns generalizing q with
  | nil =>
    have hnil : KeepsUp [] := by
      intro t ht
      rw [List.suffix_nil.mp ht]
      exact le_rfl
    simp [backlog, hnil]
  | cons n ns ih =>
    have hstep : backlog q (n :: ns) = backlog (q + n - 1) ns := rfl
    rw [hstep, ih, keepsUp_cons, List.sum_cons, List.length_cons]
    constructor
    · rintro ⟨h, hle⟩
      exact ⟨⟨h, by omega⟩, by omega⟩
    · rintro ⟨⟨h, -⟩, hle⟩
      have hns := h ns List.suffix_rfl
      exact ⟨h, by omega⟩

/-! ## At most one line per `recv` -/

/-- The lines consumed so far and the bytes in the buffer, after one more `recv` result. -/
def absorb (x : List Bytes × Bytes) (chunk : Bytes) : List Bytes × Bytes :=
  match splitLine (x.2 ++ chunk) with
  | none => (x.1, x.2 ++ chunk)
  | some (line, rest) => (x.1 ++ [cString line], rest)

lemma absorb_none {ls : List Bytes} {s chunk : Bytes} (h : splitLine (s ++ chunk) = none) :
    absorb (ls, s) chunk = (ls, s ++ chunk) := by
  rw [absorb, h]

lemma absorb_some {ls : List Bytes} {s chunk line rest : Bytes}
    (h : splitLine (s ++ chunk) = some (line, rest)) :
    absorb (ls, s) chunk = (ls ++ [cString line], rest) := by
  rw [absorb, h]

/-- The lines consumed and the bytes in the buffer after a list of `recv` results. -/
def absorbed (chunks : List Bytes) : List Bytes × Bytes := chunks.foldl absorb ([], [])

lemma absorbed_concat (chunks : List Bytes) (chunk : Bytes) :
    absorbed (chunks ++ [chunk]) = absorb (absorbed chunks) chunk := by
  rw [absorbed, List.foldl_append]
  rfl

/-- The number of newlines in each result. -/
def newlines (chunks : List Bytes) : List ℕ := chunks.map (List.count newline)

/-- The complete lines in the buffer are the backlog. -/
lemma count_absorbed (chunks : List Bytes) :
    (absorbed chunks).2.count newline = backlog 0 (newlines chunks) := by
  induction chunks using List.reverseRecOn with
  | nil => rfl
  | append_singleton chunks chunk ih =>
    have hlog : backlog 0 (newlines (chunks ++ [chunk])) =
        (absorbed chunks).2.count newline + chunk.count newline - 1 := by
      rw [ih, backlog, newlines, List.map_append, List.foldl_append]
      rfl
    rw [absorbed_concat, hlog, absorb, ← List.count_append]
    -- each result is followed by one look for a line, whatever number of lines it completes
    rcases hsplit : splitLine ((absorbed chunks).2 ++ chunk) with _ | ⟨line, rest⟩
    · have : ((absorbed chunks).2 ++ chunk).count newline = 0 :=
        List.count_eq_zero.mpr (splitLine_eq_none.mp hsplit)
      simp only [this]
    · obtain ⟨hs, hline⟩ := splitLine_eq_some hsplit
      rw [hs, List.count_append, List.count_eq_zero.mpr hline, List.count_cons_self]
      simp

/-- The bytes received are the lines consumed, whole, and the bytes in the buffer. -/
lemma absorbed_stream (chunks : List Bytes) :
    ∃ raws, (absorbed chunks).1 = raws.map cString ∧ (∀ l ∈ raws, newline ∉ l) ∧
      chunks.flatten = wire raws ++ (absorbed chunks).2 := by
  induction chunks using List.reverseRecOn with
  | nil => exact ⟨[], rfl, fun _ h => absurd h (by simp), rfl⟩
  | append_singleton chunks chunk ih =>
    obtain ⟨raws, hlines, hnl, hstream⟩ := ih
    rw [absorbed_concat, absorb]
    rcases hsplit : splitLine ((absorbed chunks).2 ++ chunk) with _ | ⟨line, rest⟩
    · exact ⟨raws, hlines, hnl, by simp [hstream]⟩
    · obtain ⟨hs, hline⟩ := splitLine_eq_some hsplit
      refine ⟨raws ++ [line], by simp [hlines], ?_, ?_⟩
      · intro l hl
        rcases List.mem_append.mp hl with hl | hl
        · exact hnl l hl
        · rw [List.mem_singleton.mp hl]; exact hline
      · rw [List.flatten_append, hstream, wire_append, List.append_assoc]
        simp [hs]

/-- Request lines as a client may send them. -/
structure RequestLines (lines : List Bytes) : Prop where
  length_le : ∀ l ∈ lines, l.length ≤ 510
  no_newline : ∀ l ∈ lines, newline ∉ l
  no_nul : ∀ l ∈ lines, (0 : UInt8) ∉ l

/-- What is consumed of a stream of request lines is an initial part of them, and the buffer
has the rest of what was received. -/
lemma absorbed_initial {lines : List Bytes} (h : RequestLines lines) {chunks : List Bytes}
    (hstream : chunks.flatten = wire lines) :
    ∃ rest, lines = (absorbed chunks).1 ++ rest ∧ (absorbed chunks).2 = wire rest := by
  obtain ⟨raws, hlines, hnl, hraw⟩ := absorbed_stream chunks
  obtain ⟨rest, hrest, hbuf⟩ := wire_cut hnl h.no_newline (hraw.symm.trans hstream)
  -- without a NUL in it, a line reaches `handle_line` as it is
  have hraws : raws.map cString = raws := by
    refine (List.map_congr_left ?_).trans (List.map_id raws)
    intro l hl
    exact cString_eq_self (h.no_nul l (by rw [hrest]; exact List.mem_append_left _ hl))
  exact ⟨rest, by rw [hlines, hraws]; exact hrest, hbuf⟩

/-- **All lines are consumed** exactly when no final part of the `recv` results has more
newlines than results. -/
lemma absorbed_all_iff {lines : List Bytes} (h : RequestLines lines) {chunks : List Bytes}
    (hstream : chunks.flatten = wire lines) :
    (absorbed chunks).1 = lines ↔ KeepsUp (newlines chunks) := by
  have hzero : KeepsUp (newlines chunks) ↔ (absorbed chunks).2.count newline = 0 := by
    rw [count_absorbed, backlog_eq_zero, zero_add]
    exact ⟨fun hk => ⟨hk, hk _ List.suffix_rfl⟩, fun hk => hk.1⟩
  obtain ⟨rest, hrest, hbuf⟩ := absorbed_initial h hstream
  rw [hzero, hbuf]
  -- a newline is left in the buffer exactly when a line is left over
  cases rest with
  | nil => simpa using hrest.symm
  | cons l ls =>
    have hne : (absorbed chunks).1 ≠ lines := by
      intro heq
      have := congrArg List.length hrest
      rw [heq, List.length_append, List.length_cons] at this
      omega
    simp [hne]

/-- A buffer that received no more than a stream of request lines holds a newline before it
is full. -/
lemma newline_mem_of_full {lines : List Bytes} (h : RequestLines lines) {chunks : List Bytes}
    (hstream : chunks.flatten <+: wire lines) (hfull : 511 ≤ (absorbed chunks).2.length) :
    newline ∈ (absorbed chunks).2 := by
  obtain ⟨raws, -, hnl, hraw⟩ := absorbed_stream chunks
  obtain ⟨more, hmore⟩ := hstream
  rw [hraw, List.append_assoc] at hmore
  obtain ⟨ms, hms, hbuf⟩ := wire_cut hnl h.no_newline hmore
  cases ms with
  | nil =>
    rw [wire_nil, List.append_eq_nil_iff] at hbuf
    rw [hbuf.1] at hfull
    exact absurd hfull (by simp)
  | cons m ms =>
    have hm : m.length ≤ 510 := h.length_le m (by rw [hms]; simp)
    have hline : m ++ [newline] <+: (absorbed chunks).2 ++ more := by
      rw [hbuf, wire_cons]
      exact ⟨wire ms, by simp⟩
    -- the next line is shorter than the full buffer, so all of it has been received
    have hpre : m ++ [newline] <+: (absorbed chunks).2 :=
      List.prefix_of_prefix_length_le hline (List.prefix_append _ _) (by
        rw [List.length_append, List.length_singleton]; omega)
    exact hpre.subset (by simp)

end TickPlant
