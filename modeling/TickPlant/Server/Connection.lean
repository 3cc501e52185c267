/-
# What a connection is for

The specification that the servers are measured against, with no buffers and no events: the
bytes received are consumed line by line, a line is consumed only when the reply to the
line before has been accepted by the kernel in full, and the bytes accepted are the replies
in order (`Dialogue.run_spec`).
-/
import TickPlant.Server.LineBuffer
import TickPlant.Server.Protocol
import TickPlant.Lib.Run
import TickPlant.Lib.Search

namespace TickPlant

open Lib

variable {E : Type}

/-! ## The history of a connection -/

/-- What a server has done on a connection. -/
structure Log (E : Type) where
  /-- The calls of `handle_line`: the line, and what the reply depends on besides. -/
  calls : List (E × Bytes)
  /-- The bytes accepted by the kernel. -/
  sent : Bytes
  /-- The results of the successful `recv` calls. -/
  chunks : List Bytes

namespace Log

/-- Nothing has happened. -/
def empty : Log E := ⟨[], [], []⟩

/-- `handle_line(line)` is called. -/
def call (log : Log E) (e : E) (line : Bytes) : Log E :=
  { log with calls := log.calls ++ [(e, line)] }

/-- The kernel accepts bytes. -/
def accept (log : Log E) (s : Bytes) : Log E := { log with sent := log.sent ++ s }

/-- A `recv` returns `chunk`. -/
def receive (log : Log E) (chunk : Bytes) : Log E := { log with chunks := log.chunks ++ [chunk] }

end Log

/-- The replies to a list of calls, one after the other. -/
def replies (sv : Service E) (calls : List (E × Bytes)) : Bytes :=
  (calls.map fun c => sv.reply c.1 c.2).flatten

@[simp] lemma replies_concat (sv : Service E) (calls : List (E × Bytes)) (e : E) (line : Bytes) :
    replies sv (calls ++ [(e, line)]) = replies sv calls ++ sv.reply e line := by
  simp [replies]

/-- The bytes of a list of request lines. -/
def wire (lines : List Bytes) : Bytes := (lines.map fun l => l ++ [newline]).flatten

@[simp] lemma wire_nil : wire [] = [] := rfl

@[simp] lemma wire_cons (l : Bytes) (lines : List Bytes) :
    wire (l :: lines) = l ++ newline :: wire lines := by
  simp [wire]

lemma wire_append (ls ms : List Bytes) : wire (ls ++ ms) = wire ls ++ wire ms := by
  simp [wire]

/-! ## Lines -/

/-- The first line is found when it is there. -/
lemma splitLine_append {l : Bytes} (hl : newline ∉ l) (rest : Bytes) :
    splitLine (l ++ newline :: rest) = some (l, rest) := by
  rw [splitLine, Lib.findIdx?_append_cons hl]
  simp

lemma splitLine_eq_none {s : Bytes} : splitLine s = none ↔ newline ∉ s := by
  rw [← Lib.findIdx?_eq_none_iff_not_mem, splitLine]
  cases s.findIdx? (· = newline) with
  | none => exact iff_of_true rfl rfl
  | some i => exact iff_of_false (by simp) (by simp)

/-- What is split is a line and the rest. -/
lemma splitLine_eq_some {s l rest : Bytes} (h : splitLine s = some (l, rest)) :
    s = l ++ newline :: rest ∧ newline ∉ l := by
  by_cases hmem : newline ∈ s
  · obtain ⟨l', rest', hs, hl'⟩ := List.eq_append_cons_of_mem hmem
    rw [hs, splitLine_append hl'] at h
    obtain ⟨rfl, rfl⟩ := Prod.mk.inj (Option.some.inj h)
    exact ⟨hs, hl'⟩
  · rw [splitLine_eq_none.mpr hmem] at h
    exact absurd h (by simp)

/-- A stream of lines is cut into lines in one way only. -/
lemma wire_cut {ls lines : List Bytes} {rest : Bytes} (hls : ∀ l ∈ ls, newline ∉ l)
    (hlines : ∀ l ∈ lines, newline ∉ l) (h : wire ls ++ rest = wire lines) :
    ∃ ms, lines = ls ++ ms ∧ rest = wire ms := by
  induction ls generalizing lines with
  | nil => exact ⟨lines, rfl, by simpa using h⟩
  | cons l ls ih =>
    rw [wire_cons, List.append_assoc, List.cons_append] at h
    cases lines with
    | nil => exact absurd h (by simp)
    | cons m ms =>
      have hsplit := splitLine_append (hls l List.mem_cons_self) (wire ls ++ rest)
      rw [h, wire_cons, splitLine_append (hlines m List.mem_cons_self)] at hsplit
      obtain ⟨rfl, htail⟩ := Prod.mk.inj (Option.some.inj hsplit)
      obtain ⟨ns, rfl, hrest⟩ := ih (fun x hx => hls x (List.mem_cons_of_mem _ hx))
        (fun x hx => hlines x (List.mem_cons_of_mem _ hx)) htail.symm
      exact ⟨ns, rfl, hrest⟩

/-! ## The specification -/

/-- A connection as its client may think of it. -/
structure Dialogue (E : Type) where
  /-- All bytes received. -/
  received : Bytes
  /-- The bytes received and not yet consumed. -/
  input : Bytes
  /-- The lines consumed, with what their replies depend on besides. -/
  consumed : List (E × Bytes)
  /-- The part of the last reply that the kernel has not accepted. -/
  pending : Bytes
  /-- The bytes accepted by the kernel. -/
  sent : Bytes
  closed : Bool

/-- What may happen on a connection. -/
inductive Deed (E : Type)
  | recv (chunk : Bytes)
  | answer (e : E)
  | send (n : ℕ)
  | close

namespace Dialogue

/-- The dialogue of a new connection. -/
def init : Dialogue E := ⟨[], [], [], [], [], false⟩

/-- One deed.  A line is consumed only when nothing is pending. -/
def step (sv : Service E) (d : Dialogue E) : Deed E → Option (Dialogue E)
  | .recv chunk =>
    if d.pending = [] ∧ d.closed = false then
      some { d with received := d.received ++ chunk, input := d.input ++ chunk }
    else none
  | .answer e =>
    if d.pending = [] ∧ d.closed = false then
      match splitLine d.input with
      | none => none
      | some (line, rest) =>
        some { d with
          input := rest
          consumed := d.consumed ++ [(e, line)]
          pending := sv.reply e (cString line) }
    else none
  | .send n =>
    if n ≤ d.pending.length ∧ d.closed = false then
      some { d with sent := d.sent ++ d.pending.take n, pending := d.pending.drop n }
    else none
  | .close => if d.closed then none else some { d with closed := true }

/-- `step` as a transition relation. -/
def Step (sv : Service E) (d : Dialogue E) (a : Deed E) (d' : Dialogue E) : Prop :=
  step sv d a = some d'

/-- The calls of `handle_line` for the lines consumed: each gets its line as a C string. -/
def calls (d : Dialogue E) : List (E × Bytes) := d.consumed.map fun c => (c.1, cString c.2)

/-- The bytes accepted and the pending rest are the replies; the bytes received are the
lines consumed and the input left. -/
structure Spec (sv : Service E) (d : Dialogue E) : Prop where
  replies_eq : d.sent ++ d.pending = replies sv d.calls
  received_eq : d.received = wire (d.consumed.map Prod.snd) ++ d.input
  lines : ∀ c ∈ d.consumed, newline ∉ c.2

lemma spec_step {sv : Service E} {d d' : Dialogue E} {a : Deed E} (h : Spec sv d)
    (hs : Step sv d a d') : Spec sv d' := by
  cases a with
  | recv chunk =>
    simp only [Step, step] at hs
    split at hs
    · obtain rfl := Option.some.inj hs
      refine ⟨h.replies_eq, ?_, h.lines⟩
      simp [h.received_eq]
    · exact absurd hs (by simp)
  | answer e =>
    simp only [Step, step] at hs
    split at hs
    · rename_i hidle
      split at hs
      · exact absurd hs (by simp)
      · rename_i line rest hsplit
        obtain rfl := Option.some.inj hs
        obtain ⟨hinput, hline⟩ := splitLine_eq_some hsplit
        have hsent := h.replies_eq
        rw [hidle.1, List.append_nil] at hsent
        refine ⟨?_, ?_, ?_⟩
        · simp only [calls, List.map_append, List.map_cons, List.map_nil, replies_concat]
          rw [hsent]
          rfl
        · simp [h.received_eq, hinput, wire_append]
        · intro c hc
          rcases List.mem_append.mp hc with hc | hc
          · exact h.lines c hc
          · rw [List.mem_singleton.mp hc]; exact hline
    · exact absurd hs (by simp)
  | send n =>
    simp only [Step, step] at hs
    split at hs
    · obtain rfl := Option.some.inj hs
      refine ⟨?_, h.received_eq, h.lines⟩
      rw [List.append_assoc, List.take_append_drop]
      exact h.replies_eq
    · exact absurd hs (by simp)
  | close =>
    simp only [Step, step] at hs
    split at hs
    · exact absurd hs (by simp)
    · obtain rfl := Option.some.inj hs
      exact ⟨h.replies_eq, h.received_eq, h.lines⟩

/-- **The specification holds along every run.** -/
lemma run_spec {sv : Service E} {as : List (Deed E)} {d : Dialogue E}
    (h : Run (Step sv) init as d) : Spec sv d :=
  h.invariant ⟨rfl, rfl, fun _ hc => absurd hc (by simp [init])⟩ fun _ _ _ hd hs => spec_step hd hs

end Dialogue

end TickPlant
