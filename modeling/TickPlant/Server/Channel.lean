/-
# The buffers of a connection

The epoll and the io_uring server keep the same buffers for a connection (`struct Conn`):
the input buffer, the current reply `outbuf` and the position `outpos` up to which the
kernel has accepted it.  This file has the operations that both event loops perform on
them, and what each operation means for the specification `Dialogue` and for the lines
consumed (`absorbed`).
-/
import TickPlant.Server.Segmentation

namespace TickPlant

open Lib

variable {E : Type}

/-- The buffers of `struct Conn`, with the history of the connection. -/
structure Channel (E : Type) where
  inbuf : LineBuffer
  outbuf : Bytes
  outpos : ℕ
  log : Log E

namespace Channel

/-- `Conn{}`. -/
def new : Channel E := ⟨.empty, [], 0, .empty⟩

/-- The part of the reply that has not been accepted. -/
def unsent (c : Channel E) : Bytes := c.outbuf.drop c.outpos

/-- A `recv` returns `chunk`; `none` when this is not a possible result. -/
def receive (c : Channel E) (chunk : Bytes) : Option (Channel E) :=
  match c.inbuf.recv chunk with
  | none => none
  | some b => some { c with inbuf := b, log := c.log.receive chunk }

/-- The reply to the first line in the buffer becomes the output; `none` when there is no
complete line. -/
def answer (sv : Service E) (e : E) (c : Channel E) : Option (Channel E) :=
  match c.inbuf.takeLine with
  | none => none
  | some (line, b) =>
    some { inbuf := b, outbuf := sv.reply e line, outpos := 0, log := c.log.call e line }

/-- The kernel accepts the next `n` bytes of the output. -/
def accept (c : Channel E) (n : ℕ) : Channel E :=
  { c with outpos := c.outpos + n, log := c.log.accept (c.unsent.take n) }

/-- `outbuf.clear(); outpos = 0;` -/
def clearOut (c : Channel E) : Channel E := { c with outbuf := [], outpos := 0 }

@[simp] lemma unsent_accept (c : Channel E) (n : ℕ) : (c.accept n).unsent = c.unsent.drop n := by
  simp [accept, unsent]

/-! ## The lines consumed -/

/-- The lines handed to `handle_line` and the bytes in the buffer are those of `absorbed`. -/
def Absorbs (c : Channel E) : Prop :=
  (c.log.calls.map Prod.snd, c.inbuf.valid) = absorbed c.log.chunks

lemma absorbs_new : Absorbs (new : Channel E) := rfl

lemma Absorbs.accept {c : Channel E} (h : c.Absorbs) (n : ℕ) : (c.accept n).Absorbs := h

lemma Absorbs.clearOut {c : Channel E} (h : c.Absorbs) : c.clearOut.Absorbs := h

/-- What a buffer holds after a `recv`. -/
lemma valid_receive {c c₁ : Channel E} {chunk : Bytes} (h : c.receive chunk = some c₁) :
    c₁.inbuf.valid = c.inbuf.valid ++ chunk ∧ c₁.outbuf = c.outbuf ∧ c₁.outpos = c.outpos ∧
      c₁.log = c.log.receive chunk := by
  rw [receive] at h
  split at h
  · exact absurd h (by simp)
  · rename_i b hb
    obtain rfl := Option.some.inj h
    exact ⟨(LineBuffer.valid_recv hb).1, rfl, rfl, rfl⟩

/-- A `recv` leaves the output alone. -/
lemma unsent_receive {c c₁ : Channel E} {chunk : Bytes} (h : c.receive chunk = some c₁) :
    c₁.unsent = c.unsent := by
  obtain ⟨-, hout, hpos, -⟩ := valid_receive h
  rw [unsent, unsent, hout, hpos]

/-- No line is found when there is no newline. -/
lemma answer_eq_none {sv : Service E} {e : E} {c : Channel E} (h : c.answer sv e = none) :
    splitLine c.inbuf.valid = none := by
  rw [answer] at h
  split at h
  · rename_i hline
    exact LineBuffer.takeLine_eq_none hline
  · exact absurd h (by simp)

/-- The line that is found, and what is left. -/
lemma answer_eq_some {sv : Service E} {e : E} {c c₂ : Channel E}
    (h : c.answer sv e = some c₂) :
    ∃ raw, splitLine c.inbuf.valid = some (raw, c₂.inbuf.valid) ∧
      c₂.outbuf = sv.reply e (cString raw) ∧ c₂.outpos = 0 ∧
      c₂.log = c.log.call e (cString raw) := by
  rw [answer] at h
  split at h
  · exact absurd h (by simp)
  · rename_i line b hline
    obtain ⟨raw, hsplit, rfl⟩ := LineBuffer.takeLine_eq_some hline
    obtain rfl := Option.some.inj h
    exact ⟨raw, hsplit, rfl, rfl, rfl⟩

/-- After a line has been consumed the buffer is not full. -/
lemma len_answer {sv : Service E} {e : E} {c c₂ : Channel E} (h : c.answer sv e = some c₂) :
    c₂.inbuf.len ≤ 510 := by
  obtain ⟨raw, hsplit, -⟩ := answer_eq_some h
  -- the line's newline at least has left the buffer
  have hlen := congrArg List.length (splitLine_eq_some hsplit).1
  have hle := c.inbuf.len_le
  rw [List.length_append, List.length_cons, LineBuffer.length_valid,
    LineBuffer.length_valid] at hlen
  omega

/-- A `recv` that completes no line. -/
lemma Absorbs.receive_none {sv : Service E} {e : E} {c c₁ : Channel E} {chunk : Bytes}
    (h : c.Absorbs) (hr : c.receive chunk = some c₁) (ha : c₁.answer sv e = none) :
    c₁.Absorbs := by
  obtain ⟨hvalid, -, -, hlog⟩ := valid_receive hr
  have hsplit := answer_eq_none ha
  rw [hvalid] at hsplit
  rw [Absorbs] at h ⊢
  rw [hlog, Log.receive, absorbed_concat, ← h, absorb_none hsplit, hvalid]

/-- A `recv` after which a line is consumed. -/
lemma Absorbs.receive_some {sv : Service E} {e : E} {c c₁ c₂ : Channel E} {chunk : Bytes}
    (h : c.Absorbs) (hr : c.receive chunk = some c₁) (ha : c₁.answer sv e = some c₂) :
    c₂.Absorbs := by
  obtain ⟨hvalid, -, -, hlog⟩ := valid_receive hr
  obtain ⟨raw, hsplit, -, -, hlog'⟩ := answer_eq_some ha
  rw [hvalid] at hsplit
  rw [Absorbs] at h ⊢
  rw [hlog', hlog]
  simp only [Log.call, Log.receive, List.map_append, List.map_cons, List.map_nil]
  rw [absorbed_concat, ← h, absorb_some hsplit]

/-! ## The specification -/

/-- The buffers represent the state of a dialogue. -/
structure Represents (c : Channel E) (closed : Bool) (d : Dialogue E) : Prop where
  input : d.input = c.inbuf.valid
  pending : d.pending = c.unsent
  sent : d.sent = c.log.sent
  received : d.received = c.log.chunks.flatten
  calls : d.calls = c.log.calls
  closed : d.closed = closed

lemma represents_new : Represents (new : Channel E) false Dialogue.init :=
  ⟨rfl, rfl, rfl, rfl, rfl, rfl⟩

lemma Represents.receive (sv : Service E) {c c₁ : Channel E} {d : Dialogue E} {chunk : Bytes}
    (h : c.Represents false d) (hidle : c.unsent = []) (hr : c.receive chunk = some c₁) :
    ∃ d', Dialogue.Step sv d (.recv chunk) d' ∧ c₁.Represents false d' := by
  obtain ⟨hvalid, hout, hpos, hlog⟩ := valid_receive hr
  refine ⟨_, if_pos ⟨h.pending.trans hidle, h.closed⟩, ?_, ?_, ?_, ?_, ?_, h.closed⟩
  · rw [hvalid, ← h.input]
  · rw [unsent, hout, hpos]; exact h.pending
  · rw [hlog]; exact h.sent
  · rw [hlog, Log.receive, List.flatten_append, ← h.received]
    simp
  · rw [hlog]; exact h.calls

lemma Represents.answer {sv : Service E} {e : E} {c c₂ : Channel E} {d : Dialogue E}
    (h : c.Represents false d) (hidle : c.unsent = []) (ha : c.answer sv e = some c₂) :
    ∃ d', Dialogue.Step sv d (.answer e) d' ∧ c₂.Represents false d' := by
  obtain ⟨raw, hsplit, hout, hpos, hlog⟩ := answer_eq_some ha
  have hstep : Dialogue.Step sv d (.answer e)
      { d with
        input := c₂.inbuf.valid
        consumed := d.consumed ++ [(e, raw)]
        pending := sv.reply e (cString raw) } := by
    rw [Dialogue.Step, Dialogue.step, if_pos ⟨h.pending.trans hidle, h.closed⟩, h.input, hsplit]
  refine ⟨_, hstep, rfl, ?_, ?_, ?_, ?_, h.closed⟩
  · rw [unsent, hout, hpos]; rfl
  · rw [hlog]; exact h.sent
  · rw [hlog]; exact h.received
  · rw [hlog, Log.call, ← h.calls]
    simp [Dialogue.calls]

lemma Represents.accept (sv : Service E) {c : Channel E} {d : Dialogue E} {n : ℕ}
    (h : c.Represents false d) (hn : n ≤ c.unsent.length) :
    ∃ d', Dialogue.Step sv d (.send n) d' ∧ (c.accept n).Represents false d' := by
  refine ⟨_, if_pos ⟨by rw [h.pending]; exact hn, h.closed⟩, h.input, ?_, ?_, h.received, h.calls,
    h.closed⟩
  · rw [unsent_accept, h.pending]
  · show d.sent ++ d.pending.take n = c.log.sent ++ c.unsent.take n
    rw [h.sent, h.pending]

lemma Represents.clearOut {c : Channel E} {d : Dialogue E} {b : Bool} (h : c.Represents b d)
    (hidle : c.unsent = []) : c.clearOut.Represents b d :=
  ⟨h.input, h.pending.trans hidle, h.sent, h.received, h.calls, h.closed⟩

lemma Represents.close (sv : Service E) {c : Channel E} {d : Dialogue E}
    (h : c.Represents false d) :
    ∃ d', Dialogue.Step sv d .close d' ∧ c.Represents true d' :=
  ⟨{ d with closed := true }, if_neg (by simp [h.closed]), h.input, h.pending, h.sent, h.received,
    h.calls, rfl⟩

/-- The bytes accepted are an initial part of the replies, and all of them when nothing is
left of the last reply. -/
lemma Represents.replies {sv : Service E} {c : Channel E} {b : Bool} {d : Dialogue E}
    (h : c.Represents b d) (hspec : d.Spec sv) :
    c.log.sent ++ c.unsent = TickPlant.replies sv c.log.calls := by
  rw [← h.sent, ← h.pending, ← h.calls]
  exact hspec.replies_eq

end Channel

end TickPlant
