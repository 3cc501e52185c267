/-
# The simple server

A client of `SimpleQueryServer::handle_client`, which runs on a thread of its own with
blocking calls: receive, look for a line, send the reply, move the rest to the front.  The
result of the `send` is ignored, so the bytes of a reply that it does not take are lost.
-/
import TickPlant.Server.Channel

namespace TickPlant.Simple

open Lib

variable {E : Type} {sv : Service E}

/-- One turn of the loop, by the answers of the kernel. -/
inductive Label (E : Type)
  /-- The `recv` returns bytes.  If they complete a line, `e` is what the reply depends on
  and `lost` the number of bytes that the `send` does not take. -/
  | recv (chunk : Bytes) (e : E) (lost : ℕ)
  /-- The `recv` reports an error, a timeout or the end of the stream. -/
  | failed

/-- The locals of `handle_client`, with the history of the connection. -/
structure Client (E : Type) where
  buf : LineBuffer
  closed : Bool
  log : Log E

/-- The buffer starts with whatever bytes are on the stack. -/
def Client.new (b : LineBuffer) : Client E := ⟨b.clear, false, .empty⟩

/-- One turn of the loop; `none` when the answer is not a possible one. -/
def step (sv : Service E) (c : Client E) : Label E → Option (Client E)
  | .failed => if c.closed then none else some { c with closed := true }
  | .recv chunk e lost =>
    if c.closed then none
    else
      match c.buf.recv chunk with
      | none => none
      | some b =>
        let b := b.terminate
        let log := c.log.receive chunk
        match b.takeLine with
        | none => some { buf := b, closed := decide (b.len ≥ 512 - 1), log := log }
        | some (line, rest) =>
          let resp := sv.reply e line
          some
            { buf := rest
              closed := false
              log := (log.call e line).accept (resp.take (resp.length - lost)) }

/-- `step` as a transition relation. -/
def Step (sv : Service E) (c : Client E) (l : Label E) (c' : Client E) : Prop :=
  step sv c l = some c'

/-! ## The lines consumed -/

/-- The `recv` succeeds, and the `send` takes the whole reply. -/
def Label.Benign : Label E → Prop
  | .recv _ _ lost => lost = 0
  | .failed => False

/-- The invariant of a connection without failures. -/
structure Inv (sv : Service E) (c : Client E) : Prop where
  absorbs : (c.log.calls.map Prod.snd, c.buf.valid) = absorbed c.log.chunks
  sent : c.log.sent = replies sv c.log.calls
  /-- The server closes the connection only on a full buffer without a newline. -/
  healthy : c.closed = true → 511 ≤ c.buf.len ∧ newline ∉ c.buf.valid

lemma inv_new (sv : Service E) (b : LineBuffer) : Inv sv (Client.new b) where
  absorbs := rfl
  sent := rfl
  healthy := fun h => absurd h (by simp [Client.new])

/-- **A turn without failures keeps the invariant.** -/
lemma inv_step {c c' : Client E} {l : Label E} (h : Inv sv c) (hs : Step sv c l c')
    (hl : l.Benign) : Inv sv c' := by
  cases l with
  | failed => exact hl.elim
  | recv chunk e lost =>
    obtain rfl : lost = 0 := hl
    simp only [Step, step] at hs
    split at hs
    · exact absurd hs (by simp)
    · split at hs
      · exact absurd hs (by simp)
      · rename_i b hrecv
        have habs := h.absorbs
        have hvalid := (LineBuffer.valid_recv hrecv).1
        split at hs
        · rename_i hline
          have hsplit := LineBuffer.takeLine_eq_none hline
          rw [LineBuffer.valid_terminate, hvalid] at hsplit
          obtain rfl := Option.some.inj hs
          refine ⟨?_, h.sent, ?_⟩
          · simp only [Log.receive, LineBuffer.valid_terminate, hvalid]
            rw [absorbed_concat, ← habs, absorb_none hsplit]
          · intro hfull
            rw [LineBuffer.valid_terminate, hvalid]
            exact ⟨of_decide_eq_true hfull, splitLine_eq_none.mp hsplit⟩
        · -- one line is taken out of the buffer even if more are there
          rename_i line rest hline
          obtain ⟨raw, hsplit, rfl⟩ := LineBuffer.takeLine_eq_some hline
          rw [LineBuffer.valid_terminate, hvalid] at hsplit
          obtain rfl := Option.some.inj hs
          refine ⟨?_, ?_, fun hc => absurd hc (by simp)⟩
          · simp only [Log.accept, Log.call, Log.receive, List.map_append, List.map_cons,
              List.map_nil]
            rw [absorbed_concat, ← habs, absorb_some hsplit]
          · simp [Log.accept, Log.call, Log.receive, h.sent]

end TickPlant.Simple
