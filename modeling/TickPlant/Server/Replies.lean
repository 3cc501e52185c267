/-
# The bytes sent are the replies

Both event loops, the one on epoll and the one on io_uring, are refinements of the
specification `Dialogue`, whatever events, partial sends and failures the kernel reports.
So at every moment the bytes accepted on a connection are an initial part of the replies to
the lines consumed, in order, and the next line is consumed only when they are all of it.
For the io_uring server, whose loop serves many connections at once, the connections of
every reachable state of the loop are covered.
-/
import TickPlant.Server.Epoll
import TickPlant.Server.UringLoop

namespace TickPlant

open Lib

variable {E : Type} {sv : Service E}

/-- The bytes accepted are an initial part of the replies, and the buffers are those of a
run of the specification. -/
def RepliesInOrder (sv : Service E) (c : Channel E) (closed : Bool) : Prop :=
  c.log.sent <+: replies sv c.log.calls ∧
    ∃ as d, Run (Dialogue.Step sv) Dialogue.init as d ∧ c.Represents closed d

/-- The bytes accepted are all of the replies. -/
def AllAccepted (sv : Service E) (c : Channel E) : Prop := c.log.sent = replies sv c.log.calls

/-- What a run of the specification says about the buffers. -/
lemma Channel.Represents.inOrder {c : Channel E} {closed : Bool} {as : List (Deed E)}
    {d : Dialogue E} (h : c.Represents closed d) (hd : Run (Dialogue.Step sv) .init as d) :
    RepliesInOrder sv c closed :=
  ⟨⟨c.unsent, h.replies (Dialogue.run_spec hd)⟩, as, d, hd, h⟩

lemma Channel.Represents.allAccepted {c : Channel E} {closed : Bool} {as : List (Deed E)}
    {d : Dialogue E} (h : c.Represents closed d) (hd : Run (Dialogue.Step sv) .init as d)
    (hout : c.unsent = []) : AllAccepted sv c := by
  have := h.replies (Dialogue.run_spec hd)
  rwa [hout, List.append_nil] at this

/-- An epoll connection. -/
lemma epoll_inOrder {ls : List (Epoll.Label E)} {c : Epoll.Conn E}
    (hrun : Run (Epoll.Step sv) .new ls c) :
    RepliesInOrder sv c.chan c.isClosed ∧
      ∀ l c', Epoll.Step sv c l c' → c'.chan.log.calls ≠ c.chan.log.calls →
        AllAccepted sv c.chan := by
  obtain ⟨as, d, hd, hrep, hidle⟩ := Epoll.simulates hrun
  exact ⟨hrep.inOrder hd, fun _ _ hs hcall =>
    hrep.allAccepted hd (Epoll.unsent_of_call hidle hs hcall)⟩

/-- An io_uring connection. -/
lemma uring_inOrder {rs : List (Uring.Result E)} {c : Uring.Conn E}
    (hrun : Run (Uring.Conn.Step sv) .new rs c) :
    RepliesInOrder sv c.chan c.op.isNone ∧
      ∀ r c', Uring.Conn.Step sv c r c' → c'.chan.log.calls ≠ c.chan.log.calls →
        AllAccepted sv c.chan := by
  obtain ⟨as, d, hd, hrep, hidle⟩ := Uring.simulates hrun
  exact ⟨hrep.inOrder hd, fun _ _ hs hcall =>
    hrep.allAccepted hd (Uring.unsent_of_call hidle hs hcall)⟩

/-- Every connection of the io_uring loop is a run of a single connection. -/
lemma uring_conn_run {serverFd : Uring.Fd} {ls : List (Uring.Label E)} {s : Uring.State E}
    (hrun : Run (Uring.Step sv) (.init serverFd) ls s) {fd : Uring.Fd} {c : Channel E}
    (hc : s.conns.lookup fd = some c) :
    ∃ op rs, Run (Uring.Conn.Step sv) .new rs ⟨c, some op⟩ := by
  have h := Uring.sound_run hrun
  have hfd : fd ∈ s.conns := AList.lookup_isSome.mp (by rw [hc]; rfl)
  have hpos : 0 < s.outstanding.countP (Uring.Sqe.isOn · fd) := by
    rw [h.one_op fd hfd]; exact Nat.one_pos
  obtain ⟨q, hq, hon⟩ := List.countP_pos_iff.mp hpos
  simp only [Uring.Sqe.isOn, ne_eq, Bool.and_eq_true, decide_eq_true_eq] at hon
  have hop : q.op ≠ .accept := by simpa using hon.1
  have hchan : q.chan = some c := by rw [← h.untouched q hq hop, hon.2, hc]
  obtain ⟨rs, hrs⟩ := h.runs q hq hop c hchan
  exact ⟨q.op, rs, hrs⟩

/-- **Both servers send the replies in order.**  On every connection of the epoll and of the
io_uring server, at every moment of every run, the bytes accepted by the kernel are an
initial part of the replies to the lines consumed, the buffers represent a state of the
common specification `Dialogue` reached by a run of it, and a step that consumes a line is
taken only when all the replies before have been accepted in full.  Every connection of the
io_uring loop is such a connection. -/
theorem servers_refine_dialogue (sv : Service E) :
    (∀ (ls : List (Epoll.Label E)) (c : Epoll.Conn E), Run (Epoll.Step sv) .new ls c →
      RepliesInOrder sv c.chan c.isClosed ∧
        ∀ l c', Epoll.Step sv c l c' → c'.chan.log.calls ≠ c.chan.log.calls →
          AllAccepted sv c.chan) ∧
    (∀ (rs : List (Uring.Result E)) (c : Uring.Conn E), Run (Uring.Conn.Step sv) .new rs c →
      RepliesInOrder sv c.chan c.op.isNone ∧
        ∀ r c', Uring.Conn.Step sv c r c' → c'.chan.log.calls ≠ c.chan.log.calls →
          AllAccepted sv c.chan) ∧
    ∀ (serverFd : Uring.Fd) (ls : List (Uring.Label E)) (s : Uring.State E),
      Run (Uring.Step sv) (.init serverFd) ls s → ∀ fd c, s.conns.lookup fd = some c →
        ∃ op rs, Run (Uring.Conn.Step sv) .new rs ⟨c, some op⟩ :=
  ⟨fun _ _ hrun => epoll_inOrder hrun, fun _ _ hrun => uring_inOrder hrun,
    fun _ _ _ hrun _ _ hc => uring_conn_run hrun hc⟩

end TickPlant
