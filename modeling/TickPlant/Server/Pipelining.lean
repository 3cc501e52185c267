/-
# Pipelined requests

A client may send several request lines without waiting for the replies, and TCP may hand
them to the server in any segments.  All three servers move the bytes after a line to the
front of the buffer, but look at them again only after the next `recv`: two lines that
arrive in one segment and are followed by no more bytes get one reply.

Every line is answered exactly when no final part of the sequence of `recv` results has more
newlines than results.
-/
import TickPlant.Server.Epoll
import TickPlant.Server.UringLoop
import TickPlant.Server.Simple

namespace TickPlant

open Lib

variable {E : Type} {sv : Service E} {lines : List Bytes}

/-- Every line has been handed to `handle_line`, in order, and the bytes sent are the
replies. -/
def Served (sv : Service E) (lines : List Bytes) (log : Log E) : Prop :=
  log.calls.map Prod.snd = lines ∧ log.sent = replies sv log.calls

/-- What is shown of a server, for a connection on which nothing but an initial part of the
lines has been received: the connection is open, and once all bytes have been received and
no send is pending, every line has been answered exactly when no final part of the `recv`
results has more newlines than results. -/
def AnswersIfKeepsUp (sv : Service E) (lines : List Bytes) (log : Log E)
    (isOpen idle : Prop) : Prop :=
  log.chunks.flatten <+: wire lines →
    isOpen ∧ (log.chunks.flatten = wire lines → idle →
      (Served sv lines log ↔ KeepsUp (newlines log.chunks)))

/-- The argument common to the servers. -/
lemma answersIfKeepsUp {log : Log E} {b : LineBuffer} {isOpen idle : Prop}
    (hlines : RequestLines lines)
    (habs : (log.calls.map Prod.snd, b.valid) = absorbed log.chunks)
    (hclosed : ¬ isOpen → 511 ≤ b.len ∧ newline ∉ b.valid)
    (hsent : idle → log.sent = replies sv log.calls) :
    AnswersIfKeepsUp sv lines log isOpen idle := by
  intro hpre
  refine ⟨?_, ?_⟩
  · by_contra hne
    obtain ⟨hfull, hnl⟩ := hclosed hne
    have hvalid : b.valid = (absorbed log.chunks).2 := by rw [← habs]
    refine hnl (hvalid ▸ newline_mem_of_full hlines hpre ?_)
    rw [← hvalid, LineBuffer.length_valid]
    exact hfull
  · intro hstream hidle
    rw [Served, and_iff_left (hsent hidle), ← absorbed_all_iff hlines hstream, ← habs]

/-- An epoll connection without failures. -/
lemma epoll_answers {ls : List (Epoll.Label E)} {c : Epoll.Conn E} (hlines : RequestLines lines)
    (hrun : Run (Epoll.Step sv) .new ls c) (hls : ∀ l ∈ ls, l.Benign) :
    AnswersIfKeepsUp sv lines c.chan.log (c.phase ≠ .closed) (c.state = .reading) := by
  have hinput : Epoll.Input c := hrun.invariant_of_labels hls
    ⟨Channel.absorbs_new, Nat.zero_le _⟩ fun _ _ _ h hs hl => Epoll.input_step h hs hl
  obtain ⟨as, d, hd, hrep, hidle⟩ := Epoll.simulates hrun
  refine answersIfKeepsUp hlines hinput.absorbs ?_ ?_
  · intro hclosed
    have := hinput.healthy
    rwa [Epoll.Healthy, not_not.mp hclosed] at this
  · intro hreading
    have := hrep.replies (Dialogue.run_spec hd)
    rwa [hidle.reading hreading, List.append_nil] at this

/-- An io_uring connection without failures. -/
lemma uring_answers {rs : List (Uring.Result E)} {c : Uring.Conn E} (hlines : RequestLines lines)
    (hrun : Run (Uring.Conn.Step sv) .new rs c) (hrs : ∀ r ∈ rs, r ≠ .failed) :
    AnswersIfKeepsUp sv lines c.chan.log (c.op ≠ none) (c.op = some .recv) := by
  have hinput : Uring.Input c := hrun.invariant_of_labels hrs
    ⟨Channel.absorbs_new, Nat.zero_le _⟩ fun _ _ _ h hs hr => Uring.input_step h hs hr
  obtain ⟨as, d, hd, hrep, hidle⟩ := Uring.simulates hrun
  refine answersIfKeepsUp hlines hinput.absorbs ?_ ?_
  · intro hclosed
    have := hinput.healthy
    rwa [Uring.Healthy, not_not.mp hclosed] at this
  · intro hrecv
    have := hrep.replies (Dialogue.run_spec hd)
    rwa [hidle hrecv, List.append_nil] at this

/-- A client of the simple server without failures. -/
lemma simple_answers {b : LineBuffer} {ls : List (Simple.Label E)} {c : Simple.Client E}
    (hlines : RequestLines lines) (hrun : Run (Simple.Step sv) (.new b) ls c)
    (hls : ∀ l ∈ ls, l.Benign) :
    AnswersIfKeepsUp sv lines c.log (c.closed = false) True := by
  have hinv : Simple.Inv sv c := hrun.invariant_of_labels hls (Simple.inv_new sv b)
    fun _ _ _ h hs hl => Simple.inv_step h hs hl
  exact answersIfKeepsUp hlines hinv.absorbs (fun h => hinv.healthy (by simpa using h))
    fun _ => hinv.sent

/-- **When pipelined requests are answered.**  For each of the three servers, every list of
request lines and every connection without failures: the connection stays open, and once all
bytes have been received and no send is pending, the server has sent exactly one reply per
line, in order, if and only if no final part of the sequence of `recv` results has more
newlines than results. -/
theorem pipelining_iff (sv : Service E) (lines : List Bytes) (hlines : RequestLines lines) :
    (∀ (ls : List (Epoll.Label E)) (c : Epoll.Conn E), Run (Epoll.Step sv) .new ls c →
      (∀ l ∈ ls, l.Benign) →
        AnswersIfKeepsUp sv lines c.chan.log (c.phase ≠ .closed) (c.state = .reading)) ∧
      (∀ (rs : List (Uring.Result E)) (c : Uring.Conn E), Run (Uring.Conn.Step sv) .new rs c →
        (∀ r ∈ rs, r ≠ .failed) →
          AnswersIfKeepsUp sv lines c.chan.log (c.op ≠ none) (c.op = some .recv)) ∧
      (∀ (b : LineBuffer) (ls : List (Simple.Label E)) (c : Simple.Client E),
        Run (Simple.Step sv) (.new b) ls c → (∀ l ∈ ls, l.Benign) →
          AnswersIfKeepsUp sv lines c.log (c.closed = false) True) :=
  ⟨fun _ _ hrun hls => epoll_answers hlines hrun hls,
    fun _ _ hrun hrs => uring_answers hlines hrun hrs,
    fun _ _ _ hrun hls => simple_answers hlines hrun hls⟩

/-! ## Two lines in one segment -/

/-- Two requests. -/
def twoLines : List Bytes := [bytes "HEALTH", bytes "SNAPSHOT BTC"]

/-- They arrive in two segments, cut within the second request; the epoll server sends the first
reply in two parts. -/
def twoSegments : List (Epoll.Label QueryEnv) :=
  [.event false true false, .recv (.data (bytes "HEALTH\nSNAP")) bareEnv, .event false false true,
    .send (.accepted 10),
    .send (.accepted ((handleLine bareEnv (bytes "HEALTH")).length - 10)),
    .event false true false, .recv (.data (bytes "SHOT BTC\n")) bareEnv, .event false false true,
    .send (.accepted (handleLine bareEnv (bytes "SNAPSHOT BTC")).length)]

/-- The epoll server after that. -/
def afterTwoSegments : Epoll.Conn QueryEnv :=
  (twoSegments.foldlM (Epoll.step queryService) .new).get (by decide +kernel)

/-- Both requests are answered. -/
theorem pipelining_iff_twoLines :
    RequestLines twoLines ∧ Served queryService twoLines afterTwoSegments.chan.log := by
  have hlines : RequestLines twoLines := ⟨by decide +kernel, by decide +kernel, by decide +kernel⟩
  have hstream : afterTwoSegments.chan.log.chunks.flatten = wire twoLines := by decide +kernel
  have hkeeps : KeepsUp (newlines afterTwoSegments.chan.log.chunks) :=
    (backlog_eq_zero (q := 0)).mp (by decide +kernel) |>.1
  have hepoll := (pipelining_iff queryService twoLines hlines).1 twoSegments afterTwoSegments
    (.of_foldlM (Option.some_get _).symm) (by simp [twoSegments, Epoll.Label.Benign])
  exact ⟨hlines, ((hepoll (hstream ▸ List.prefix_rfl)).2 hstream (by decide +kernel)).mpr hkeeps⟩

/-- Two requests for the health. -/
def twoHealth : List Bytes := [bytes "HEALTH", bytes "HEALTH"]

/-- Two requests in one segment, and the reply to the first one, at the epoll server. -/
def epollSegment : List (Epoll.Label QueryEnv) :=
  [.event false true false, .recv (.data (wire twoHealth)) bareEnv, .event false false true,
    .send (.accepted (handleLine bareEnv (bytes "HEALTH")).length)]

/-- The same at the io_uring server. -/
def uringSegment : List (Uring.Result QueryEnv) :=
  [.data (wire twoHealth) bareEnv, .sent (handleLine bareEnv (bytes "HEALTH")).length]

/-- The same at the simple server. -/
def simpleSegment : List (Simple.Label QueryEnv) := [.recv (wire twoHealth) bareEnv 0]

/-- All three servers leave the second of two requests that arrive together unanswered. -/
theorem pipelined_request_unanswered :
    (∃ c, Run (Epoll.Step queryService) .new epollSegment c ∧ (∀ l ∈ epollSegment, l.Benign) ∧
      c.chan.log.chunks.flatten = wire twoHealth ∧ c.phase = .wait ∧ c.state = .reading ∧
      ¬ Served queryService twoHealth c.chan.log) ∧
    (∃ c, Run (Uring.Conn.Step queryService) .new uringSegment c ∧
      (∀ r ∈ uringSegment, r ≠ .failed) ∧ c.chan.log.chunks.flatten = wire twoHealth ∧
      c.op = some .recv ∧ ¬ Served queryService twoHealth c.chan.log) ∧
    ∃ c, Run (Simple.Step queryService) (.new .empty) simpleSegment c ∧
      (∀ l ∈ simpleSegment, l.Benign) ∧ c.log.chunks.flatten = wire twoHealth ∧
      c.closed = false ∧ ¬ Served queryService twoHealth c.log := by
  refine ⟨⟨(epollSegment.foldlM (Epoll.step queryService) .new).get (by decide +kernel),
      .of_foldlM (Option.some_get _).symm, by simp [epollSegment, Epoll.Label.Benign],
      by decide +kernel, by decide +kernel, by decide +kernel, ?_⟩,
    ⟨(uringSegment.foldlM (Uring.Conn.step queryService) .new).get (by decide +kernel),
      .of_foldlM (Option.some_get _).symm, by simp [uringSegment],
      by decide +kernel, by decide +kernel, ?_⟩,
    (simpleSegment.foldlM (Simple.step queryService) (.new .empty)).get (by decide +kernel),
      .of_foldlM (Option.some_get _).symm, by simp [simpleSegment, Simple.Label.Benign],
      by decide +kernel, by decide +kernel, ?_⟩
  all_goals exact fun h => absurd h.1 (by decide +kernel)

end TickPlant
