/-
# The clients

`RemoteDataSource::send_command` opens a connection for each command, sends the line and reads
until a chunk ends in a newline.  The benchmark client keeps one connection, sends the same
request again and again and reads a line after each; what it finds behind the newline in a
chunk it drops.

Neither looks at where a reply ends: both rely on the server to answer a line with one line and
to send nothing unasked.  That is what is used here of the server, so the results hold for each
of the three, for any segmentation of the two streams and for connections that fail at any
point.
-/
import TickPlant.Server.Link
import TickPlant.Report.OneLine

namespace TickPlant

open Lib

variable {E : Type} {sv : Service E}

/-! ## Replies of one line -/

/-- A reply of one line has its newline at the end and nowhere else. -/
lemma OneLine.eq_append {reply : Bytes} (h : OneLine reply) :
    ∃ body, reply = body ++ [newline] ∧ newline ∉ body := by
  obtain ⟨body, rfl⟩ := List.getLast?_eq_some_iff.mp h.2
  refine ⟨body, rfl, ?_⟩
  have hcount : (body ++ [newline]).count newline = 1 := h.1
  rw [List.count_append, List.count_singleton_self] at hcount
  exact List.count_eq_zero.mp (show body.count newline = 0 from by omega)

/-- A part of a reply that has the newline is all of it. -/
lemma OneLine.eq_of_prefix {reply p : Bytes} (h : OneLine reply) (hp : p <+: reply)
    (hnl : newline ∈ p) : p = reply := by
  obtain ⟨body, rfl, hbody⟩ := h.eq_append
  rcases List.prefix_concat_iff.mp hp with rfl | hp
  · rfl
  · exact absurd (hp.subset hnl) hbody

/-- All replies to these calls have one line. -/
def OneLiners (sv : Service E) (calls : List (E × Bytes)) : Prop :=
  ∀ c ∈ calls, OneLine (sv.reply c.1 c.2)

lemma OneLiners.mono {calls calls' : List (E × Bytes)} (h : OneLiners sv calls')
    (hp : calls <+: calls') : OneLiners sv calls :=
  fun c hc => h c (hp.subset hc)

/-! ## `send_command` -/

namespace SendCommand

/-- Where `send_command` stands. -/
inductive State
  /-- Before `connect` has succeeded. -/
  | connecting
  | sending
  | receiving (resp : Bytes)
  /-- `send_command` has returned. -/
  | done (resp : Bytes)
deriving DecidableEq, Repr

/-- The answers of the kernel. -/
inductive Label
  | connected
  /-- The `send` takes the first `n` bytes. -/
  | sent (n : ℕ)
  | data (chunk : Bytes)
  /-- An error, a timeout or the end of the stream. -/
  | failed
deriving DecidableEq, Repr

/-- `if (!resp.empty() && resp.back() == '\n') resp.pop_back();` -/
def strip (resp : Bytes) : Bytes :=
  if resp.getLast? = some newline then resp.dropLast else resp

/-- One call of `send_command`. -/
def step (cmd : Bytes) : State → Label → Option (State × Bytes × Bytes)
  | .connecting, .connected => some (.sending, [], [])
  | .connecting, .failed => some (.done [], [], [])
  | .sending, .sent n =>
    let req := cmd ++ [newline]
    if n ≤ req.length then some (.receiving [], req.take n, []) else none
  | .sending, .failed => some (.done [], [], [])
  | .receiving resp, .data chunk =>
    if chunk ≠ [] ∧ chunk.length ≤ 4096 then
      let resp := resp ++ chunk
      if resp.getLast? = some newline then some (.done (strip resp), [], chunk)
      else some (.receiving resp, [], chunk)
    else none
  | .receiving resp, .failed => some (.done (strip resp), [], [])
  | _, _ => none

/-- `RemoteDataSource::send_command`. -/
def program (cmd : Bytes) : ClientProgram := ⟨State, Label, .connecting, step cmd⟩

lemma step_program (cmd : Bytes) : (program cmd).step = step cmd := rfl

/-- What has been sent and taken, by the state of the call. -/
def Told (cmd said heard : Bytes) : State → Prop
  | .connecting | .sending => said = [] ∧ heard = []
  | .receiving resp => said <+: cmd ++ [newline] ∧ heard = resp ∧ resp.getLast? ≠ some newline
  | .done resp => said <+: cmd ++ [newline] ∧
      (heard = resp ∧ resp.getLast? ≠ some newline ∨ heard = resp ++ [newline])

variable {S : ServerConn sv} {cmd : Bytes}

/-- Nothing or one byte is stripped. -/
lemma strip_cases (resp : Bytes) :
    resp = strip resp ∧ (strip resp).getLast? ≠ some newline ∨ resp = strip resp ++ [newline] := by
  rw [strip]
  split
  · rename_i hlast
    obtain ⟨body, rfl⟩ := List.getLast?_eq_some_iff.mp hlast
    exact Or.inr (by simp)
  · rename_i hlast
    exact Or.inl ⟨rfl, hlast⟩

lemma told_step {x y : Link S (program cmd)} {l : S.Label ⊕ (program cmd).Label}
    (h : Told cmd x.said x.heard x.client) (hs : Link.Step x l y) :
    Told cmd y.said y.heard y.client := by
  cases hs with
  | server hs hup => exact h
  | client hk hdown =>
    rename_i a k' out taken rest
    change step cmd x.client a = _ at hk
    cases hc : x.client with
    | connecting =>
      rw [hc] at h hk
      obtain ⟨hsaid, hheard⟩ := h
      cases a with
      | connected =>
        cases hk
        exact ⟨by simp [hsaid], by simp [hheard]⟩
      | failed =>
        cases hk
        exact ⟨by simp [hsaid], Or.inl ⟨by simp [hheard], by simp⟩⟩
      | sent | data => exact absurd hk (by simp [step])
    | sending =>
      rw [hc] at h hk
      obtain ⟨hsaid, hheard⟩ := h
      cases a with
      | sent n =>
        simp only [step] at hk
        split at hk
        · cases hk
          exact ⟨by simp only [hsaid, List.nil_append]; exact List.take_prefix _ _,
            by simp [hheard], by simp⟩
        · exact absurd hk (by simp)
      | failed =>
        cases hk
        exact ⟨by simp [hsaid], Or.inl ⟨by simp [hheard], by simp⟩⟩
      | connected | data => exact absurd hk (by simp [step])
    -- the reading ends with a chunk that ends in a newline, or with a failure
    | receiving resp =>
      rw [hc] at h hk
      obtain ⟨hsaid, hheard, hlast⟩ := h
      cases a with
      | data chunk =>
        simp only [step] at hk
        split at hk
        · split at hk
          · cases hk
            refine ⟨by simpa using hsaid, ?_⟩
            rw [hheard]
            exact strip_cases _
          · rename_i hopen
            cases hk
            exact ⟨by simpa using hsaid, by rw [hheard], hopen⟩
        · exact absurd hk (by simp)
      | failed =>
        cases hk
        refine ⟨by simpa using hsaid, ?_⟩
        simp only [hheard, List.append_nil]
        exact strip_cases resp
      | connected | sent => exact absurd hk (by simp [step])
    | done resp =>
      rw [hc] at hk
      exact absurd hk (by cases a <;> simp [step])

lemma told_run {ls : List (S.Label ⊕ (program cmd).Label)} {x : Link S (program cmd)}
    (h : Run Link.Step (.init S (program cmd)) ls x) : Told cmd x.said x.heard x.client :=
  h.invariant (show Told cmd [] [] .connecting from ⟨rfl, rfl⟩) fun _ _ _ hx hs => told_step hx hs

/-- A call that returns something has had its one line answered, and has taken an initial part of
the reply. -/
lemma answered {ls : List (S.Label ⊕ (program cmd).Label)} {x : Link S (program cmd)}
    (hrun : Run Link.Step (.init S (program cmd)) ls x) (hcmd : newline ∉ cmd) {resp : Bytes}
    (hdone : x.client = .done resp) (hresp : resp ≠ []) :
    ∃ e, (S.log x.server).calls = [(e, cString cmd)] ∧ x.heard <+: sv.reply e (cString cmd) ∧
      (x.heard = resp ∧ resp.getLast? ≠ some newline ∨ x.heard = resp ++ [newline]) := by
  have hinv := Link.inv_run hrun
  have htold := told_run hrun
  rw [hdone] at htold
  obtain ⟨hsaid, hheard⟩ := htold
  have hheardNe : x.heard ≠ [] := by
    rcases hheard with ⟨h, -⟩ | h <;> simp [h, hresp]
  have hcalls := hinv.calls_initial (by simpa using hcmd : ∀ l ∈ [cmd], newline ∉ l)
    (by simpa [wire] using hsaid)
  have hpre := hinv.heard_initial
  cases hlog : (S.log x.server).calls with
  | nil =>
    rw [hlog] at hpre
    exact absurd (List.prefix_nil.mp hpre) hheardNe
  | cons c rest =>
    rw [hlog] at hcalls hpre
    obtain ⟨e, line⟩ := c
    have hlen := hcalls.length_le
    simp only [List.length_map, List.length_cons, List.length_nil] at hlen
    obtain rfl : rest = [] := List.eq_nil_of_length_eq_zero (by omega)
    obtain rfl : line = cString cmd := by simpa using hcalls
    have hreplies : replies sv [(e, cString cmd)] = sv.reply e (cString cmd) := by simp [replies]
    rw [hreplies] at hpre
    exact ⟨e, rfl, hpre, hheard⟩

end SendCommand

/-- What is left of a reply of one line when a newline at its end is stripped: all of it but the
newline, or a part in front of the newline. -/
lemma OneLine.stripped {reply heard resp : Bytes} (h : OneLine reply) (hpre : heard <+: reply)
    (hresp : heard = resp ∧ resp.getLast? ≠ some newline ∨ heard = resp ++ [newline]) :
    newline ∉ resp ∧ resp <+: reply ∧ (newline ∈ heard → resp ++ [newline] = reply) := by
  obtain ⟨body, hbody, hnot⟩ := h.eq_append
  rcases hresp with ⟨rfl, hlast⟩ | rfl
  · have hnone : newline ∉ heard := by
      intro hmem
      refine hlast ?_
      rw [h.eq_of_prefix hpre hmem, hbody, List.getLast?_concat]
    exact ⟨hnone, hpre, fun hmem => absurd hmem hnone⟩
  · have hall := h.eq_of_prefix hpre (by simp)
    have heq : resp = body := List.append_cancel_right (hall.trans hbody)
    exact ⟨heq ▸ hnot, (List.prefix_append _ _).trans hpre, fun _ => hall⟩

/-- **What `send_command` returns.**  Whatever the server, the segmentation and the failures: if
the command is one line and the replies have one line each, it returns nothing, or the reply to
this command without its newline, or, when the connection has failed, an initial part of that
reply.  It is the whole reply if the call has taken a newline. -/
theorem send_command_reply (sv : Service E) (S : ServerConn sv) (cmd : Bytes)
    (hcmd : newline ∉ cmd) (ls : List (S.Label ⊕ (SendCommand.program cmd).Label))
    (x : Link S (SendCommand.program cmd))
    (hrun : Run Link.Step (.init S (SendCommand.program cmd)) ls x) (resp : Bytes)
    (hdone : x.client = .done resp) (hreply : OneLiners sv (S.log x.server).calls) :
    resp = [] ∨ ∃ e, (S.log x.server).calls = [(e, cString cmd)] ∧
      newline ∉ resp ∧ resp <+: sv.reply e (cString cmd) ∧
      (newline ∈ x.heard → resp ++ [newline] = sv.reply e (cString cmd)) := by
  by_cases hresp : resp = []
  · exact Or.inl hresp
  · obtain ⟨e, hcalls, hpre, hheard⟩ := SendCommand.answered hrun hcmd hdone hresp
    have hone : OneLine (sv.reply e (cString cmd)) := hreply (e, cString cmd) (by simp [hcalls])
    exact Or.inr ⟨e, hcalls, hone.stripped hpre hheard⟩

/-! ## The benchmark client -/

namespace BenchClient

/-- `sizeof(resp_buf)`. -/
def bufferSize : ℕ := 65536

/-- Where the client stands. -/
inductive Phase
  /-- In `send_all`, with this many bytes sent. -/
  | sending (sent : ℕ)
  /-- In `recv_line`, with these bytes in the buffer. -/
  | receiving (buf : Bytes)
  /-- A call has failed. -/
  | failed
  /-- All requests have been answered. -/
  | done
deriving DecidableEq, Repr

/-- The client and the replies it has read. -/
structure State where
  phase : Phase
  /-- The lines that `recv_line` has returned. -/
  responses : List Bytes
deriving DecidableEq, Repr

/-- The answers of the kernel. -/
inductive Label
  | sent (n : ℕ)
  | data (chunk : Bytes)
  | failed
deriving DecidableEq, Repr

/-- The loop goes on after `recv_line` has found a newline. -/
def next (rounds : ℕ) (responses : List Bytes) : State :=
  ⟨if responses.length < rounds then .sending 0 else .done, responses⟩

/-- The loop of the client: `rounds` times `send_all` and `recv_line`. -/
def step (line : Bytes) (rounds : ℕ) (s : State) : Label → Option (State × Bytes × Bytes)
  | .sent n =>
    match s.phase with
    | .sending sent =>
      let request := line ++ [newline]
      if 0 < n ∧ sent + n ≤ request.length then
        let phase := if sent + n < request.length then .sending (sent + n) else .receiving []
        some ({ s with phase := phase }, (request.drop sent).take n, [])
      else none
    | _ => none
  | .data chunk =>
    match s.phase with
    | .receiving buf =>
      if chunk ≠ [] ∧ chunk.length ≤ bufferSize - buf.length - 1 then
        match chunk.findIdx? (· = newline) with
        -- the bytes behind the newline are dropped
        | some i => some (next rounds (s.responses ++ [buf ++ chunk.take (i + 1)]), [], chunk)
        | none =>
          let buf := buf ++ chunk
          some ({ s with phase := if buf.length < bufferSize - 1 then .receiving buf else .failed },
            [], chunk)
      else none
    | _ => none
  | .failed =>
    match s.phase with
    | .sending _ | .receiving _ => some ({ s with phase := .failed }, [], [])
    | _ => none

/-- The client that sends `line` and reads a reply, `rounds` times. -/
def program (line : Bytes) (rounds : ℕ) : ClientProgram :=
  ⟨State, Label, next rounds [], step line rounds⟩

lemma step_program (line : Bytes) (rounds : ℕ) : (program line rounds).step = step line rounds :=
  rfl

/-- What has been sent in the current round. -/
def Phase.part (line : Bytes) : Phase → Bytes
  | .sending sent => (line ++ [newline]).take sent
  | .receiving _ => line ++ [newline]
  | _ => []

/-- What has been read in the current round. -/
def Phase.buf : Phase → Bytes
  | .receiving buf => buf
  | _ => []

/-- The client is at most one request ahead, its responses are the replies to the first calls,
and nothing that it has read is dropped. -/
structure LockStep {S : ServerConn sv} {line : Bytes} {rounds : ℕ}
    (x : Link S (program line rounds)) (s : State) : Prop where
  ahead : x.said <+: wire (List.replicate (s.responses.length + 1) line)
  said : s.phase ≠ .failed →
    x.said = wire (List.replicate s.responses.length line) ++ s.phase.part line
  heard : s.phase ≠ .failed → x.heard = s.responses.flatten ++ s.phase.buf
  answered : s.responses = ((S.log x.server).calls.take s.responses.length).map fun c =>
    sv.reply c.1 c.2

variable {S : ServerConn sv} {line : Bytes} {rounds : ℕ}

lemma wire_replicate_succ (n : ℕ) (line : Bytes) :
    wire (List.replicate (n + 1) line) = wire (List.replicate n line) ++ (line ++ [newline]) := by
  rw [List.replicate_succ', wire_append, wire_cons, wire_nil]

lemma lockStep_init (S : ServerConn sv) (line : Bytes) (rounds : ℕ) :
    LockStep (.init S (program line rounds)) (next rounds []) := by
  refine ⟨ List.nil_prefix, fun _ => ?_, fun _ => ?_, rfl⟩
  · rw [next]
    split <;> simp [Link.init, Phase.part]
  · rw [next]
    split <;> rfl

/-- The calls stay as they are up to the responses. -/
lemma LockStep.grow {x y : Link S (program line rounds)} {s : State} (h : LockStep x s)
    (hsaid : y.said = x.said) (hheard : y.heard = x.heard)
    (hcalls : (S.log x.server).calls <+: (S.log y.server).calls) : LockStep y s := by
  refine ⟨hsaid ▸ h.ahead, hsaid ▸ h.said, hheard ▸ h.heard, ?_⟩
  have hlen : s.responses.length ≤ (S.log x.server).calls.length := by
    have := congrArg List.length h.answered
    rw [List.length_map, List.length_take] at this
    omega
  obtain ⟨later, hlater⟩ := hcalls
  rw [← hlater, List.take_append_of_le_length hlen]
  exact h.answered

/-- Bytes of the request are sent. -/
lemma LockStep.sent {x y : Link S (program line rounds)} {s : State} {sent n : ℕ}
    (h : LockStep x s) (hphase : s.phase = .sending sent)
    (hserver : y.server = x.server)
    (hsaid : y.said = x.said ++ ((line ++ [newline]).drop sent).take n)
    (hheard : y.heard = x.heard) :
    LockStep y { s with phase :=
      if sent + n < (line ++ [newline]).length then .sending (sent + n) else .receiving [] } := by
  have hopen : s.phase ≠ .failed := by simp [hphase]
  have heq : y.said =
      wire (List.replicate s.responses.length line) ++ (line ++ [newline]).take (sent + n) := by
    rw [hsaid, h.said hopen, hphase, Phase.part, List.take_add, List.append_assoc]
  refine ⟨?_, fun _ => ?_, fun _ => ?_, hserver ▸ h.answered⟩
  · rw [heq, wire_replicate_succ]
    exact (List.prefix_append_right_inj _).mpr ( List.take_prefix _ _)
  · rw [heq]
    split
    · rfl
    · rename_i hall
      rw [Phase.part, List.take_of_length_le (not_lt.mp hall)]
  · rw [hheard, h.heard hopen, hphase]
    split <;> rfl

/-- What has been read in this round is an initial part of the next reply. -/
lemma LockStep.next_reply {x y : Link S (program line rounds)} {s : State} {buf chunk : Bytes}
    (h : LockStep x s) (hy : Link.Inv y) (hline : newline ∉ line) (hphase : s.phase = .receiving buf)
    (hchunk : chunk ≠ []) (hserver : y.server = x.server) (hsaid : y.said = x.said)
    (hheard : y.heard = x.heard ++ chunk) :
    ∃ c, (S.log x.server).calls = (S.log x.server).calls.take s.responses.length ++ [c] ∧
      buf ++ chunk <+: sv.reply c.1 c.2 := by
  set calls := (S.log x.server).calls with hcalls
  have hopen : s.phase ≠ .failed := by simp [hphase]
  have hcount : calls.length ≤ s.responses.length + 1 := by
    have hnone : ∀ l ∈ List.replicate (s.responses.length + 1) line, newline ∉ l := by
      intro l hl
      rw [List.eq_of_mem_replicate hl]
      exact hline
    have hlines := hy.calls_initial hnone (hsaid ▸ h.ahead)
    have := hlines.length_le
    rw [hserver, ← hcalls] at this
    simpa using this
  have hpre := hy.heard_initial
  rw [hserver, ← hcalls, hheard, h.heard hopen, hphase, Phase.buf, List.append_assoc,
    ← List.take_append_drop s.responses.length calls] at hpre
  have hfirst : replies sv (calls.take s.responses.length) = s.responses.flatten := by
    rw [replies, ← h.answered]
  rw [replies, List.map_append, List.flatten_append, ← replies, hfirst,
    List.prefix_append_right_inj] at hpre
  have hdrop : (calls.drop s.responses.length).length ≤ 1 := by
    rw [List.length_drop]
    omega
  cases hrest : calls.drop s.responses.length with
  | nil =>
    rw [hrest] at hpre
    exact absurd (List.prefix_nil.mp hpre) (by simp [hchunk])
  | cons c later =>
    rw [hrest] at hpre hdrop
    obtain rfl : later = [] := List.eq_nil_of_length_eq_zero (by simpa using hdrop)
    refine ⟨c, ?_, by simpa using hpre⟩
    rw [← hrest, List.take_append_drop]

/-- A line has been read. -/
lemma LockStep.read {x y : Link S (program line rounds)} {s : State} {buf chunk : Bytes} {i : ℕ}
    (h : LockStep x s) (hy : Link.Inv y) (hline : newline ∉ line)
    (hreply : OneLiners sv (S.log x.server).calls) (hphase : s.phase = .receiving buf)
    (hchunk : chunk ≠ []) (hi : chunk.findIdx? (· = newline) = some i)
    (hserver : y.server = x.server) (hsaid : y.said = x.said)
    (hheard : y.heard = x.heard ++ chunk) :
    LockStep y (next rounds (s.responses ++ [buf ++ chunk.take (i + 1)])) := by
  have hopen : s.phase ≠ .failed := by simp [hphase]
  obtain ⟨c, hcalls, hpre⟩ := h.next_reply hy hline hphase hchunk hserver hsaid hheard
  have hone : OneLine (sv.reply c.1 c.2) := hreply c (by rw [hcalls]; simp)
  obtain ⟨hlt, hnl, -⟩ := List.findIdx?_eq_some_iff_getElem.mp hi
  have hmem : newline ∈ chunk.take (i + 1) := by
    rw [← of_decide_eq_true hnl]
    exact List.mem_take_iff_getElem.mpr ⟨i, by omega, rfl⟩
  -- the reply ends at its newline, so nothing is behind it
  have hall := hone.eq_of_prefix hpre (List.mem_append_right _ (List.mem_of_mem_take hmem))
  have hcut : buf ++ chunk.take (i + 1) = sv.reply c.1 c.2 :=
    hone.eq_of_prefix (((List.prefix_append_right_inj buf).mpr ( List.take_prefix _ _)).trans hpre)
      (List.mem_append_right _ hmem)
  have hlen : (s.responses ++ [buf ++ chunk.take (i + 1)]).length = s.responses.length + 1 := by
    simp
  have hsaid' : y.said = wire (List.replicate (s.responses.length + 1) line) := by
    rw [hsaid, h.said hopen, hphase, Phase.part, wire_replicate_succ]
  have hresp : (next rounds (s.responses ++ [buf ++ chunk.take (i + 1)])).responses =
      s.responses ++ [buf ++ chunk.take (i + 1)] := rfl
  refine ⟨?_, fun _ => ?_, fun _ => ?_, ?_⟩
  · rw [hresp, hlen, hsaid', wire_replicate_succ (s.responses.length + 1)]
    exact List.prefix_append _ _
  · rw [hresp, hlen, hsaid', next]
    split <;> simp [Phase.part]
  · have hbuf : (next rounds (s.responses ++ [buf ++ chunk.take (i + 1)])).phase.buf = [] := by
      rw [next]
      split <;> rfl
    rw [hresp, hbuf, hheard, h.heard hopen, hphase, Phase.buf, hcut, ← hall]
    simp
  · have htake : (S.log x.server).calls.take (s.responses.length + 1) = (S.log x.server).calls := by
      refine List.take_of_length_le ?_
      rw [hcalls, List.length_append, List.length_take]
      simp
    rw [hresp, hlen, hserver, htake, hcalls, List.map_append, ← h.answered, hcut]
    simp

/-- A chunk without a newline: it is kept, or the client has no room for it and fails. -/
lemma LockStep.keep {x y : Link S (program line rounds)} {s : State} {buf chunk : Bytes}
    (h : LockStep x s) (hphase : s.phase = .receiving buf) (hserver : y.server = x.server)
    (hsaid : y.said = x.said) (hheard : y.heard = x.heard ++ chunk) :
    LockStep y { s with phase :=
      if (buf ++ chunk).length < bufferSize - 1 then .receiving (buf ++ chunk) else .failed } := by
  have hopen : s.phase ≠ .failed := by simp [hphase]
  refine ⟨hsaid ▸ h.ahead, fun hfail => ?_, fun hfail => ?_, hserver ▸ h.answered⟩
  · have hsent := h.said hopen
    rw [hphase] at hsent
    simp only at hfail ⊢
    split at hfail
    · rename_i hroom
      rw [if_pos hroom, hsaid]
      exact hsent
    · exact absurd rfl hfail
  · have hread := h.heard hopen
    rw [hphase] at hread
    simp only at hfail ⊢
    split at hfail
    · rename_i hroom
      rw [if_pos hroom, hheard, hread]
      simp [Phase.buf]
    · exact absurd rfl hfail

lemma lockStep_step {x y : Link S (program line rounds)} {l : S.Label ⊕ (program line rounds).Label}
    (hx : Link.Inv x) (h : LockStep x x.client) (hline : newline ∉ line)
    (hreply : OneLiners sv (S.log x.server).calls) (hs : Link.Step x l y) :
    LockStep y y.client := by
  have hy := Link.inv_step hx hs
  have hcalls := hs.calls_initial
  cases hs with
  | server hs hup => exact h.grow rfl rfl hcalls
  | client hk hdown =>
    rename_i a k' out taken rest
    change step line rounds x.client a = _ at hk
    cases a with
    | sent n =>
      simp only [step] at hk
      split at hk
      · rename_i sent hphase
        split at hk
        · cases hk
          refine h.sent hphase ?_ ?_ ?_
          · rfl
          · rfl
          · exact List.append_nil _
        · exact absurd hk (by simp)
      · exact absurd hk (by simp)
    | data chunk =>
      simp only [step] at hk
      split at hk
      · rename_i buf hphase
        split at hk
        · rename_i hchunk
          split at hk
          · rename_i i hi
            cases hk
            refine h.read hy hline hreply hphase hchunk.1 hi ?_ ?_ ?_
            · rfl
            · exact List.append_nil _
            · rfl
          · cases hk
            refine h.keep hphase ?_ ?_ ?_
            · rfl
            · exact List.append_nil _
            · rfl
        · exact absurd hk (by simp)
      · exact absurd hk (by simp)
    | failed =>
      have hfailed : k' = { x.client with phase := .failed } ∧ out = [] ∧ taken = [] := by
        simp only [step] at hk
        split at hk
        · cases hk
          exact ⟨rfl, rfl, rfl⟩
        · cases hk
          exact ⟨rfl, rfl, rfl⟩
        · exact absurd hk (by simp)
      obtain ⟨rfl, rfl, rfl⟩ := hfailed
      exact ⟨by simpa using h.ahead, fun hfail => absurd rfl hfail, fun hfail => absurd rfl hfail,
        h.answered⟩

lemma lockStep_run {ls : List (S.Label ⊕ (program line rounds).Label)}
    {x : Link S (program line rounds)} (h : Run Link.Step (.init S (program line rounds)) ls x)
    (hline : newline ∉ line) (hreply : OneLiners sv (S.log x.server).calls) :
    LockStep x x.client := by
  -- the calls only grow, so the replies have had one line all along
  refine h.trace_invariant (I := fun _ x => OneLiners sv (S.log x.server).calls →
    LockStep x x.client) (fun _ => lockStep_init S line rounds) ?_ hreply
  intro ms x l y hrun hx hs hone
  have hone' := hone.mono hs.calls_initial
  exact lockStep_step (Link.inv_run hrun) (hx hone') hline hone' hs

end BenchClient

/-- The reply of a server without books. -/
def healthReply : Bytes := handleLine bareEnv (bytes "HEALTH")

/-- The simple server has answered a request. -/
def afterHealth : Simple.Client QueryEnv :=
  (Simple.step queryService (.new .empty) (.recv (bytes "HEALTH\n") bareEnv 0)).get
    (by decide +kernel)

lemma step_afterHealth : Simple.LosslessStep queryService (.new .empty)
    (.recv (bytes "HEALTH\n") bareEnv 0) afterHealth :=
  ⟨(Option.some_get _).symm, rfl⟩

lemma calls_afterHealth : afterHealth.log.calls = [(bareEnv, bytes "HEALTH")] := rfl

lemma oneLiners_afterHealth : OneLiners queryService afterHealth.log.calls := by
  intro c hc
  obtain rfl := List.mem_singleton.mp (calls_afterHealth ▸ hc)
  exact (by decide +kernel : healthReply.count 10 = 1 ∧ healthReply.getLast? = some 10)

/-- The connection of this call. -/
abbrev HealthLink : Type :=
  Link (simpleConn queryService .empty) (SendCommand.program (bytes "HEALTH"))

/-- The states of the connection: the client is connected, has sent the request, the server has
answered, the client has read the reply. -/
def healthStates : List HealthLink :=
  [⟨.new .empty, SendCommand.State.sending, [], [], [], []⟩,
    ⟨.new .empty, SendCommand.State.receiving [], bytes "HEALTH\n", [], bytes "HEALTH\n", []⟩,
    ⟨afterHealth, SendCommand.State.receiving [], [], healthReply, bytes "HEALTH\n", []⟩,
    ⟨afterHealth, SendCommand.State.done healthReply.dropLast, [], [], bytes "HEALTH\n",
      healthReply⟩]

lemma run_healthCall : ∃ ls, ∀ x ∈ healthStates.getLast?,
    Run Link.Step (.init (simpleConn queryService .empty) (SendCommand.program (bytes "HEALTH")))
      ls x := by
  refine ⟨[.inr SendCommand.Label.connected, .inr (SendCommand.Label.sent 7),
    .inl (Simple.Label.recv (bytes "HEALTH\n") bareEnv 0),
    .inr (SendCommand.Label.data healthReply)], ?_⟩
  rintro x ⟨⟩
  refine .cons (t := healthStates[0]) (.ofClient rfl rfl rfl rfl rfl rfl) ?_
  refine .cons (t := healthStates[1]) (.ofClient rfl rfl rfl rfl rfl rfl) ?_
  refine .cons (t := healthStates[2]) (.ofServer step_afterHealth rfl
    (by decide +kernel) (by decide +kernel) rfl rfl) ?_
  have hread : SendCommand.step (bytes "HEALTH") (.receiving []) (.data healthReply) =
      some (.done healthReply.dropLast, [], healthReply) := by decide +kernel
  have hdown : healthReply = healthReply ++ [] := (List.append_nil _).symm
  have hsaid : bytes "HEALTH\n" = bytes "HEALTH\n" ++ [] := (List.append_nil _).symm
  have hlast : Link.Step healthStates[2] (.inr (SendCommand.Label.data healthReply))
      healthStates[3] := by
    refine .ofClient rfl ?_ rfl hdown hsaid rfl
    rw [SendCommand.step_program]
    exact hread
  exact .single hlast

theorem send_command_reply_health :
    newline ∉ healthReply.dropLast ∧ healthReply.dropLast ++ [newline] = healthReply := by
  obtain ⟨ls, hrun⟩ := run_healthCall
  rcases send_command_reply queryService (simpleConn queryService .empty) (bytes "HEALTH")
      (by decide +kernel) ls _ (hrun _ rfl) _ rfl oneLiners_afterHealth with
    hnil | ⟨e, hcalls, hnot, -, hall⟩
  · exact absurd hnil (by decide +kernel)
  · obtain ⟨rfl, -⟩ : bareEnv = e ∧ _ := by
      simpa using calls_afterHealth.symm.trans hcalls
    exact ⟨hnot, hall (by decide +kernel)⟩

/-- **The benchmark client is in lock-step with the server.**  Whatever the server, the
segmentation and the failures: if the request is one line and the replies have one line each,
the responses that the client has read are the replies to the first calls, one for one and in
order, every call is for its request, the server is at most one call ahead, and until a failure
nothing that was read has been dropped behind a newline. -/
theorem bench_client_lockstep (sv : Service E) (S : ServerConn sv) (line : Bytes)
    (hline : newline ∉ line) (rounds : ℕ)
    (ls : List (S.Label ⊕ (BenchClient.program line rounds).Label))
    (x : Link S (BenchClient.program line rounds))
    (hrun : Run Link.Step (.init S (BenchClient.program line rounds)) ls x)
    (s : BenchClient.State) (hs : x.client = s)
    (hreply : OneLiners sv (S.log x.server).calls) :
    s.responses = ((S.log x.server).calls.take s.responses.length).map
        (fun c => sv.reply c.1 c.2) ∧
      (∀ c ∈ (S.log x.server).calls, c.2 = cString line) ∧
      (S.log x.server).calls.length ≤ s.responses.length + 1 ∧
      (s.phase ≠ .failed → x.heard = s.responses.flatten ++ s.phase.buf) := by
  subst hs
  have h := BenchClient.lockStep_run hrun hline hreply
  have hnone : ∀ l ∈ List.replicate (BenchClient.State.responses x.client).length.succ line,
      newline ∉ l := by
    intro l hl
    rw [List.eq_of_mem_replicate hl]
    exact hline
  have hlines := (Link.inv_run hrun).calls_initial hnone h.ahead
  refine ⟨h.answered, ?_, ?_, h.heard⟩
  · intro c hc
    obtain ⟨l, hl, heq⟩ := List.mem_map.mp (hlines.subset (List.mem_map_of_mem hc))
    rw [← heq, List.eq_of_mem_replicate hl]
  · simpa using hlines.length_le

/-- The states of a connection with one round. -/
def roundStates :
    List (Link (simpleConn queryService .empty) (BenchClient.program (bytes "HEALTH") 1)) :=
  [⟨.new .empty, (⟨.receiving [], []⟩ : BenchClient.State), bytes "HEALTH\n", [],
      bytes "HEALTH\n", []⟩,
    ⟨afterHealth, (⟨.receiving [], []⟩ : BenchClient.State), [], healthReply, bytes "HEALTH\n", []⟩,
    ⟨afterHealth, (⟨.done, [healthReply]⟩ : BenchClient.State), [], [], bytes "HEALTH\n",
      healthReply⟩]

lemma run_round : ∃ ls, Run Link.Step
    (.init (simpleConn queryService .empty) (BenchClient.program (bytes "HEALTH") 1)) ls
      roundStates[2] := by
  refine ⟨[.inr (BenchClient.Label.sent 7), .inl (Simple.Label.recv (bytes "HEALTH\n") bareEnv 0),
    .inr (BenchClient.Label.data healthReply)], ?_⟩
  refine .cons (t := roundStates[0]) (.ofClient rfl rfl rfl rfl rfl rfl) ?_
  refine .cons (t := roundStates[1]) (.ofServer step_afterHealth rfl
    (by decide +kernel) (by decide +kernel) rfl rfl) ?_
  have hread : BenchClient.step (bytes "HEALTH") 1 ⟨.receiving [], []⟩ (.data healthReply) =
      some (⟨.done, [healthReply]⟩, [], healthReply) := by decide +kernel
  refine .single (.ofClient rfl ?_ rfl (List.append_nil healthReply).symm
    (List.append_nil (bytes "HEALTH\n")).symm rfl)
  rw [BenchClient.step_program]
  exact hread

theorem bench_client_lockstep_round :
    [healthReply] = (afterHealth.log.calls.take 1).map (fun c => handleLine c.1 c.2) := by
  obtain ⟨ls, hrun⟩ := run_round
  exact (bench_client_lockstep queryService (simpleConn queryService .empty) (bytes "HEALTH")
    (by decide +kernel) 1 ls _ hrun ⟨.done, [healthReply]⟩ rfl oneLiners_afterHealth).1

end TickPlant
