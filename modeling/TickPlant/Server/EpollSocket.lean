/-
# A connection of the epoll server and its socket

A connection that is registered edge-triggered hears of each edge once.  `Waiting` is what has
to hold of a connection and its socket while the loop is elsewhere: the registered event is
the one the connection waits for, and a socket that is ready is queued or its event is in the
current batch (`Waiting.wake`).  `Busy` is the same while calls are made on the connection.

`Waiting.report`, `Waiting.handle`, `Busy.recv` and `Busy.send` are the steps between the two.
-/
import TickPlant.Server.EpollLoop

namespace TickPlant.Epoll

open Lib

variable {E : Type} {sv : Service E}

/-! ## One step of a connection -/

/-- The event is what the connection waits for. -/
def Event.Matches (ev : Event) (state : ConnState) : Prop :=
  ev.hangup = true ∨ state = .reading ∧ ev.readable = true ∧ ev.writable = false ∨
    state = .writing ∧ ev.writable = true

/-- A waiting connection takes up the event that it waits for: it is closed, or a call is due
on it. -/
lemma step_event {c c' : Conn E} {ev : Event} (hphase : c.phase = .wait)
    (hev : ev.Matches c.state) (hout : c.state = .writing → c.chan.unsent ≠ [])
    (hs : Step sv c (.event ev.hangup ev.readable ev.writable) c') :
    c'.phase = .closed ∨
      c'.state = c.state ∧ c'.chan = c.chan ∧
        (c'.phase = .recv false ∧ c.state = .reading ∨ c'.phase = .send ∧ c.state = .writing) := by
  simp only [Step, step, hphase] at hs
  split at hs
  · obtain rfl := Option.some.inj hs
    exact Or.inl rfl
  · rename_i hhangup
    obtain h | ⟨hstate, hread, hwrite⟩ | ⟨hstate, hwrite⟩ := hev
    · exact absurd h hhangup
    · rw [if_pos ⟨hstate, hread⟩, hwrite] at hs
      obtain rfl := Option.some.inj hs
      rw [Conn.enterRecv]
      split
      · exact Or.inl rfl
      · exact Or.inr ⟨rfl, rfl, Or.inl ⟨rfl, hstate⟩⟩
    · rw [if_neg (by simp [hstate]), Conn.enterWriting, if_pos ⟨hstate, hwrite⟩] at hs
      obtain rfl := Option.some.inj hs
      have hlt : c.chan.outpos < c.chan.outbuf.length := by
        by_contra hge
        exact hout hstate (List.drop_eq_nil_of_le (not_lt.mp hge))
      rw [Conn.enterSend, if_pos hlt]
      exact Or.inr ⟨rfl, rfl, Or.inr ⟨rfl, hstate⟩⟩

/-- What a `recv` leads to: another `recv`, a reply to write, a wait after `EAGAIN`, or the end
of the connection. -/
lemma step_recv {c c' : Conn E} {r : RecvResult} {e : E} (hphase : c.phase = .recv false)
    (hstate : c.state = .reading) (hs : Step sv c (.recv r e) c') :
    c'.phase = .closed ∨
      (∃ chunk, r = .data chunk ∧ c'.chan.log.chunks = c.chan.log.chunks ++ [chunk] ∧
        (c'.phase = .recv false ∧ c'.state = .reading ∨
          c'.phase = .wait ∧ c'.state = .writing ∧ c'.chan.unsent ≠ [])) ∨
      r = .wouldBlock ∧ c' = { c with phase := .wait } := by
  simp only [Step, step, hphase] at hs
  cases r with
  | data chunk =>
    dsimp only at hs
    split at hs
    · exact absurd hs (by simp)
    · rename_i chan hrecv
      have hlog := (Channel.valid_receive hrecv).2.2.2
      split at hs
      · obtain rfl := Option.some.inj hs
        rw [Conn.enterRecv]
        split
        · exact Or.inl rfl
        · exact Or.inr (Or.inl ⟨chunk, rfl, by rw [hlog]; rfl, Or.inl ⟨rfl, hstate⟩⟩)
      · rename_i chan' hans
        obtain rfl := Option.some.inj hs
        obtain ⟨raw, -, hout, hpos, hcall⟩ := Channel.answer_eq_some hans
        refine Or.inr (Or.inl ⟨chunk, rfl, ?_, Or.inr ?_⟩)
        · rw [Conn.log_enterWriting, hcall, hlog]
          rfl
        · rw [Conn.enterWriting, if_neg (by simp)]
          refine ⟨rfl, rfl, ?_⟩
          rw [Channel.unsent, hout, hpos]
          exact sv.reply_ne _ _
  | wouldBlock =>
    obtain rfl := Option.some.inj hs
    rw [Conn.enterWriting, if_neg (by simp)]
    exact Or.inr (Or.inr ⟨rfl, rfl⟩)
  | eof =>
    obtain rfl := Option.some.inj hs
    exact Or.inl rfl
  | error =>
    obtain rfl := Option.some.inj hs
    exact Or.inl rfl

/-- After the `send` loop the connection reads again, or waits with a rest of its reply. -/
lemma endSend_cases (c : Conn E) (hstate : c.state = .writing) :
    c.endSend.phase = .wait ∧
      (c.endSend.state = .reading ∨ c.endSend.state = .writing ∧ c.endSend.chan.unsent ≠ []) := by
  rw [Conn.endSend]
  split
  · exact ⟨rfl, Or.inl rfl⟩
  · rename_i hlt
    refine ⟨rfl, Or.inr ⟨hstate, fun hnil => hlt ?_⟩⟩
    exact List.drop_eq_nil_iff.mp hnil

/-- What a `send` leads to. -/
lemma step_send {c c' : Conn E} {w : SendResult} (hphase : c.phase = .send)
    (hstate : c.state = .writing) (hs : Step sv c (.send w) c') :
    c'.phase = .closed ∨
      c'.chan.log.chunks = c.chan.log.chunks ∧
        (c'.phase = .send ∧ c'.state = .writing ∨ c'.phase = .wait ∧ c'.state = .reading ∨
          w = .wouldBlock ∧ c'.phase = .wait ∧ c'.state = .writing ∧ c'.chan.unsent ≠ []) := by
  simp only [Step, step, hphase] at hs
  cases w with
  | accepted n =>
    dsimp only at hs
    split at hs
    · obtain rfl := Option.some.inj hs
      rw [Conn.log_enterSend]
      refine Or.inr ⟨rfl, ?_⟩
      rw [Conn.enterSend]
      split
      · exact Or.inl ⟨rfl, hstate⟩
      · rename_i hdone
        rw [Conn.endSend, if_pos (not_lt.mp hdone)]
        exact Or.inr (Or.inl ⟨rfl, rfl⟩)
    · exact absurd hs (by simp)
  | wouldBlock =>
    obtain rfl := Option.some.inj hs
    rw [Conn.log_endSend]
    obtain ⟨hwait, hread | hwrite⟩ := endSend_cases c hstate
    · exact Or.inr ⟨rfl, Or.inr (Or.inl ⟨hwait, hread⟩)⟩
    · exact Or.inr ⟨rfl, Or.inr (Or.inr ⟨rfl, hwait, hwrite⟩)⟩
  | error =>
    obtain rfl := Option.some.inj hs
    exact Or.inl rfl

/-! ## A connection and its socket -/

/-- The connection is a run of `Epoll.step`, registered for what it waits for, and it has
received what has been read from its socket. -/
structure Paired (sv : Service E) (c : Conn E) (k : Socket) : Prop where
  run : ∃ ls, Run (Step sv) .new ls c
  interest : k.interest = c.state
  received : c.chan.log.chunks.flatten = k.stream.take k.taken
  taken : k.taken ≤ k.stream.length

/-- The connection waits; `ev` is its event in the current batch. -/
structure Waiting (sv : Service E) (ev : Option Event) (c : Conn E) (k : Socket) : Prop
    extends Paired sv c k where
  phase : c.phase = .wait
  /-- A connection that waits to write has something to write. -/
  unsent : c.state = .writing → c.chan.unsent ≠ []
  /-- Its event is what it waits for. -/
  event : ∀ e ∈ ev, e.Matches c.state
  hangup : k.hangup = true → k.queued = true ∨ ∃ e ∈ ev, e.hangup = true
  /-- No edge is lost. -/
  wake : k.present = true → k.queued = true ∨ ev.isSome = true

/-- A call is due on the connection. -/
structure Busy (sv : Service E) (c : Conn E) (k : Socket) : Prop extends Paired sv c k where
  phase : c.phase = .recv false ∧ c.state = .reading ∨ c.phase = .send ∧ c.state = .writing
  hangup : k.hangup = true → k.queued = true

/-- What the handling of an event or an answer leaves of a connection. -/
def Outcome (sv : Service E) (c : Conn E) (k : Socket) : Prop :=
  (∃ ls, Run (Step sv) .new ls c) ∧
    (c.phase = .closed ∨ Waiting sv none c k ∨ Busy sv c k)

/-- The socket keeps what a change on the network does not concern. -/
lemma Paired.change {c : Conn E} {k : Socket} (h : Paired sv c k) (x : Socket.Change) :
    Paired sv c (k.change x) := by
  cases x with
  | arrive chunk =>
    refine ⟨h.run, h.interest, ?_, ?_⟩
    · rw [h.received]
      exact (List.take_append_of_le_length h.taken).symm
    · have := h.taken
      simp only [Socket.change, List.length_append]
      omega
  | shutdown => exact ⟨h.run, h.interest, h.received, h.taken⟩
  | drain => exact ⟨h.run, h.interest, h.received, h.taken⟩
  | hangup => exact ⟨h.run, h.interest, h.received, h.taken⟩

/-- A change of the registered kind queues the socket. -/
lemma Socket.present_change {k : Socket} (x : Socket.Change) (h : (k.change x).present = true) :
    k.present = true ∨ (k.change x).queued = true := by
  cases x <;> cases hi : k.interest <;>
    simp_all [Socket.change, Socket.present, Socket.readable, Socket.inbox]

lemma Socket.queued_change {k : Socket} (x : Socket.Change) (h : k.queued = true) :
    (k.change x).queued = true := by
  cases x <;> simp [Socket.change, h]

lemma Socket.hangup_change {k : Socket} (x : Socket.Change) (h : (k.change x).hangup = true) :
    k.hangup = true ∨ (k.change x).queued = true := by
  cases x <;> simp_all [Socket.change]

lemma Waiting.change {ev : Option Event} {c : Conn E} {k : Socket} (h : Waiting sv ev c k)
    (x : Socket.Change) : Waiting sv ev c (k.change x) where
  toPaired := h.toPaired.change x
  phase := h.phase
  unsent := h.unsent
  event := h.event
  hangup := by
    intro hk
    rcases Socket.hangup_change x hk with hk | hk
    · exact (h.hangup hk).imp_left (Socket.queued_change x)
    · exact Or.inl hk
  wake := by
    intro hk
    rcases Socket.present_change x hk with hk | hk
    · exact (h.wake hk).imp_left (Socket.queued_change x)
    · exact Or.inl hk

lemma Busy.change {c : Conn E} {k : Socket} (h : Busy sv c k) (x : Socket.Change) :
    Busy sv c (k.change x) where
  toPaired := h.toPaired.change x
  phase := h.phase
  hangup := by
    intro hk
    rcases Socket.hangup_change x hk with hk | hk
    · exact Socket.queued_change x (h.hangup hk)
    · exact hk

/-- A queued socket is reported, with an event that its connection waits for. -/
lemma Waiting.report {c : Conn E} {k : Socket} (h : Waiting sv none c k) (fd : Fd)
    (hready : k.ready = true) :
    Waiting sv (some (k.event fd)) c { k with queued := false } where
  toPaired := ⟨h.run, h.interest, h.received, h.taken⟩
  phase := h.phase
  unsent := h.unsent
  event := by
    rintro e ⟨⟩
    have hint := h.interest
    rw [Socket.ready, Socket.present] at hready
    cases hstate : c.state <;> rw [hstate] at hint <;> rw [hint] at hready
    · rcases Bool.or_eq_true_iff.mp hready with hk | hk
      · exact Or.inl hk
      · exact Or.inr (Or.inl ⟨rfl, by simp [Socket.event, hint, hk], by simp [Socket.event, hint]⟩)
    · rcases Bool.or_eq_true_iff.mp hready with hk | hk
      · exact Or.inl hk
      · exact Or.inr (Or.inr ⟨rfl, by simp [Socket.event, hint, hk]⟩)
  hangup := fun hk => Or.inr ⟨_, rfl, hk⟩
  wake := fun _ => Or.inr rfl

/-- An `epoll_ctl` finds a socket that is ready. -/
lemma Socket.wake_ctl (k : Socket) (state : ConnState) (h : (k.ctl state).ready = true) :
    (k.ctl state).queued = true := by
  have : { k with interest := state }.ready = true := h
  simp [Socket.ctl, this]

/-- The connection is registered for a new kind of event. -/
lemma Paired.ctl {c : Conn E} {k : Socket} (hrun : ∃ ls, Run (Step sv) .new ls c)
    (hreceived : c.chan.log.chunks.flatten = k.stream.take k.taken)
    (htaken : k.taken ≤ k.stream.length) : Paired sv c (k.ctl c.state) :=
  ⟨hrun, rfl, hreceived, htaken⟩

/-- A connection that has just been registered misses nothing. -/
lemma Waiting.ctl {c : Conn E} {k : Socket} (hrun : ∃ ls, Run (Step sv) .new ls c)
    (hreceived : c.chan.log.chunks.flatten = k.stream.take k.taken)
    (htaken : k.taken ≤ k.stream.length) (hphase : c.phase = .wait)
    (hunsent : c.state = .writing → c.chan.unsent ≠ []) : Waiting sv none c (k.ctl c.state) where
  toPaired := .ctl hrun hreceived htaken
  phase := hphase
  unsent := hunsent
  event := fun e he => absurd he (by simp)
  hangup := fun hk => Or.inl (k.wake_ctl _ (by simp [Socket.ready, hk]))
  wake := fun hk => Or.inl (k.wake_ctl _ (by simp [Socket.ready, hk]))

/-- The socket after a step from `c` to `c'`. -/
def settle (c c' : Conn E) (k : Socket) : Socket :=
  if c'.state = c.state then k else k.ctl c'.state

/-- **A waiting connection takes up its event.** -/
lemma Waiting.handle {ev : Event} {c c' : Conn E} {k : Socket} (h : Waiting sv (some ev) c k)
    (hs : Step sv c (.event ev.hangup ev.readable ev.writable) c') :
    Outcome sv c' (settle c c' k) := by
  obtain ⟨ls, hrun⟩ := h.run
  have hrun' : ∃ ls, Run (Step sv) .new ls c' := ⟨_, hrun.snoc hs⟩
  refine ⟨hrun', ?_⟩
  have hmatch := h.event ev rfl
  rcases step_event h.phase hmatch h.unsent hs with hclosed | ⟨hstate, hchan, hphase⟩
  · exact Or.inl hclosed
  · refine Or.inr (Or.inr ?_)
    have hopen : ev.hangup = false := by
      by_contra hhup
      simp only [Step, step, h.phase, Bool.not_eq_false] at hs hhup
      rw [if_pos hhup] at hs
      obtain rfl := Option.some.inj hs
      simp [Conn.closeConn] at hphase
    rw [settle, if_pos hstate]
    refine ⟨⟨hrun', by rw [hstate]; exact h.interest, by rw [hchan]; exact h.received, h.taken⟩, ?_,
      ?_⟩
    · rw [hstate]
      exact hphase
    · intro hk
      rcases h.hangup hk with hq | ⟨e, he, hhup⟩
      · exact hq
      · obtain rfl := Option.some.inj he
        exact absurd hhup (by simp [hopen])

/-- **The answer to a `recv`**: a connection waits again only after `EAGAIN`, or with a fresh
registration. -/
lemma Busy.recv {c c' : Conn E} {k k' : Socket} {r : RecvResult} {e : E} (h : Busy sv c k)
    (hphase : ∃ writable, c.phase = .recv writable) (hk : k.recv r = some k')
    (hs : Step sv c (.recv r e) c') : Outcome sv c' (settle c c' k') := by
  obtain ⟨ls, hrun⟩ := h.run
  have hrun' : ∃ ls, Run (Step sv) .new ls c' := ⟨_, hrun.snoc hs⟩
  refine ⟨hrun', ?_⟩
  obtain ⟨writable, hwritable⟩ := hphase
  obtain ⟨hrecv, hstate⟩ : c.phase = .recv false ∧ c.state = .reading := by
    rcases h.phase with hp | hp
    · exact hp
    · exact absurd (hwritable.symm.trans hp.1) (by simp)
  rcases step_recv hrecv hstate hs with hclosed | ⟨chunk, rfl, hchunks, hnext⟩ | ⟨rfl, rfl⟩
  · exact Or.inl hclosed
  · -- the bytes are taken from the socket
    rw [Socket.recv] at hk
    split at hk
    · rename_i hchunk
      obtain rfl := Option.some.inj hk
      have hinbox : chunk <+: k.stream.drop k.taken := hchunk.2
      have hreceived : c'.chan.log.chunks.flatten =
          k.stream.take (k.taken + chunk.length) := by
        rw [hchunks, List.flatten_append, h.received, List.take_add,
          List.prefix_iff_eq_take.mp hinbox]
        simp
      have htaken : k.taken + chunk.length ≤ k.stream.length := by
        have hle := hinbox.length_le
        rw [List.length_drop] at hle
        have := h.taken
        omega
      rcases hnext with ⟨hp, hst⟩ | ⟨hp, hst, hout⟩
      · refine Or.inr (Or.inr ?_)
        rw [settle, if_pos (hst.trans hstate.symm)]
        exact ⟨⟨hrun', by rw [hst, ← hstate]; exact h.interest, hreceived, htaken⟩,
          Or.inl ⟨hp, hst⟩, h.hangup⟩
      · refine Or.inr (Or.inl ?_)
        rw [settle, if_neg (by rw [hst, hstate]; simp)]
        exact .ctl hrun' hreceived htaken hp fun _ => hout
    · exact absurd hk (by simp)
  · -- the socket has been read empty
    rw [Socket.recv] at hk
    split at hk
    · exact absurd hk (by simp)
    · rename_i hempty
      obtain rfl := Option.some.inj hk
      refine Or.inr (Or.inl ?_)
      rw [settle, if_pos rfl]
      refine ⟨⟨hrun', h.interest, h.received, h.taken⟩, rfl, ?_, fun e he => absurd he (by simp),
        fun hk => Or.inl (h.hangup hk), ?_⟩
      · intro hw
        exact absurd (hstate.symm.trans hw) (by simp)
      · intro hpresent
        rw [Socket.present, h.interest, hstate] at hpresent
        exact absurd hpresent hempty

/-- **The answer to a `send`.** -/
lemma Busy.send {c c' : Conn E} {k k' : Socket} {w : SendResult} {room : Bool} (h : Busy sv c k)
    (hphase : c.phase = .send) (hk : k.send room w = some k')
    (hs : Step sv c (.send w) c') : Outcome sv c' (settle c c' k') := by
  obtain ⟨ls, hrun⟩ := h.run
  have hrun' : ∃ ls, Run (Step sv) .new ls c' := ⟨_, hrun.snoc hs⟩
  refine ⟨hrun', ?_⟩
  have hstate : c.state = .writing := by
    rcases h.phase with hp | hp
    · exact absurd (hphase.symm.trans hp.1) (by simp)
    · exact hp.2
  have hsame : k'.stream = k.stream ∧ k'.taken = k.taken ∧ k'.interest = k.interest ∧
      k'.hangup = k.hangup ∧ k'.queued = k.queued := by
    cases w with
    | accepted n =>
      obtain rfl := Option.some.inj hk
      exact ⟨rfl, rfl, rfl, rfl, rfl⟩
    | wouldBlock =>
      rw [Socket.send] at hk
      split at hk
      · exact absurd hk (by simp)
      · obtain rfl := Option.some.inj hk
        exact ⟨rfl, rfl, rfl, rfl, rfl⟩
    | error =>
      obtain rfl := Option.some.inj hk
      exact ⟨rfl, rfl, rfl, rfl, rfl⟩
  obtain ⟨hstream, htaken, hinterest, hhup, hqueued⟩ := hsame
  rcases step_send hphase hstate hs with hclosed | ⟨hchunks, hnext⟩
  · exact Or.inl hclosed
  · have hreceived : c'.chan.log.chunks.flatten = k'.stream.take k'.taken := by
      rw [hchunks, hstream, htaken]
      exact h.received
    have hlen : k'.taken ≤ k'.stream.length := by
      rw [hstream, htaken]
      exact h.taken
    have hhang : k'.hangup = true → k'.queued = true := by
      rw [hhup, hqueued]
      exact h.hangup
    rcases hnext with ⟨hp, hst⟩ | ⟨hp, hst⟩ | ⟨rfl, hp, hst, hout⟩
    · refine Or.inr (Or.inr ?_)
      rw [settle, if_pos (hst.trans hstate.symm)]
      exact ⟨⟨hrun', by rw [hinterest, h.interest, hst, hstate], hreceived, hlen⟩,
        Or.inr ⟨hp, hst⟩, hhang⟩
    · refine Or.inr (Or.inl ?_)
      rw [settle, if_neg (by rw [hst, hstate]; simp)]
      exact .ctl hrun' hreceived hlen hp fun hw => absurd (hst.symm.trans hw) (by simp)
    · -- there is no room
      rw [Socket.send] at hk
      split at hk
      · exact absurd hk (by simp)
      · rename_i hroom
        obtain rfl := Option.some.inj hk
        refine Or.inr (Or.inl ?_)
        rw [settle, if_pos (hst.trans hstate.symm)]
        refine ⟨⟨hrun', by rw [h.interest, hst, hstate], hreceived, hlen⟩, hp, fun _ => hout,
          fun e he => absurd he (by simp), fun hk => Or.inl (hhang hk), ?_⟩
        intro hpresent
        rw [Socket.present, h.interest, hstate] at hpresent
        exact absurd hpresent hroom

end TickPlant.Epoll
