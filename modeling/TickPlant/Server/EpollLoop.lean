/-
# The event loop of the epoll server

`EpollQueryServer::serve_loop` as a whole: the batches that `epoll_wait` reports, the
`accept4` loop on the server socket, the connections in `conns`, and `stop()`, which runs in
another thread and closes the server socket under the loop.  What one event does to one
connection is `Epoll.step`.

The loop and `stop()` are described from where the server socket is open and registered: a
`stop()` that comes while `serve_loop` is still setting it up is not part of the model.  The
member `server_fd_` is a plain `int` that both threads read and write; each read, each `close`
and each write of it is a step of its own.

The kernel's side is part of the state.  A connection is registered edge-triggered, so a
socket is reported once for each edge and no more: `queued` says that an edge (new bytes, new
room, a hang-up, or an `epoll_ctl` that finds the socket ready) has not been reported yet.
The server socket is registered level-triggered and may be reported at any time.
-/
import TickPlant.Server.Epoll

namespace TickPlant.Epoll

open Lib

variable {E : Type} {sv : Service E}

/-- A descriptor, an `int`. -/
abbrev Fd := BitVec 32

/-- `MAX_EVENTS`. -/
def maxEvents : ℕ := 64

/-! ## The sockets -/

/-- One element of `events`. -/
structure Event where
  fd : Fd
  /-- `EPOLLHUP` or `EPOLLERR`. -/
  hangup : Bool
  /-- `EPOLLIN`. -/
  readable : Bool
  /-- `EPOLLOUT`. -/
  writable : Bool
deriving DecidableEq, Repr

/-- What the kernel keeps for an open connection. -/
structure Socket where
  /-- All bytes that have arrived. -/
  stream : Bytes
  /-- How many of them have been read. -/
  taken : ℕ
  /-- The client has closed its side. -/
  eof : Bool
  /-- There is room for bytes to send. -/
  room : Bool
  /-- A hang-up or an error. -/
  hangup : Bool
  /-- The registered event, besides hang-ups: `EPOLLIN` or `EPOLLOUT`. -/
  interest : ConnState
  /-- An edge has not been reported yet. -/
  queued : Bool
deriving DecidableEq, Repr

namespace Socket

/-- The bytes that have arrived and have not been read. -/
def inbox (k : Socket) : Bytes := k.stream.drop k.taken

/-- A `recv` would not block. -/
def readable (k : Socket) : Bool := !k.inbox.isEmpty || k.eof

/-- The registered event is present. -/
def present (k : Socket) : Bool :=
  match k.interest with
  | .reading => k.readable
  | .writing => k.room

/-- There is something to report. -/
def ready (k : Socket) : Bool := k.hangup || k.present

/-- `epoll_ctl` with `EPOLL_CTL_ADD` or `EPOLL_CTL_MOD`: a socket that is ready is queued. -/
def ctl (k : Socket) (interest : ConnState) : Socket :=
  let k := { k with interest := interest }
  { k with queued := k.queued || k.ready }

/-- The event that `epoll_wait` reports for the socket. -/
def event (k : Socket) (fd : Fd) : Event :=
  ⟨fd, k.hangup, k.interest = .reading && k.readable, k.interest = .writing && k.room⟩

/-- The socket of a connection as `accept4` returns it. -/
def accepted (stream : Bytes) (eof room hangup : Bool) : Socket :=
  ⟨stream, 0, eof, room, hangup, .reading, false⟩

/-- The answer to a `recv`. -/
def recv (k : Socket) : RecvResult → Option Socket
  | .data chunk =>
    if chunk ≠ [] ∧ chunk <+: k.inbox then some { k with taken := k.taken + chunk.length } else none
  | .wouldBlock => if k.readable then none else some k
  | .eof => if k.inbox = [] ∧ k.eof = true then some k else none
  | .error => some k

/-- The answer to a `send`, after which there may be room for more or not. -/
def send (k : Socket) (room : Bool) : SendResult → Option Socket
  | .accepted _ => some { k with room := room }
  | .wouldBlock => if k.room then none else some k
  | .error => some k

/-- What happens on the network. -/
inductive Change
  /-- Bytes arrive. -/
  | arrive (chunk : Bytes)
  /-- The client closes its side. -/
  | shutdown
  /-- The client has taken bytes and there is room again. -/
  | drain
  /-- A hang-up or an error. -/
  | hangup

/-- A change of the socket is an edge when it is of the registered kind. -/
def change (k : Socket) : Change → Socket
  | .arrive chunk =>
    { k with stream := k.stream ++ chunk, queued := k.queued || k.interest = .reading }
  | .shutdown => { k with eof := true, queued := k.queued || k.interest = .reading }
  | .drain => { k with room := true, queued := k.queued || k.interest = .writing }
  | .hangup => { k with hangup := true, queued := true }

end Socket

/-! ## The loop -/

namespace Loop

/-- Where the loop stands. -/
inductive Stage
  /-- In `epoll_wait`. -/
  | poll
  /-- Before the next event of the batch; after the last one, before `while (running_)`. -/
  | batch (events : List Event)
  /-- Before an `accept4`. -/
  | accepting (events : List Event)
  /-- Before a `recv` or `send` on a connection. -/
  | serving (fd : Fd) (events : List Event)
  /-- The connections are closed, before the test `server_fd_ >= 0`. -/
  | cleanup
  /-- Before `close(server_fd_)`, which reads `server_fd_` once more. -/
  | closing
  /-- Before `server_fd_ = -1`. -/
  | forget
  /-- The thread has ended. -/
  | done
deriving DecidableEq, Repr

/-- Where `stop()` stands, which may be called at any point after the server socket has been set
up. -/
inductive Stopping
  | idle
  /-- After `running_.exchange(false)`, before the test `server_fd_ >= 0`. -/
  | cleared
  /-- Before `close(server_fd_)`, which reads `server_fd_` once more. -/
  | tested
  /-- Before `server_fd_ = -1`. -/
  | closed
  /-- Before the `join`. -/
  | finished
deriving DecidableEq, Repr

/-- The memory of the loop and of `stop()`, and the kernel's sockets. -/
structure State (E : Type) where
  running : Bool
  serverFd : Fd
  stage : Stage
  conns : AList fun _ : Fd => Conn E
  stopping : Stopping
  /-- The open server socket. -/
  listening : Option Fd
  /-- The open sockets of connections. -/
  sockets : Fd → Option Socket
  /-- The connections that are closed. -/
  past : List (Conn E)
  /-- The descriptors passed to `close` that were not open. -/
  strays : List Fd

/-- What may happen next. -/
inductive Label (E : Type)
  /-- `epoll_wait` returns these events. -/
  | poll (events : List Event)
  /-- `epoll_wait` fails; with `EINTR` the loop goes on. -/
  | pollFailed (interrupted : Bool)
  /-- The loop goes on by itself. -/
  | next
  /-- `accept4` returns a descriptor. -/
  | accepted (fd : Fd) (k : Socket)
  | acceptFailed
  /-- The answer to a `recv`; `e` is what a reply would depend on at this moment. -/
  | recv (r : RecvResult) (e : E)
  /-- The answer to a `send`. -/
  | send (w : SendResult) (room : Bool)
  /-- A change of a socket. -/
  | change (fd : Fd) (c : Socket.Change)
  /-- `stop()` goes on. -/
  | stop

namespace State

/-- `while (running_)` is reached with the server socket open and registered, and no `stop()`
has been called before. -/
def init (serverFd : Fd) : State E :=
  ⟨true, serverFd, .batch [], ∅, .idle, some serverFd, fun _ => none, [], []⟩

/-- `close` of a descriptor. -/
def closeFd (s : State E) (fd : Fd) : State E :=
  if s.listening = some fd then { s with listening := none }
  else if (s.sockets fd).isSome then { s with sockets := Function.update s.sockets fd none }
  else { s with strays := s.strays ++ [fd] }

/-- `close_conn` for the connection `c`. -/
def closeConn (s : State E) (fd : Fd) (c : Conn E) : State E :=
  { s.closeFd fd with conns := s.conns.erase fd, past := s.past ++ [c] }

/-- A connection with its socket. -/
def put (s : State E) (fd : Fd) (c : Conn E) (k : Socket) : State E :=
  { s with conns := s.conns.insert fd c, sockets := Function.update s.sockets fd (some k) }

/-- A connection `c` has become `c'`.  A change of its state goes with an `epoll_ctl`; the loop
stays with the connection until no call is due. -/
def resume (s : State E) (fd : Fd) (events : List Event) (c c' : Conn E) (k : Socket) : State E :=
  let k' := if c'.state = c.state then k else k.ctl c'.state
  match c'.phase with
  | .closed => { s.closeConn fd c' with stage := .batch events }
  | .wait => { s.put fd c' k' with stage := .batch events }
  | _ => { s.put fd c' k' with stage := .serving fd events }

/-- `epoll_wait` may report this event. -/
def CanReport (s : State E) (ev : Event) : Prop :=
  s.listening = some ev.fd ∨
    ∃ k ∈ s.sockets ev.fd, k.queued = true ∧ k.ready = true ∧ ev = k.event ev.fd

instance (s : State E) (ev : Event) : Decidable (s.CanReport ev) :=
  inferInstanceAs (Decidable (_ ∨ _))

/-- The events are reported. -/
def report (s : State E) (events : List Event) : State E :=
  { s with
    stage := .batch events
    sockets := fun fd =>
      if fd ∈ events.map Event.fd then (s.sockets fd).map ({ · with queued := false })
      else s.sockets fd }

/-- The handling of one event of a batch. -/
def handle (sv : Service E) (s : State E) (ev : Event) (events : List Event) :
    Option (State E) :=
  if ev.fd = s.serverFd then some { s with stage := .accepting events }
  else
    match s.conns.lookup ev.fd, s.sockets ev.fd with
    | none, _ => some { s.closeFd ev.fd with stage := .batch events }
    | some c, some k =>
      (Epoll.step sv c (.event ev.hangup ev.readable ev.writable)).map
        (s.resume ev.fd events c · k)
    | some _, none => none

/-- The connections are closed at the end of the loop. -/
def closeAll (s : State E) : State E :=
  { s with
    stage := .cleanup
    conns := ∅
    sockets := fun fd => if fd ∈ s.conns then none else s.sockets fd
    past := s.past ++ s.conns.entries.map Sigma.snd
    strays := s.strays ++ (s.conns.keys.filter fun fd => (s.sockets fd).isNone) }

end State

/-- One step of the loop, of `stop()` or of the network; `none` when the label does not
apply. -/
def step (sv : Service E) (s : State E) : Label E → Option (State E)
  | .poll events =>
    match s.stage with
    | .poll =>
      if events.length ≤ maxEvents ∧ (events.map Event.fd).Nodup ∧ ∀ ev ∈ events, s.CanReport ev
      then some (s.report events) else none
    | _ => none
  | .pollFailed interrupted =>
    match s.stage with
    | .poll => some (if interrupted then { s with stage := .batch [] } else s.closeAll)
    | _ => none
  | .next =>
    match s.stage with
    | .batch [] => some (if s.running then { s with stage := .poll } else s.closeAll)
    | .batch (ev :: events) => s.handle sv ev events
    | .cleanup => some { s with stage := if s.serverFd = -1 then .done else .closing }
    | .closing => some { s.closeFd s.serverFd with stage := .forget }
    | .forget => some { s with serverFd := -1, stage := .done }
    | _ => none
  | .accepted fd k =>
    match s.stage with
    | .accepting _ =>
      -- a new descriptor is not one that is open
      if s.listening = some s.serverFd ∧ fd ≠ -1 ∧ fd ≠ s.serverFd ∧ s.sockets fd = none then
        some (s.put fd ((s.conns.lookup fd).getD .new)
          ((Socket.accepted k.stream k.eof k.room k.hangup).ctl .reading))
      else none
    | _ => none
  | .acceptFailed =>
    match s.stage with
    | .accepting events => some { s with stage := .batch events }
    | _ => none
  | .recv r e =>
    match s.stage with
    | .serving fd events =>
      match s.conns.lookup fd, (s.sockets fd).bind (Socket.recv · r) with
      | some c, some k => (Epoll.step sv c (.recv r e)).map (s.resume fd events c · k)
      | _, _ => none
    | _ => none
  | .send w room =>
    match s.stage with
    | .serving fd events =>
      match s.conns.lookup fd, (s.sockets fd).bind (Socket.send · room w) with
      | some c, some k => (Epoll.step sv c (.send w)).map (s.resume fd events c · k)
      | _, _ => none
    | _ => none
  | .change fd c =>
    some { s with sockets := Function.update s.sockets fd ((s.sockets fd).map (·.change c)) }
  | .stop =>
    match s.stopping with
    | .idle =>
      some { s with running := false, stopping := if s.running then .cleared else .finished }
    | .cleared => some { s with stopping := if s.serverFd = -1 then .finished else .tested }
    | .tested => some { s.closeFd s.serverFd with stopping := .closed }
    | .closed => some { s with serverFd := -1, stopping := .finished }
    | .finished => none

/-- `step` as a transition relation. -/
def Step (sv : Service E) (s : State E) (l : Label E) (t : State E) : Prop :=
  step sv s l = some t

/-! ## What a step can do -/

section Cases

variable {sv : Service E} {s t : State E}

lemma step_poll {events : List Event} (hs : Step sv s (.poll events) t) :
    s.stage = .poll ∧ (events.length ≤ maxEvents ∧ (events.map Event.fd).Nodup ∧
      ∀ ev ∈ events, s.CanReport ev) ∧ t = s.report events := by
  simp only [Step, step] at hs
  split at hs
  · rename_i hstage
    split at hs
    · rename_i hok
      exact ⟨hstage, hok, (Option.some.inj hs).symm⟩
    · exact absurd hs (by simp)
  · exact absurd hs (by simp)

lemma step_pollFailed {interrupted : Bool} (hs : Step sv s (.pollFailed interrupted) t) :
    s.stage = .poll ∧ t = if interrupted then { s with stage := .batch [] } else s.closeAll := by
  simp only [Step, step] at hs
  split at hs
  · rename_i hstage
    exact ⟨hstage, (Option.some.inj hs).symm⟩
  · exact absurd hs (by simp)

lemma step_accepted {fd : Fd} {k : Socket} (hs : Step sv s (.accepted fd k) t) :
    (∃ events, s.stage = .accepting events) ∧
      (s.listening = some s.serverFd ∧ fd ≠ -1 ∧ fd ≠ s.serverFd ∧ s.sockets fd = none) ∧
      t = s.put fd ((s.conns.lookup fd).getD .new)
        ((Socket.accepted k.stream k.eof k.room k.hangup).ctl .reading) := by
  simp only [Step, step] at hs
  split at hs
  · rename_i events hstage
    split at hs
    · rename_i hok
      exact ⟨⟨events, hstage⟩, hok, (Option.some.inj hs).symm⟩
    · exact absurd hs (by simp)
  · exact absurd hs (by simp)

lemma step_acceptFailed (hs : Step sv s .acceptFailed t) :
    ∃ events, s.stage = .accepting events ∧ t = { s with stage := .batch events } := by
  simp only [Step, step] at hs
  split at hs
  · rename_i events hstage
    exact ⟨events, hstage, (Option.some.inj hs).symm⟩
  · exact absurd hs (by simp)

lemma step_recv {r : RecvResult} {e : E} (hs : Step sv s (.recv r e) t) :
    ∃ fd events c c' k₀ k, s.stage = .serving fd events ∧ s.conns.lookup fd = some c ∧
      s.sockets fd = some k₀ ∧ k₀.recv r = some k ∧ Epoll.step sv c (.recv r e) = some c' ∧
      t = s.resume fd events c c' k := by
  simp only [Step, step] at hs
  split at hs
  · rename_i fd events hstage
    split at hs
    · rename_i c k hc hk
      obtain ⟨k₀, hk₀, hk⟩ := Option.bind_eq_some_iff.mp hk
      obtain ⟨c', hc', ht⟩ := Option.map_eq_some_iff.mp hs
      exact ⟨fd, events, c, c', k₀, k, hstage, hc, hk₀, hk, hc', ht.symm⟩
    · exact absurd hs (by simp)
  · exact absurd hs (by simp)

lemma step_send {w : SendResult} {room : Bool} (hs : Step sv s (.send w room) t) :
    ∃ fd events c c' k₀ k, s.stage = .serving fd events ∧ s.conns.lookup fd = some c ∧
      s.sockets fd = some k₀ ∧ k₀.send room w = some k ∧ Epoll.step sv c (.send w) = some c' ∧
      t = s.resume fd events c c' k := by
  simp only [Step, step] at hs
  split at hs
  · rename_i fd events hstage
    split at hs
    · rename_i c k hc hk
      obtain ⟨k₀, hk₀, hk⟩ := Option.bind_eq_some_iff.mp hk
      obtain ⟨c', hc', ht⟩ := Option.map_eq_some_iff.mp hs
      exact ⟨fd, events, c, c', k₀, k, hstage, hc, hk₀, hk, hc', ht.symm⟩
    · exact absurd hs (by simp)
  · exact absurd hs (by simp)

/-- A step of the loop's own: back to `epoll_wait` or out of the loop, one event of the batch, or
one of the three steps that close the server socket at the end. -/
lemma step_next (hs : Step sv s .next t) :
    (s.stage = .batch [] ∧ t = if s.running then { s with stage := .poll } else s.closeAll) ∨
      (∃ ev events, s.stage = .batch (ev :: events) ∧ s.handle sv ev events = some t) ∨
      (s.stage = .cleanup ∧ t = { s with stage := if s.serverFd = -1 then .done else .closing }) ∨
      (s.stage = .closing ∧ t = { s.closeFd s.serverFd with stage := .forget }) ∨
      (s.stage = .forget ∧ t = { s with serverFd := -1, stage := .done }) := by
  simp only [Step, step] at hs
  split at hs
  · rename_i hstage
    exact Or.inl ⟨hstage, (Option.some.inj hs).symm⟩
  · rename_i ev events hstage
    exact Or.inr (Or.inl ⟨ev, events, hstage, hs⟩)
  · rename_i hstage
    exact Or.inr (Or.inr (Or.inl ⟨hstage, (Option.some.inj hs).symm⟩))
  · rename_i hstage
    exact Or.inr (Or.inr (Or.inr (Or.inl ⟨hstage, (Option.some.inj hs).symm⟩)))
  · rename_i hstage
    exact Or.inr (Or.inr (Or.inr (Or.inr ⟨hstage, (Option.some.inj hs).symm⟩)))
  · exact absurd hs (by simp)

end Cases

end Loop

end TickPlant.Epoll
