/-
# A client and a server

A TCP connection between a client and one of the three query servers.  The bytes that the
client has sent and the server has not yet received are in `up`, those on the way back in
`down`; either side may take any initial part of what is on its way, or none.

What a client can rely on does not depend on the server: `ServerConn` has a connection of a
server as a transition system whose history is orderly, and the connections of the epoll, the
io_uring and the simple server are such systems.
-/
import TickPlant.Server.Replies
import TickPlant.Server.Simple

namespace TickPlant

open Lib

variable {E : Type} {sv : Service E}

/-! ## Orderly histories -/

/-- The bytes sent are an initial part of the replies to the calls, and the calls are for the
lines received. -/
structure Orderly (sv : Service E) (log : Log E) : Prop where
  sent : log.sent <+: replies sv log.calls
  lines : ∃ raws rest, log.calls.map Prod.snd = raws.map cString ∧ (∀ l ∈ raws, newline ∉ l) ∧
    log.chunks.flatten = wire raws ++ rest

/-- The history goes on. -/
structure Log.Grows (log log' : Log E) : Prop where
  calls : log.calls <+: log'.calls
  sent : log.sent <+: log'.sent
  chunks : log.chunks <+: log'.chunks

namespace Log.Grows

lemma refl (log : Log E) : log.Grows log :=
  ⟨List.prefix_rfl, List.prefix_rfl, List.prefix_rfl⟩

lemma trans {a b c : Log E} (h : a.Grows b) (h' : b.Grows c) : a.Grows c :=
  ⟨h.calls.trans h'.calls, h.sent.trans h'.sent, h.chunks.trans h'.chunks⟩

lemma call (log : Log E) (e : E) (line : Bytes) : log.Grows (log.call e line) :=
  ⟨List.prefix_append _ _, List.prefix_rfl, List.prefix_rfl⟩

lemma accept (log : Log E) (s : Bytes) : log.Grows (log.accept s) :=
  ⟨List.prefix_rfl, List.prefix_append _ _, List.prefix_rfl⟩

lemma receive (log : Log E) (chunk : Bytes) : log.Grows (log.receive chunk) :=
  ⟨List.prefix_rfl, List.prefix_rfl, List.prefix_append _ _⟩

end Log.Grows

/-- What follows from a state of the specification. -/
lemma Channel.Represents.orderly {c : Channel E} {closed : Bool} {as : List (Deed E)}
    {d : Dialogue E} (h : c.Represents closed d) (hd : Run (Dialogue.Step sv) .init as d) :
    Orderly sv c.log := by
  have hspec := Dialogue.run_spec hd
  refine ⟨(h.inOrder hd).1, d.consumed.map Prod.snd, d.input, ?_, ?_, ?_⟩
  · rw [← h.calls, Dialogue.calls, List.map_map, List.map_map]
    rfl
  · intro l hl
    obtain ⟨x, hx, rfl⟩ := List.mem_map.mp hl
    exact hspec.lines x hx
  · rw [← h.received]
    exact hspec.received_eq

/-- A client that has sent only these lines, or a part of them, gets no others answered. -/
lemma Orderly.calls_initial {log : Log E} (h : Orderly sv log) {lines : List Bytes}
    (hlines : ∀ l ∈ lines, newline ∉ l) (hstream : log.chunks.flatten <+: wire lines) :
    log.calls.map Prod.snd <+: lines.map cString := by
  obtain ⟨raws, rest, hcalls, hraws, hchunks⟩ := h.lines
  obtain ⟨rest', hrest⟩ := hstream
  rw [hchunks, List.append_assoc] at hrest
  obtain ⟨ms, rfl, -⟩ := wire_cut hraws hlines hrest
  rw [hcalls, List.map_append]
  exact List.prefix_append _ _

/-! ## Servers -/

/-- A connection of a server with the request handler `sv`. -/
structure ServerConn (sv : Service E) where
  State : Type
  Label : Type
  Step : State → Label → State → Prop
  init : State
  log : State → Log E
  log_init : log init = .empty
  orderly : ∀ {ls s}, Run Step init ls s → Orderly sv (log s)
  grows : ∀ {s l s'}, Step s l s' → (log s).Grows (log s')

lemma Channel.receive_grows {c c₁ : Channel E} {chunk : Bytes} (h : c.receive chunk = some c₁) :
    c.log.Grows c₁.log := by
  rw [(Channel.valid_receive h).2.2.2]
  exact .receive _ _

lemma Channel.answer_grows {e : E} {c c₂ : Channel E} (h : c.answer sv e = some c₂) :
    c.log.Grows c₂.log := by
  obtain ⟨raw, -, -, -, hlog⟩ := Channel.answer_eq_some h
  rw [hlog]
  exact .call _ _ _

lemma Epoll.step_grows {c c' : Epoll.Conn E} {l : Epoll.Label E} (hs : Epoll.Step sv c l c') :
    c.chan.log.Grows c'.chan.log := by
  cases Epoll.move_of_step hs with
  | hangup | recvEnded | sendFailed => exact .refl _
  | readable =>
    rw [Epoll.Conn.log_enterRecv]
    exact .refl _
  | notReadable | recvBlocked =>
    rw [Epoll.Conn.log_enterWriting]
    exact .refl _
  | noLine hpc hrecv =>
    rw [Epoll.Conn.log_enterRecv]
    exact Channel.receive_grows hrecv
  | line hpc hrecv hans =>
    rw [Epoll.Conn.log_enterWriting]
    exact (Channel.receive_grows hrecv).trans (Channel.answer_grows hans)
  | sent =>
    rw [Epoll.Conn.log_enterSend]
    exact .accept _ _
  | sendBlocked =>
    rw [Epoll.Conn.log_endSend]
    exact .refl _

lemma Uring.step_grows {c c' : Uring.Conn E} {r : Uring.Result E} (hs : Uring.Conn.Step sv c r c') :
    c.chan.log.Grows c'.chan.log := by
  cases Uring.Conn.move_of_step hs with
  | failed => exact .refl _
  | full hop hrecv => exact Channel.receive_grows hrecv
  | noLine hop hrecv => exact Channel.receive_grows hrecv
  | line hop hrecv hans => exact (Channel.receive_grows hrecv).trans (Channel.answer_grows hans)
  | sentPart => exact .accept _ _
  | sentAll => exact .accept _ _

/-- A connection of the epoll server. -/
def epollConn (sv : Service E) : ServerConn sv where
  State := Epoll.Conn E
  Label := Epoll.Label E
  Step := Epoll.Step sv
  init := .new
  log := fun c => c.chan.log
  log_init := rfl
  orderly := by
    intro ls c hrun
    obtain ⟨as, d, hd, hrep, -⟩ := Epoll.simulates hrun
    exact hrep.orderly hd
  grows := Epoll.step_grows

/-- A connection of the io_uring server. -/
def uringConn (sv : Service E) : ServerConn sv where
  State := Uring.Conn E
  Label := Uring.Result E
  Step := Uring.Conn.Step sv
  init := .new
  log := fun c => c.chan.log
  log_init := rfl
  orderly := by
    intro ls c hrun
    obtain ⟨as, d, hd, hrep, -⟩ := Uring.simulates hrun
    exact hrep.orderly hd
  grows := Uring.step_grows

/-! ### The simple server -/

namespace Simple

/-- No byte of a reply is lost in the `send`; the connection may fail. -/
def Label.Lossless : Label E → Prop
  | .recv _ _ lost => lost = 0
  | .failed => True

/-- The turns in which no byte of a reply is lost. -/
def LosslessStep (sv : Service E) (c : Client E) (l : Label E) (c' : Client E) : Prop :=
  Step sv c l c' ∧ l.Lossless

/-- The invariant of a connection that may fail. -/
structure Kept (sv : Service E) (c : Client E) : Prop where
  absorbs : (c.log.calls.map Prod.snd, c.buf.valid) = absorbed c.log.chunks
  sent : c.log.sent = replies sv c.log.calls

lemma kept_step {c c' : Client E} {l : Label E} (h : Kept sv c) (hs : LosslessStep sv c l c') :
    Kept sv c' := by
  obtain ⟨hs, hl⟩ := hs
  cases l with
  | failed =>
    simp only [Step, step] at hs
    split at hs
    · exact absurd hs (by simp)
    · obtain rfl := Option.some.inj hs
      exact ⟨h.absorbs, h.sent⟩
  | recv chunk e lost =>
    have hopen : c.closed = false := by
      by_contra hclosed
      simp [Step, step, Bool.not_eq_false _ ▸ hclosed] at hs
    have hinv := inv_step ⟨h.absorbs, h.sent, fun hc => absurd hc (by simp [hopen])⟩ hs hl
    exact ⟨hinv.absorbs, hinv.sent⟩

lemma step_grows {c c' : Client E} {l : Label E} (hs : Step sv c l c') : c.log.Grows c'.log := by
  cases l with
  | failed =>
    simp only [Step, step] at hs
    split at hs
    · exact absurd hs (by simp)
    · obtain rfl := Option.some.inj hs
      exact .refl _
  | recv chunk e lost =>
    simp only [Step, step] at hs
    split at hs
    · exact absurd hs (by simp)
    · split at hs
      · exact absurd hs (by simp)
      · split at hs
        · obtain rfl := Option.some.inj hs
          exact .receive _ _
        · obtain rfl := Option.some.inj hs
          exact (Log.Grows.receive _ _).trans ((Log.Grows.call _ _ _).trans (.accept _ _))

end Simple

/-- A connection of the simple server, whose buffer starts with the bytes on the stack. -/
def simpleConn (sv : Service E) (stack : LineBuffer) : ServerConn sv where
  State := Simple.Client E
  Label := Simple.Label E
  Step := Simple.LosslessStep sv
  init := .new stack
  log := Simple.Client.log
  log_init := rfl
  orderly := by
    intro ls c hrun
    have h : Simple.Kept sv c :=
      hrun.invariant ⟨rfl, rfl⟩ fun _ _ _ hc hs => Simple.kept_step hc hs
    obtain ⟨raws, hcalls, hraws, hstream⟩ := absorbed_stream c.log.chunks
    refine ⟨by rw [h.sent], raws, (absorbed c.log.chunks).2, ?_, hraws, hstream⟩
    rw [← hcalls, ← h.absorbs]
  grows := fun hs => Simple.step_grows hs.1

/-! ## The connection -/

/-- A client: what a call sends and takes, and what comes after it. -/
structure ClientProgram where
  State : Type
  Label : Type
  init : State
  /-- The new state, the bytes sent and the bytes taken. -/
  step : State → Label → Option (State × Bytes × Bytes)

/-- A client connected to a server. -/
structure Link (S : ServerConn sv) (K : ClientProgram) where
  server : S.State
  client : K.State
  /-- Sent by the client and not received by the server. -/
  up : Bytes
  /-- Sent by the server and not taken by the client. -/
  down : Bytes
  /-- All bytes sent by the client. -/
  said : Bytes
  /-- All bytes taken by the client. -/
  heard : Bytes

namespace Link

variable {S : ServerConn sv} {K : ClientProgram}

/-- A server and a client at the start of a connection. -/
def init (S : ServerConn sv) (K : ClientProgram) : Link S K := ⟨S.init, K.init, [], [], [], []⟩

/-- What the server has received in a step. -/
def received (log log' : Log E) : Bytes := (log'.chunks.drop log.chunks.length).flatten

/-- What the server has sent in a step. -/
def emitted (log log' : Log E) : Bytes := log'.sent.drop log.sent.length

/-- A step of the server or of the client. -/
inductive Step : Link S K → S.Label ⊕ K.Label → Link S K → Prop
  | server {x : Link S K} {l : S.Label} {s' : S.State} {rest : Bytes}
      (hs : S.Step x.server l s') (hup : x.up = received (S.log x.server) (S.log s') ++ rest) :
      Step x (.inl l)
        { x with
          server := s'
          up := rest
          down := x.down ++ emitted (S.log x.server) (S.log s') }
  | client {x : Link S K} {a : K.Label} {k' : K.State} {out taken rest : Bytes}
      (hk : K.step x.client a = some (k', out, taken)) (hdown : x.down = taken ++ rest) :
      Step x (.inr a)
        { x with
          client := k'
          up := x.up ++ out
          down := rest
          said := x.said ++ out
          heard := x.heard ++ taken }

/-- A step of the client, by the parts of the state. -/
lemma Step.ofClient {x y : Link S K} {a : K.Label} {out taken : Bytes}
    (hserver : y.server = x.server) (hk : K.step x.client a = some (y.client, out, taken))
    (hup : y.up = x.up ++ out) (hdown : x.down = taken ++ y.down) (hsaid : y.said = x.said ++ out)
    (hheard : y.heard = x.heard ++ taken) : Step x (.inr a) y := by
  obtain ⟨server, client, up, down, said, heard⟩ := y
  dsimp only at hserver hk hup hdown hsaid hheard
  subst hserver hup hsaid hheard
  exact .client hk hdown

/-- A step of the server, by the parts of the state. -/
lemma Step.ofServer {x y : Link S K} {l : S.Label} (hs : S.Step x.server l y.server)
    (hclient : y.client = x.client)
    (hup : x.up = received (S.log x.server) (S.log y.server) ++ y.up)
    (hdown : y.down = x.down ++ emitted (S.log x.server) (S.log y.server))
    (hsaid : y.said = x.said) (hheard : y.heard = x.heard) : Step x (.inl l) y := by
  obtain ⟨server, client, up, down, said, heard⟩ := y
  dsimp only at hs hclient hup hdown hsaid hheard
  subst hclient hdown hsaid hheard
  exact .server hs hup

/-- The bytes are on their way or have arrived. -/
structure Inv (x : Link S K) : Prop where
  run : ∃ ls, Run S.Step S.init ls x.server
  up : x.said = (S.log x.server).chunks.flatten ++ x.up
  down : (S.log x.server).sent = x.heard ++ x.down

lemma inv_init : Inv (init S K) := by
  refine ⟨⟨[], .nil _⟩, ?_, ?_⟩ <;> simp [init, S.log_init, Log.empty]

lemma inv_step {x y : Link S K} {l : S.Label ⊕ K.Label} (h : Inv x) (hs : Step x l y) : Inv y := by
  cases hs with
  | server hs hup =>
    obtain ⟨ls, hrun⟩ := h.run
    have hgrows := S.grows hs
    refine ⟨⟨_, hrun.snoc hs⟩, ?_, ?_⟩
    · obtain ⟨cs, hcs⟩ := hgrows.chunks
      have hnew := h.up
      rw [hup, received, ← hcs, List.drop_left] at hnew
      rw [hnew, ← hcs, List.flatten_append, List.append_assoc]
    · obtain ⟨s, hsent⟩ := hgrows.sent
      rw [emitted, ← hsent, List.drop_left, ← List.append_assoc, ← h.down]
  | client hk hdown =>
    refine ⟨h.run, ?_, ?_⟩
    · rw [h.up, List.append_assoc]
    · rw [h.down, hdown, List.append_assoc]

lemma inv_run {ls : List (S.Label ⊕ K.Label)} {x : Link S K} (h : Run Step (init S K) ls x) :
    Inv x :=
  h.invariant inv_init fun _ _ _ hx hs => inv_step hx hs

/-- What the client has taken is an initial part of the replies. -/
lemma Inv.heard_initial {x : Link S K} (h : Inv x) :
    x.heard <+: replies sv (S.log x.server).calls := by
  obtain ⟨ls, hrun⟩ := h.run
  exact List.IsPrefix.trans ⟨x.down, h.down.symm⟩ (S.orderly hrun).sent

/-- Only lines that the client has sent are answered. -/
lemma Inv.calls_initial {x : Link S K} (h : Inv x) {lines : List Bytes}
    (hlines : ∀ l ∈ lines, newline ∉ l) (hsaid : x.said <+: wire lines) :
    (S.log x.server).calls.map Prod.snd <+: lines.map cString := by
  obtain ⟨ls, hrun⟩ := h.run
  exact (S.orderly hrun).calls_initial hlines (List.IsPrefix.trans ⟨x.up, h.up.symm⟩ hsaid)

/-- The calls only grow. -/
lemma Step.calls_initial {x y : Link S K} {l : S.Label ⊕ K.Label} (hs : Step x l y) :
    (S.log x.server).calls <+: (S.log y.server).calls := by
  cases hs with
  | server hs hup => exact (S.grows hs).calls
  | client hk hdown => exact List.prefix_rfl

end Link

end TickPlant
