/-
# The completion loop of the io_uring server

The loop submits operations (`ACCEPT`, `RECV`, `SEND`), the kernel completes them in any
order and with any result, and each completion is handled before the next one is looked at.
A submitted operation carries a 64-bit word into which the descriptor and the kind of the
operation are packed; it is all that the loop learns about the operation from its
completion.

A submission records the buffers of its connection at that time.  That they are the same
when the operation completes (the kernel reads or writes them in between) is one of the
clauses of `Sound`, which `sound_run` shows for every reachable state, together with the
rest of the protocol: one accept in flight, one operation per connection, no operation
without a connection.  The last clause says that the loop runs the machine `Conn` for each
connection.
-/
import TickPlant.Server.Uring

namespace TickPlant.Uring

open Lib

variable {E : Type} {sv : Service E}

/-! ## User data -/

/-- The value of the enumerator. -/
def Op.code : Op → BitVec 8
  | .accept => 0
  | .recv => 1
  | .send => 2

/-- `static_cast<Op>`. -/
def Op.ofCode (n : BitVec 8) : Option Op :=
  if n = 0 then some .accept else if n = 1 then some .recv else if n = 2 then some .send else none

/-- `encode_ud`. -/
def encodeUd (fd : Fd) (op : Op) : BitVec 64 := fd.setWidth 64 ||| (op.code.setWidth 64 <<< 32)

/-- `decode_ud`. -/
def decodeUd (ud : BitVec 64) : Fd × Option Op :=
  ((ud &&& 0xFFFFFFFF).setWidth 32, Op.ofCode (((ud >>> 32) &&& 0xFF).setWidth 8))

/-- The descriptor fills the lower half of the word, the kind of operation the upper. -/
lemma toNat_encodeUd (fd : Fd) (op : Op) :
    (encodeUd fd op).toNat = 2 ^ 32 * op.code.toNat + fd.toNat := by
  have hfd := fd.isLt
  have hop := op.code.isLt
  have hshift : (op.code.setWidth 64 <<< 32).toNat = 2 ^ 32 * op.code.toNat := by
    rw [BitVec.toNat_shiftLeft, BitVec.toNat_setWidth, Nat.shiftLeft_eq, mul_comm]
    omega
  rw [encodeUd, BitVec.toNat_or, hshift, BitVec.toNat_setWidth, Nat.mod_eq_of_lt (by omega),
    Nat.or_comm, Nat.two_pow_add_eq_or_of_lt hfd]

/-- **Decoding inverts encoding.** -/
lemma decodeUd_encodeUd (fd : Fd) (op : Op) : decodeUd (encodeUd fd op) = (fd, some op) := by
  have hfdlt := fd.isLt
  have hoplt := op.code.isLt
  have hfd : (encodeUd fd op &&& 0xFFFFFFFF).setWidth 32 = fd := by
    apply BitVec.eq_of_toNat_eq
    rw [BitVec.toNat_setWidth, BitVec.toNat_and, toNat_encodeUd]
    show (_ &&& (2 ^ 32 - 1)) % 2 ^ 32 = _
    rw [Nat.and_two_pow_sub_one_eq_mod]
    omega
  have hop : ((encodeUd fd op >>> 32) &&& 0xFF).setWidth 8 = op.code := by
    apply BitVec.eq_of_toNat_eq
    rw [BitVec.toNat_setWidth, BitVec.toNat_and, BitVec.toNat_ushiftRight, toNat_encodeUd,
      Nat.shiftRight_eq_div_pow]
    show (_ &&& (2 ^ 8 - 1)) % 2 ^ 8 = _
    rw [Nat.and_two_pow_sub_one_eq_mod]
    omega
  rw [decodeUd, hfd, hop]
  cases op <;> rfl

/-! ## The loop -/

/-- A submitted operation, with the buffers of its connection at the time of submission. -/
structure Sqe (E : Type) where
  userData : BitVec 64
  fd : Fd
  op : Op
  chan : Option (Channel E)

/-- The state between two iterations of the loop. -/
structure State (E : Type) where
  serverFd : Fd
  conns : AList fun _ : Fd => Channel E
  /-- The operations submitted and not yet completed. -/
  outstanding : List (Sqe E)

/-- What may happen between two iterations. -/
inductive Label (E : Type)
  /-- The operation at this place completes. -/
  | complete (i : ℕ) (r : Result E)
  /-- `stop()` closes the server socket. -/
  | stop

namespace State

/-- `submit_accept`. -/
def submitAccept (s : State E) : State E :=
  { s with
    outstanding := s.outstanding ++
      [⟨encodeUd s.serverFd .accept, s.serverFd, .accept, none⟩] }

/-- `submit_recv` and `submit_send`, for a connection whose buffers are `c`. -/
def submit (s : State E) (fd : Fd) (c : Channel E) (op : Op) : State E :=
  { s with
    conns := s.conns.insert fd c
    outstanding := s.outstanding ++ [⟨encodeUd fd op, fd, op, some c⟩] }

/-- `conns[fd]`, which creates the entry when it is missing. -/
def conn (s : State E) (fd : Fd) : Channel E := (s.conns.lookup fd).getD .new

/-- `close(fd); conns.erase(fd);` -/
def close (s : State E) (fd : Fd) : State E := { s with conns := s.conns.erase fd }

/-- What follows the handling of a completion. -/
def follow (s : State E) (fd : Fd) : Next E → State E
  | .close _ => s.close fd
  | .submitRecv c => s.submit fd c .recv
  | .submitSend c => s.submit fd c .send

/-- The loop is entered with the first accept submitted. -/
def init (serverFd : Fd) : State E := submitAccept ⟨serverFd, ∅, []⟩

end State

/-- The handling of an `ACCEPT` completion.  An accepted descriptor is not one that is still
open. -/
def onAccept (s : State E) : Result E → Option (State E)
  | .failed => some s.submitAccept
  | .accepted cfd =>
    if cfd ∈ s.conns then none else some (s.submitAccept.submit cfd (s.conn cfd) .recv)
  | _ => none

/-- One iteration of the loop, or a call of `stop()`. -/
def step (sv : Service E) (s : State E) : Label E → Option (State E)
  | .stop => some { s with serverFd := -1 }
  | .complete i r =>
    match s.outstanding[i]? with
    | none => none
    | some sqe =>
      let s := { s with outstanding := s.outstanding.eraseIdx i }
      match decodeUd sqe.userData with
      | (_, some .accept) => onAccept s r
      | (fd, some .recv) => (onRecv sv (s.conn fd) r).map (s.follow fd)
      | (fd, some .send) => (onSend (s.conn fd) r).map (s.follow fd)
      | (_, none) => some s

/-- `step` as a transition relation. -/
def Step (sv : Service E) (s : State E) (l : Label E) (t : State E) : Prop := step sv s l = some t

/-! ## The protocol -/

/-- The operation is an accept. -/
def Sqe.isAccept (q : Sqe E) : Bool := q.op = .accept

/-- The operation is a receive or a send on `fd`. -/
def Sqe.isOn (q : Sqe E) (fd : Fd) : Bool := q.op ≠ .accept && q.fd = fd

/-- The protocol between the loop and the kernel. -/
structure Sound (sv : Service E) (s : State E) : Prop where
  /-- Exactly one accept is in flight. -/
  one_accept : s.outstanding.countP Sqe.isAccept = 1
  /-- Every connection has exactly one operation in flight. -/
  one_op : ∀ fd ∈ s.conns, s.outstanding.countP (Sqe.isOn · fd) = 1
  /-- Every receive or send in flight is on a connection. -/
  no_orphan : ∀ q ∈ s.outstanding, q.op ≠ .accept → q.fd ∈ s.conns
  /-- The loop learns from a completion which operation it was. -/
  decoded : ∀ q ∈ s.outstanding, decodeUd q.userData = (q.fd, some q.op)
  /-- The buffers of a connection are not touched while its operation is in flight. -/
  untouched : ∀ q ∈ s.outstanding, q.op ≠ .accept → s.conns.lookup q.fd = q.chan
  /-- The connections run as `Conn` does. -/
  runs : ∀ q ∈ s.outstanding, q.op ≠ .accept → ∀ c ∈ q.chan,
    ∃ rs, Run (Conn.Step sv) Conn.new rs ⟨c, some q.op⟩

/-- The protocol while a completion on `fd` is being handled: no operation is in flight on
this descriptor. -/
structure SoundBut (sv : Service E) (fd : Fd) (s : State E) : Prop where
  one_accept : s.outstanding.countP Sqe.isAccept = 1
  one_op : ∀ fd' ∈ s.conns, fd' ≠ fd → s.outstanding.countP (Sqe.isOn · fd') = 1
  no_orphan : ∀ q ∈ s.outstanding, q.op ≠ .accept → q.fd ∈ s.conns ∧ q.fd ≠ fd
  decoded : ∀ q ∈ s.outstanding, decodeUd q.userData = (q.fd, some q.op)
  untouched : ∀ q ∈ s.outstanding, q.op ≠ .accept → s.conns.lookup q.fd = q.chan
  runs : ∀ q ∈ s.outstanding, q.op ≠ .accept → ∀ c ∈ q.chan,
    ∃ rs, Run (Conn.Step sv) Conn.new rs ⟨c, some q.op⟩

/-- Removing one element lowers the counts it is counted in. -/
lemma countP_eraseIdx {l : List (Sqe E)} {i : ℕ} {q : Sqe E} (h : l[i]? = some q)
    (p : Sqe E → Bool) : l.countP p = (l.eraseIdx i).countP p + if p q then 1 else 0 := by
  obtain ⟨hi, rfl⟩ := List.getElem?_eq_some_iff.mp h
  rw [← (List.getElem_cons_eraseIdx_perm hi).countP_eq, List.countP_cons]

/-- A completion on a connection is taken from the queue. -/
lemma Sound.remove {s : State E} (h : Sound sv s) {i : ℕ} {q : Sqe E}
    (hq : s.outstanding[i]? = some q) (hop : q.op ≠ .accept) :
    SoundBut sv q.fd { s with outstanding := s.outstanding.eraseIdx i } := by
  have hmem : q ∈ s.outstanding := List.mem_of_getElem? hq
  have hsub : ∀ {q'}, q' ∈ s.outstanding.eraseIdx i → q' ∈ s.outstanding :=
    fun hq' => List.mem_of_mem_eraseIdx hq'
  have hfd := h.no_orphan q hmem hop
  -- the removed operation was the only one on its descriptor
  have hnone : (s.outstanding.eraseIdx i).countP (Sqe.isOn · q.fd) = 0 := by
    have hcount := countP_eraseIdx hq (Sqe.isOn · q.fd)
    rw [h.one_op q.fd hfd, if_pos (by simp [Sqe.isOn, hop])] at hcount
    omega
  refine ⟨?_, ?_, ?_, fun q' hq' => h.decoded q' (hsub hq'),
    fun q' hq' => h.untouched q' (hsub hq'), fun q' hq' => h.runs q' (hsub hq')⟩
  · have hcount := countP_eraseIdx hq Sqe.isAccept
    rw [h.one_accept, if_neg (by simp [Sqe.isAccept, hop])] at hcount
    exact hcount.symm
  · intro fd' hfd' hne
    have hcount := countP_eraseIdx hq (Sqe.isOn · fd')
    rw [h.one_op fd' hfd', if_neg (by simp [Sqe.isOn, hop, Ne.symm hne])] at hcount
    exact hcount.symm
  · intro q' hq' hop'
    refine ⟨h.no_orphan q' (hsub hq') hop', ?_⟩
    intro heq
    have := List.countP_eq_zero.mp hnone q' hq'
    exact this (by simp [Sqe.isOn, hop', heq])

/-- The connection is closed. -/
lemma SoundBut.close {s : State E} {fd : Fd} (h : SoundBut sv fd s) : Sound sv (s.close fd) := by
  refine ⟨h.one_accept, ?_, ?_, h.decoded, ?_, h.runs⟩
  · intro fd' hfd'
    obtain ⟨hne, hmem⟩ := AList.mem_erase.mp hfd'
    exact h.one_op fd' hmem hne
  · intro q hq hop
    obtain ⟨hmem, hne⟩ := h.no_orphan q hq hop
    exact AList.mem_erase.mpr ⟨hne, hmem⟩
  · intro q hq hop
    rw [State.close, AList.lookup_erase_ne (h.no_orphan q hq hop).2]
    exact h.untouched q hq hop

/-- The connection gets its next operation. -/
lemma SoundBut.submit {s : State E} {fd : Fd} {c : Channel E} {op : Op} (h : SoundBut sv fd s)
    (hop : op ≠ .accept) (hrun : ∃ rs, Run (Conn.Step sv) Conn.new rs ⟨c, some op⟩) :
    Sound sv (s.submit fd c op) := by
  -- so the submitted operation is the only one on its descriptor
  have hnone : s.outstanding.countP (Sqe.isOn · fd) = 0 := by
    rw [List.countP_eq_zero]
    intro q hq hon
    simp only [Sqe.isOn, ne_eq, Bool.and_eq_true, decide_eq_true_eq] at hon
    exact (h.no_orphan q hq (by simpa using hon.1)).2 hon.2
  refine ⟨?_, ?_, ?_, ?_, ?_, ?_⟩
  · simp only [State.submit, List.countP_append, h.one_accept]
    simp [Sqe.isAccept, hop]
  · intro fd' hfd'
    simp only [State.submit, List.countP_append]
    by_cases hne : fd' = fd
    · rw [hne, hnone]
      simp [Sqe.isOn, hop]
    · have hmem : fd' ∈ s.conns := by
        rcases (AList.mem_insert s.conns).mp hfd' with h' | h'
        · exact absurd h' hne
        · exact h'
      rw [h.one_op fd' hmem hne]
      simp [Sqe.isOn, Ne.symm hne]
  · intro q hq hop'
    rcases List.mem_append.mp hq with hq | hq
    · exact (AList.mem_insert s.conns).mpr (Or.inr (h.no_orphan q hq hop').1)
    · rw [List.mem_singleton.mp hq]
      exact (AList.mem_insert s.conns).mpr (Or.inl rfl)
  · intro q hq
    rcases List.mem_append.mp hq with hq | hq
    · exact h.decoded q hq
    · rw [List.mem_singleton.mp hq]
      exact decodeUd_encodeUd fd op
  · intro q hq hop'
    rcases List.mem_append.mp hq with hq | hq
    · rw [State.submit, AList.lookup_insert_ne (h.no_orphan q hq hop').2]
      exact h.untouched q hq hop'
    · rw [List.mem_singleton.mp hq]
      exact AList.lookup_insert s.conns
  · intro q hq hop' c' hc'
    rcases List.mem_append.mp hq with hq | hq
    · exact h.runs q hq hop' c' hc'
    · rw [List.mem_singleton.mp hq] at hc' ⊢
      rw [← Option.some.inj hc']
      exact hrun

/-- A completed accept is submitted again. -/
lemma Sound.rearm {s : State E} (h : Sound sv s) {i : ℕ} {q : Sqe E}
    (hq : s.outstanding[i]? = some q) (hop : q.op = .accept) :
    Sound sv (State.submitAccept { s with outstanding := s.outstanding.eraseIdx i }) := by
  have hsub : ∀ {q'}, q' ∈ s.outstanding.eraseIdx i → q' ∈ s.outstanding :=
    fun hq' => List.mem_of_mem_eraseIdx hq'
  have hcases : ∀ {q'},
      q' ∈ (State.submitAccept { s with outstanding := s.outstanding.eraseIdx i }).outstanding →
        q' ∈ s.outstanding ∨ q' = ⟨encodeUd s.serverFd .accept, s.serverFd, .accept, none⟩ := by
    intro q' hq'
    rcases List.mem_append.mp hq' with hq' | hq'
    · exact Or.inl (hsub hq')
    · exact Or.inr (List.mem_singleton.mp hq')
  refine ⟨?_, ?_, ?_, ?_, ?_, ?_⟩
  · have hcount := countP_eraseIdx hq Sqe.isAccept
    rw [h.one_accept, if_pos (by simp [Sqe.isAccept, hop])] at hcount
    simp only [State.submitAccept, List.countP_append]
    simp only [Sqe.isAccept, decide_true, List.countP_singleton, if_true]
    exact hcount.symm
  · intro fd hfd
    have hcount := countP_eraseIdx hq (Sqe.isOn · fd)
    rw [h.one_op fd hfd, if_neg (by simp [Sqe.isOn, hop]), add_zero] at hcount
    rw [State.submitAccept, List.countP_append, ← hcount]
    simp [Sqe.isOn]
  · intro q' hq' hop'
    rcases hcases hq' with hq' | rfl
    · exact h.no_orphan q' hq' hop'
    · exact absurd rfl hop'
  · intro q' hq'
    rcases hcases hq' with hq' | rfl
    · exact h.decoded q' hq'
    · exact decodeUd_encodeUd _ _
  · intro q' hq' hop'
    rcases hcases hq' with hq' | rfl
    · exact h.untouched q' hq' hop'
    · exact absurd rfl hop'
  · intro q' hq' hop'
    rcases hcases hq' with hq' | rfl
    · exact h.runs q' hq' hop'
    · exact absurd rfl hop'

/-- No operation is in flight on a descriptor without a connection. -/
lemma Sound.but {s : State E} (h : Sound sv s) {fd : Fd} (hfd : fd ∉ s.conns) :
    SoundBut sv fd s where
  one_accept := h.one_accept
  one_op := fun fd' hfd' _ => h.one_op fd' hfd'
  no_orphan := fun q hq hop =>
    ⟨h.no_orphan q hq hop, fun heq => hfd (heq ▸ h.no_orphan q hq hop)⟩
  decoded := h.decoded
  untouched := h.untouched
  runs := h.runs

/-- The buffers that the loop finds for a completion are those of its submission. -/
lemma Sound.chan_eq {s : State E} (h : Sound sv s) {q : Sqe E} (hq : q ∈ s.outstanding)
    (hop : q.op ≠ .accept) : q.chan = some (s.conn q.fd) := by
  have hlook := h.untouched q hq hop
  have hsome := AList.lookup_isSome.mpr (h.no_orphan q hq hop)
  obtain ⟨c, hc⟩ := Option.isSome_iff_exists.mp hsome
  rw [← hlook, State.conn, hc]
  rfl

/-- A handled completion leaves the protocol intact. -/
lemma SoundBut.follow {s : State E} {fd : Fd} {next : Next E} (h : SoundBut sv fd s)
    (hrun : ∃ rs, Run (Conn.Step sv) Conn.new rs next.conn) : Sound sv (s.follow fd next) := by
  cases next with
  | close c => exact h.close
  | submitRecv c => exact h.submit (by simp) hrun
  | submitSend c => exact h.submit (by simp) hrun

/-- **Every iteration of the loop keeps the protocol.** -/
lemma sound_step {s t : State E} {l : Label E} (h : Sound sv s) (hs : Step sv s l t) :
    Sound sv t := by
  cases l with
  | stop =>
    obtain rfl := Option.some.inj hs
    exact ⟨h.one_accept, h.one_op, h.no_orphan, h.decoded, h.untouched, h.runs⟩
  | complete i r =>
    simp only [Step, step] at hs
    split at hs
    · exact absurd hs (by simp)
    · rename_i q hq
      have hmem : q ∈ s.outstanding := List.mem_of_getElem? hq
      rw [h.decoded q hmem] at hs
      cases hop : q.op with
      | accept =>
        -- the next accept is submitted whatever the result of this one was
        rw [hop] at hs
        have hrearm := h.rearm hq hop
        cases r with
        | failed =>
          obtain rfl := Option.some.inj hs
          exact hrearm
        | accepted cfd =>
          simp only [onAccept] at hs
          split at hs
          · exact absurd hs (by simp)
          · rename_i hnew
            obtain rfl := Option.some.inj hs
            -- the descriptor is new, so `emplace` starts a fresh connection
            have hchan : State.conn { s with outstanding := s.outstanding.eraseIdx i } cfd =
                (Channel.new : Channel E) := by
              rw [State.conn, AList.lookup_eq_none.mpr hnew]
              rfl
            rw [hchan]
            exact (hrearm.but hnew).submit (by simp) ⟨[], .nil _⟩
        | data chunk e => exact absurd hs (by simp [onAccept])
        | sent n => exact absurd hs (by simp [onAccept])
      | recv =>
        rw [hop] at hs
        have hne : q.op ≠ .accept := by rw [hop]; simp
        obtain ⟨next, hnext, rfl⟩ := Option.map_eq_some_iff.mp hs
        -- the completion extends the run of this connection by one result
        obtain ⟨rs, hrun⟩ := h.runs q hmem hne _ (h.chan_eq hmem hne)
        rw [hop] at hrun
        refine (h.remove hq hne).follow ⟨_, hrun.snoc (l := r) ?_⟩
        exact congrArg (Option.map Next.conn) hnext
      | send =>
        rw [hop] at hs
        have hne : q.op ≠ .accept := by rw [hop]; simp
        obtain ⟨next, hnext, rfl⟩ := Option.map_eq_some_iff.mp hs
        obtain ⟨rs, hrun⟩ := h.runs q hmem hne _ (h.chan_eq hmem hne)
        rw [hop] at hrun
        refine (h.remove hq hne).follow ⟨_, hrun.snoc (l := r) ?_⟩
        exact congrArg (Option.map Next.conn) hnext

lemma sound_init (serverFd : Fd) : Sound sv (State.init serverFd) where
  one_accept := rfl
  one_op := fun fd hfd => absurd hfd (AList.notMem_empty fd)
  no_orphan := by
    intro q hq hop
    rw [List.mem_singleton.mp hq] at hop
    exact absurd rfl hop
  decoded := by
    intro q hq
    rw [List.mem_singleton.mp hq]
    exact decodeUd_encodeUd _ _
  untouched := by
    intro q hq hop
    rw [List.mem_singleton.mp hq] at hop
    exact absurd rfl hop
  runs := by
    intro q hq hop
    rw [List.mem_singleton.mp hq] at hop
    exact absurd rfl hop

/-- The protocol holds in every reachable state. -/
lemma sound_run {serverFd : Fd} {ls : List (Label E)} {s : State E}
    (h : Run (Step sv) (State.init serverFd) ls s) : Sound sv s :=
  h.invariant (sound_init serverFd) fun _ _ _ hs hstep => sound_step hs hstep

/-- **The protocol of the completion loop.**  In every reachable state between two
iterations exactly one accept is in flight, every connection has exactly one operation in
flight, no receive or send is in flight without a connection, the descriptor and the kind of
every operation in flight are recovered from its user data, and the buffers of a connection
are as they were when its operation was submitted. -/
theorem uring_protocol (sv : Service E) (serverFd : Fd) (ls : List (Label E)) (s : State E)
    (hrun : Run (Step sv) (State.init serverFd) ls s) :
    s.outstanding.countP Sqe.isAccept = 1 ∧
      (∀ fd ∈ s.conns, s.outstanding.countP (Sqe.isOn · fd) = 1) ∧
      (∀ q ∈ s.outstanding, q.op ≠ .accept → q.fd ∈ s.conns) ∧
      (∀ q ∈ s.outstanding, decodeUd q.userData = (q.fd, some q.op)) ∧
      ∀ q ∈ s.outstanding, q.op ≠ .accept → s.conns.lookup q.fd = q.chan := by
  have h := sound_run hrun
  exact ⟨h.one_accept, h.one_op, h.no_orphan, h.decoded, h.untouched⟩

/-- Two clients connect, the first one sends a request and takes a part of the reply. -/
def twoClients : List (Label QueryEnv) :=
  [.complete 0 (.accepted 7), .complete 0 (.accepted 8),
    .complete 0 (.data (bytes "HEALTH\n") bareEnv), .complete 2 (.sent 3)]

/-- The state of the loop after that. -/
def afterTwoClients : State QueryEnv :=
  (twoClients.foldlM (step queryService) (State.init 3)).get (by decide +kernel)

/-- The protocol at the end of this run, with a receive and a send in flight. -/
theorem uring_protocol_twoClients :
    afterTwoClients.outstanding.map Sqe.op = [.accept, .recv, .send] ∧
      afterTwoClients.outstanding.countP Sqe.isAccept = 1 :=
  ⟨by decide +kernel, (uring_protocol queryService 3 twoClients afterTwoClients
    (.of_foldlM (Option.some_get _).symm)).1⟩

end TickPlant.Uring
