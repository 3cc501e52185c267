/-
# The descriptors of the epoll server

`stop()` closes the server socket from another thread, while the loop may hold an event for it
or be about to close it itself.  `close` may then be called on the server socket a second time,
or on `-1` when the other thread stores that between the test of `server_fd_` and the call.
`Closing` counts the calls that are still to come; it shows that this is all that can happen:
one stray call at most, no other descriptor closed that is not open, nothing of the kind before
`stop()` is called, and nothing left open when the thread has ended.
-/
import TickPlant.Server.EpollProtocol

namespace TickPlant.Epoll.Loop

open Lib

variable {E : Type} {sv : Service E}

/-- The loop has not ended. -/
def Stage.inLoop : Stage → Bool
  | .cleanup | .closing | .forget | .done => false
  | _ => true

/-- The loop has not closed the server socket at its end. -/
def Stage.beforeClose : Stage → Bool
  | .forget | .done => false
  | _ => true

/-- Whether the loop may still call `close` on what was the server socket. -/
def loopCloses (serverFd : Fd) (s : State E) : Bool :=
  match s.stage with
  | .forget | .done => false
  -- the test has been made, whatever `server_fd_` is now
  | .closing => true
  | stage => s.serverFd = serverFd || stage.events.any fun ev => ev.fd = serverFd

/-- Whether `stop()` may still call `close` on what was the server socket. -/
def stopCloses (serverFd : Fd) (s : State E) : Bool :=
  match s.stopping with
  | .idle | .cleared => s.serverFd = serverFd
  | .tested => true
  | .closed | .finished => false

/-- The calls of `close` on the server socket. -/
structure Closing (serverFd : Fd) (s : State E) : Prop where
  /-- Only the server socket is closed twice, or forgotten before the call. -/
  strays : ∀ fd ∈ s.strays, fd = serverFd ∨ fd = -1
  listening : s.strays ≠ [] → s.listening = none
  /-- At most two calls, one of which closes an open socket. -/
  count : s.strays.length + (loopCloses serverFd s).toNat + (stopCloses serverFd s).toNat +
    (s.listening.isNone).toNat ≤ 2
  forgotten : s.serverFd ≠ serverFd → s.listening = none
  closed : s.stopping = .closed → s.listening = none
  idle : s.stopping = .idle → s.strays = [] ∧
    (s.stage.beforeClose = true → s.listening = some serverFd ∧ s.serverFd = serverFd)
  ended : s.stage.inLoop = false → s.conns = ∅
  forget : s.stage = .forget ∨ s.stage = .done → s.listening = none

lemma Stage.beforeClose_of_inLoop {stage : Stage} (h : stage.inLoop = true) :
    stage.beforeClose = true := by
  cases stage <;> first | rfl | exact absurd h (by simp [Stage.inLoop])

lemma loopCloses_iff {serverFd : Fd} {s : State E} (h : s.stage.inLoop = true ∨ s.stage = .cleanup) :
    loopCloses serverFd s = true ↔
      s.serverFd = serverFd ∨ serverFd ∈ s.stage.events.map Event.fd := by
  rw [loopCloses]
  cases hstage : s.stage <;> simp [hstage, Stage.inLoop] at h <;>
    simp only [Bool.or_eq_true, decide_eq_true_eq, List.any_eq_true, List.mem_map]

section Steps

variable {serverFd : Fd} {s t : State E} {fd : Fd} {events : List Event}

/-- A step in the loop that closes no server socket. -/
lemma Closing.frame (h : Closing serverFd s) (hstrays : t.strays = s.strays)
    (hlistening : t.listening = s.listening) (hserver : t.serverFd = s.serverFd)
    (hstopping : t.stopping = s.stopping) (hs : s.stage.inLoop = true)
    (ht : t.stage.inLoop = true)
    (hevents : serverFd ∈ t.stage.events.map Event.fd →
      serverFd ∈ s.stage.events.map Event.fd ∨ s.serverFd = serverFd) : Closing serverFd t := by
  have hloop : (loopCloses serverFd t).toNat ≤ (loopCloses serverFd s).toNat := by
    refine Bool.toNat_le_toNat (Bool.le_iff_imp.mpr ?_)
    rw [loopCloses_iff (Or.inl hs), loopCloses_iff (Or.inl ht), hserver]
    rintro (heq | hm)
    · exact Or.inl heq
    · exact (hevents hm).symm
  refine ⟨by rw [hstrays]; exact h.strays, by rw [hstrays, hlistening]; exact h.listening, ?_,
    by rw [hserver, hlistening]; exact h.forgotten, by rw [hstopping, hlistening]; exact h.closed,
    ?_, ?_, ?_⟩
  · have hcount := h.count
    rw [stopCloses, hstrays, hlistening, hserver, hstopping]
    rw [stopCloses] at hcount
    omega
  · rw [hstopping, hstrays, hlistening, hserver]
    exact fun hidle => ⟨(h.idle hidle).1, fun _ => (h.idle hidle).2 (Stage.beforeClose_of_inLoop hs)⟩
  · exact fun hend => absurd (ht.symm.trans hend) (by simp)
  · rintro (hend | hend) <;> exact absurd ht (by simp [hend, Stage.inLoop])

lemma Closing.init : Closing serverFd (State.init serverFd : State E) where
  strays := fun fd hfd => absurd hfd (by simp [State.init])
  listening := fun hne => absurd rfl hne
  count := by simp [State.init, loopCloses, stopCloses]
  forgotten := fun hne => absurd rfl hne
  closed := fun hclosed => absurd hclosed (by simp [State.init])
  idle := fun _ => ⟨rfl, fun _ => ⟨rfl, rfl⟩⟩
  ended := fun hend => absurd hend (by simp [State.init, Stage.inLoop])
  forget := by rintro (hend | hend) <;> exact absurd hend (by simp [State.init])

/-- The connections are closed at the end of the loop. -/
lemma Closing.closeAll (h : Closing serverFd s) (hsound : Sound sv serverFd s)
    (hs : s.stage.inLoop = true) : Closing serverFd s.closeAll := by
  have hstrays : s.closeAll.strays = s.strays := by
    refine (List.append_right_eq_self).mpr ?_
    rw [List.filter_eq_nil_iff]
    intro fd hfd
    have := (hsound.keys fd).mp (AList.mem_keys.mpr hfd)
    simpa [Option.isSome_iff_ne_none] using this
  have hloop : (loopCloses serverFd s.closeAll).toNat ≤ (loopCloses serverFd s).toNat := by
    refine Bool.toNat_le_toNat (Bool.le_iff_imp.mpr ?_)
    rw [loopCloses_iff (Or.inl hs), loopCloses_iff (Or.inr rfl)]
    exact Or.imp_right fun hm => absurd hm (by simp [State.closeAll, Stage.events])
  refine ⟨by rw [hstrays]; exact h.strays, by rw [hstrays]; exact h.listening, ?_, h.forgotten,
    h.closed, ?_, fun _ => rfl, ?_⟩
  · have hcount := h.count
    have hstop : stopCloses serverFd s.closeAll = stopCloses serverFd s := rfl
    have hlisten : s.closeAll.listening = s.listening := rfl
    rw [hstrays, hstop, hlisten]
    omega
  · rw [hstrays]
    exact fun hidle => ⟨(h.idle hidle).1, fun _ => (h.idle hidle).2 (Stage.beforeClose_of_inLoop hs)⟩
  · rintro (hend | hend) <;> exact absurd hend (by simp [State.closeAll])

/-- A connection goes on, or is closed. -/
lemma resume_frame (h : Static sv serverFd s) (hmem : fd ∈ s.conns) (events : List Event)
    (c c' : Conn E) (k : Socket) :
    (s.resume fd events c c' k).strays = s.strays ∧
      (s.resume fd events c c' k).listening = s.listening ∧
      (s.resume fd events c c' k).serverFd = s.serverFd ∧
      (s.resume fd events c c' k).stopping = s.stopping ∧
      (s.resume fd events c c' k).stage.inLoop = true ∧
      (s.resume fd events c c' k).stage.events = events := by
  rw [State.resume]
  split
  · rw [State.closeConn, h.closeFd hmem]
    exact ⟨rfl, rfl, rfl, rfl, rfl, rfl⟩
  · exact ⟨rfl, rfl, rfl, rfl, rfl, rfl⟩
  · exact ⟨rfl, rfl, rfl, rfl, rfl, rfl⟩

/-- A step of a connection closes no server socket. -/
lemma Closing.resume (h : Closing serverFd s) (hsound : Sound sv serverFd s) (hmem : fd ∈ s.conns)
    {c c' : Conn E} {k : Socket} (hs : s.stage.inLoop = true)
    (hevents : events ⊆ s.stage.events) :
    Closing serverFd (s.resume fd events c c' k) := by
  obtain ⟨hstrays, hlistening, hserver, hstopping, hloop, hev⟩ :=
    resume_frame hsound.toStatic hmem events c c' k
  refine h.frame hstrays hlistening hserver hstopping hs hloop ?_
  rw [hev]
  exact fun hm => Or.inl (List.map_subset _ hevents hm)

/-- A call of `close` on the server socket closes it, or is a stray one. -/
lemma closeFd_server (s : State E) (hnone : s.sockets fd = none)
    (hlisten : ∀ fd' ∈ s.listening, fd' = fd) :
    s.closeFd fd = { s with listening := none } ∧ s.listening.isSome = true ∨
      s.closeFd fd = { s with strays := s.strays ++ [fd] } ∧ s.listening = none := by
  rcases Option.eq_none_or_eq_some s.listening with hl | ⟨fd', hl⟩
  · refine Or.inr ⟨?_, hl⟩
    rw [State.closeFd, if_neg (by simp [hl]), if_neg (by simp [hnone])]
  · obtain rfl := hlisten fd' hl
    refine Or.inl ⟨?_, by simp [hl]⟩
    rw [State.closeFd, if_pos hl]

/-- A call of `close` on what was the server socket: it was open, or the call is a stray one. -/
lemma Closing.closeServer (h : Closing serverFd s) (hsound : Sound sv serverFd s)
    (hfd : fd = serverFd ∨ fd = -1 ∧ s.listening = none)
    (hstrays : t.strays = (s.closeFd fd).strays)
    (hlistening : t.listening = (s.closeFd fd).listening)
    (hcount : (loopCloses serverFd t).toNat + (stopCloses serverFd t).toNat + 1 ≤
      (loopCloses serverFd s).toNat + (stopCloses serverFd s).toNat)
    (hidle : t.stopping = .idle →
      s.listening.isSome = true ∧ s.stopping = .idle ∧ t.stage = .forget)
    (hended : t.stage.inLoop = false → t.conns = ∅) : Closing serverFd t := by
  have hcall : s.closeFd fd = { s with listening := none } ∧ s.listening.isSome = true ∨
      s.closeFd fd = { s with strays := s.strays ++ [fd] } ∧ s.listening = none := by
    rcases hfd with rfl | ⟨rfl, hnone⟩
    · exact closeFd_server s hsound.fresh hsound.listening
    · exact closeFd_server s hsound.valid (by simp [hnone])
  have hshut : t.listening = none := by
    rw [hlistening]
    rcases hcall with ⟨heq, -⟩ | ⟨heq, hnone⟩
    · rw [heq]
    · rw [heq]
      exact hnone
  refine ⟨?_, fun _ => hshut, ?_, fun _ => hshut, fun _ => hshut, ?_, hended, fun _ => hshut⟩
  · rw [hstrays]
    rcases hcall with ⟨heq, -⟩ | ⟨heq, -⟩
    · rw [heq]
      exact h.strays
    · rw [heq]
      intro fd' hfd'
      rcases List.mem_append.mp hfd' with hfd' | hfd'
      · exact h.strays fd' hfd'
      · rw [List.mem_singleton.mp hfd']
        exact hfd.imp_right And.left
  · have hlen : t.strays.length ≤ s.strays.length + (s.listening.isNone).toNat := by
      rw [hstrays]
      rcases hcall with ⟨heq, -⟩ | ⟨heq, hnone⟩
      · rw [heq]
        exact Nat.le_add_right _ _
      · rw [heq, hnone]
        simp
    have := h.count
    have hone : (t.listening.isNone).toNat = 1 := by rw [hshut]; rfl
    omega
  · intro hstop
    obtain ⟨hopen, hsidle, hforget⟩ := hidle hstop
    refine ⟨?_, fun hbefore => absurd hbefore (by simp [hforget, Stage.beforeClose])⟩
    rw [hstrays]
    rcases hcall with ⟨heq, -⟩ | ⟨-, hnone⟩
    · rw [heq]
      exact (h.idle hsidle).1
    · exact absurd hopen (by simp [hnone])

/-- The server socket is forgotten. -/
lemma Closing.forgetServer (h : Closing serverFd s) (hstrays : t.strays = s.strays)
    (hlistening : t.listening = s.listening) (hshut : s.listening = none)
    (hcount : (loopCloses serverFd t).toNat + (stopCloses serverFd t).toNat ≤
      (loopCloses serverFd s).toNat + (stopCloses serverFd s).toNat)
    (hidle : t.stopping = .idle → s.stopping = .idle ∧ t.stage = .done)
    (hended : t.stage.inLoop = false → t.conns = ∅) : Closing serverFd t := by
  have hnone : t.listening = none := hlistening.trans hshut
  refine ⟨by rw [hstrays]; exact h.strays, fun _ => hnone, ?_, fun _ => hnone, fun _ => hnone, ?_,
    hended, fun _ => hnone⟩
  · have := h.count
    rw [hstrays, hlistening]
    omega
  · intro hstop
    obtain ⟨hsidle, hdone⟩ := hidle hstop
    exact ⟨by rw [hstrays]; exact (h.idle hsidle).1,
      fun hbefore => absurd hbefore (by simp [hdone, Stage.beforeClose])⟩

/-- The handling of one event. -/
lemma closing_handle {ev : Event} (h : Closing serverFd s) (hsound : Sound sv serverFd s)
    (hstage : s.stage = .batch (ev :: events)) (hs : s.handle sv ev events = some t) :
    Closing serverFd t := by
  have hloop : s.stage.inLoop = true := by rw [hstage]; rfl
  have hsub : events ⊆ s.stage.events := by
    rw [hstage]
    exact List.subset_cons_self ev events
  rw [State.handle] at hs
  split at hs
  · obtain rfl := Option.some.inj hs
    exact h.frame rfl rfl rfl rfl hloop rfl fun hm => Or.inl (List.map_subset _ hsub hm)
  · rename_i hne
    split at hs
    · rename_i hnone
      obtain rfl := Option.some.inj hs
      have hfd : ev.fd = serverFd := by
        refine (hsound.reported ev (by rw [hstage]; exact List.mem_cons_self)).resolve_right ?_
        exact AList.lookup_eq_none.mp hnone
      obtain ⟨hconns, -, hserver, -, -, hstopping⟩ := closeFd_frame s ev.fd
      -- the server socket has been forgotten, so the loop will not close it once more
      have hforgot : s.serverFd ≠ serverFd := fun heq => hne (hfd.trans heq.symm)
      have hbefore : loopCloses serverFd s = true := by
        rw [loopCloses_iff (Or.inl hloop), hstage]
        exact Or.inr (by simp [Stage.events, hfd])
      have hafter : loopCloses serverFd { s.closeFd ev.fd with stage := .batch events } = false := by
        rw [Bool.eq_false_iff, ne_eq, loopCloses_iff (Or.inl rfl)]
        have hnodup := hsound.nodup
        rw [hstage, Stage.events, List.map_cons, List.nodup_cons, hfd] at hnodup
        simp only [hserver]
        exact fun hor => hor.elim hforgot hnodup.1
      refine h.closeServer hsound (Or.inl hfd) rfl rfl ?_ ?_ ?_
      · rw [hbefore, hafter]
        simp only [stopCloses, hserver, hstopping, Bool.toNat_true, Bool.toNat_false]
        omega
      · intro hidle
        rw [show ({ s.closeFd ev.fd with stage := .batch events } : State E).stopping = s.stopping
          from hstopping] at hidle
        exact absurd ((h.idle hidle).2 (Stage.beforeClose_of_inLoop hloop)).2 hforgot
      · exact fun hend => absurd hend (by simp [Stage.inLoop])
    · rename_i c k hc hk
      obtain ⟨c', -, rfl⟩ := Option.map_eq_some_iff.mp hs
      exact h.resume hsound (AList.lookup_isSome.mp (Option.isSome_of_mem hc)) hloop hsub
    · exact absurd hs (by simp)

/-- What `server_fd_` holds is the server socket, or it has been closed. -/
lemma Closing.current (h : Closing serverFd s) (hsound : Sound sv serverFd s)
    (hneg : serverFd ≠ -1) : s.serverFd = serverFd ∨ s.serverFd = -1 ∧ s.listening = none := by
  rcases hsound.server with hfd | hfd
  · exact Or.inl hfd
  · exact Or.inr ⟨hfd, h.forgotten fun heq => hneg (heq.symm.trans hfd)⟩

/-- `stop()` goes on without a call of `close`. -/
lemma Closing.stopping (h : Closing serverFd s) (running : Bool) (stopping : Stopping)
    (hidle : stopping ≠ .idle) (hclosed : stopping ≠ .closed)
    (hcount : stopCloses serverFd { s with running := running, stopping := stopping } = true →
      stopCloses serverFd s = true) :
    Closing serverFd { s with running := running, stopping := stopping } := by
  refine ⟨h.strays, h.listening, ?_, h.forgotten, fun hc => absurd hc hclosed,
    fun hi => absurd hi hidle, h.ended, h.forget⟩
  have hstop := Bool.toNat_le_toNat (Bool.le_iff_imp.mpr hcount)
  have hloop : loopCloses serverFd { s with running := running, stopping := stopping } =
      loopCloses serverFd s := rfl
  have hsum := h.count
  simp only [hloop]
  omega

/-- A thread that stores `-1` does not bring a call of the other one about. -/
lemma stopCloses_of_forgot (hneg : serverFd ≠ -1) (stage : Stage)
    (h : stopCloses serverFd { s with serverFd := -1, stage := stage } = true) :
    stopCloses serverFd s = true := by
  simp only [stopCloses] at h ⊢
  split at h
  · exact absurd (of_decide_eq_true h).symm hneg
  · exact absurd (of_decide_eq_true h).symm hneg
  · rfl
  · exact h
  · exact h

lemma loopCloses_of_forgot (hneg : serverFd ≠ -1) (stopping : Stopping)
    (h : loopCloses serverFd { s with serverFd := -1, stopping := stopping } = true) :
    loopCloses serverFd s = true := by
  simp only [loopCloses] at h ⊢
  split at h
  · exact h
  · exact h
  · rfl
  · rcases Bool.or_eq_true_iff.mp h with heq | hany
    · exact absurd (of_decide_eq_true heq).symm hneg
    · exact Bool.or_eq_true_iff.mpr (Or.inr hany)

/-- `stop()` goes on. -/
lemma closing_stop (h : Closing serverFd s) (hsound : Sound sv serverFd s) (hneg : serverFd ≠ -1)
    (hs : Step sv s .stop t) : Closing serverFd t := by
  simp only [Step, step] at hs
  split at hs
  · rename_i hidle
    obtain rfl := Option.some.inj hs
    refine h.stopping false _ ?_ ?_ ?_
    · split <;> simp
    · split <;> simp
    · by_cases hrun : s.running = true
      · simp only [stopCloses, hidle, if_pos hrun]
        exact id
      · simp only [stopCloses, if_neg hrun]
        exact fun hf => absurd hf (by simp)
  · rename_i hcleared
    obtain rfl := Option.some.inj hs
    refine h.stopping s.running _ ?_ ?_ ?_
    · split <;> simp
    · split <;> simp
    · split
      · exact fun hf => absurd hf (by simp [stopCloses])
      · rename_i hne
        intro _
        simp only [stopCloses, hcleared, decide_eq_true_eq]
        exact hsound.server.resolve_right hne
  · rename_i htested
    obtain rfl := Option.some.inj hs
    obtain ⟨hconns, -, hserver, hstage, -, -⟩ := closeFd_frame s s.serverFd
    have hone : stopCloses serverFd s = true := by simp only [stopCloses, htested]
    have hloop : loopCloses serverFd { s.closeFd s.serverFd with stopping := .closed } =
        loopCloses serverFd s := by
      simp only [loopCloses, hstage, hserver]
    refine h.closeServer hsound (h.current hsound hneg) rfl rfl ?_ ?_ ?_
    · rw [hloop, hone]
      simp [stopCloses]
    · exact fun hidle => absurd hidle (by simp)
    · intro hend
      refine hconns.trans (h.ended ?_)
      rwa [← hstage]
  · rename_i hclosed
    obtain rfl := Option.some.inj hs
    refine h.forgetServer rfl rfl (h.closed hclosed) ?_ (fun hc => absurd hc (by simp)) h.ended
    have hle := Bool.toNat_le_toNat (Bool.le_iff_imp.mpr
      (loopCloses_of_forgot (s := s) hneg .finished))
    have hzero : stopCloses serverFd { s with serverFd := -1, stopping := .finished } = false := rfl
    rw [hzero]
    simp only [Bool.toNat_false]
    omega
  · exact absurd hs (by simp)

/-- The test of `server_fd_` in the cleanup: the loop will call `close`, or `-1` is stored. -/
lemma closing_cleanup (h : Closing serverFd s) (hsound : Sound sv serverFd s) (hneg : serverFd ≠ -1)
    (hstage : s.stage = .cleanup) :
    Closing serverFd { s with stage := if s.serverFd = -1 then .done else .closing } := by
  have hempty := h.ended (by rw [hstage]; rfl)
  have hbefore : s.stage.beforeClose = true := by rw [hstage]; rfl
  split
  · rename_i hminus
    refine h.forgetServer rfl rfl (h.forgotten fun heq => hneg (heq.symm.trans hminus)) ?_
      (fun hidle => ?_) fun _ => hempty
    · simp only [loopCloses, hstage, stopCloses, Bool.toNat_false]
      omega
    · exact absurd (((h.idle hidle).2 hbefore).2.symm.trans hminus) hneg
  · rename_i hopen
    -- the call that the test lets through is the one that was counted before it
    have hone : loopCloses serverFd s = true :=
      (loopCloses_iff (Or.inr hstage)).mpr (Or.inl (hsound.server.resolve_right hopen))
    have hcount := h.count
    refine ⟨h.strays, h.listening, ?_, h.forgotten, h.closed,
      fun hidle => ⟨(h.idle hidle).1, fun _ => (h.idle hidle).2 hbefore⟩, fun _ => hempty, ?_⟩
    · rw [hone] at hcount
      exact hcount
    · rintro (hend | hend) <;> exact absurd hend (by simp)

/-- `close(server_fd_)` in the cleanup. -/
lemma closing_close (h : Closing serverFd s) (hsound : Sound sv serverFd s) (hneg : serverFd ≠ -1)
    (hstage : s.stage = .closing) :
    Closing serverFd { s.closeFd s.serverFd with stage := .forget } := by
  obtain ⟨hconns, -, hserver, -, -, hstopping⟩ := closeFd_frame s s.serverFd
  refine h.closeServer hsound (h.current hsound hneg) rfl rfl ?_ ?_
    fun _ => hconns.trans (h.ended (by rw [hstage]; rfl))
  · have hone : loopCloses serverFd s = true := by simp only [loopCloses, hstage]
    have hzero : loopCloses serverFd { s.closeFd s.serverFd with stage := .forget } = false := rfl
    rw [hone, hzero]
    simp only [stopCloses, hserver, hstopping, Bool.toNat_true, Bool.toNat_false]
    omega
  · intro hidle
    have hidle' : s.stopping = .idle := hstopping.symm.trans hidle
    exact ⟨by simp [((h.idle hidle').2 (by rw [hstage]; rfl)).1], hidle', rfl⟩

/-- The store of `-1` in the cleanup. -/
lemma closing_forget (h : Closing serverFd s) (hneg : serverFd ≠ -1) (hstage : s.stage = .forget) :
    Closing serverFd { s with serverFd := -1, stage := .done } := by
  refine h.forgetServer rfl rfl (h.forget (Or.inl hstage)) ?_ (fun hidle => ⟨hidle, rfl⟩)
    fun _ => h.ended (by rw [hstage]; rfl)
  have hle := Bool.toNat_le_toNat (Bool.le_iff_imp.mpr
    (stopCloses_of_forgot (s := s) hneg .done))
  have hzero : loopCloses serverFd { s with serverFd := -1, stage := .done } = false := rfl
  rw [hzero]
  simp only [Bool.toNat_false]
  omega

/-- A step of the loop's own. -/
lemma closing_next (h : Closing serverFd s) (hsound : Sound sv serverFd s) (hneg : serverFd ≠ -1)
    (hs : Step sv s .next t) : Closing serverFd t := by
  rcases step_next hs with ⟨hstage, rfl⟩ | ⟨ev, events, hstage, hs⟩ | ⟨hstage, rfl⟩ |
    ⟨hstage, rfl⟩ | ⟨hstage, rfl⟩
  · split
    · exact h.frame rfl rfl rfl rfl (by rw [hstage]; rfl) rfl
        fun hm => absurd hm (by simp [Stage.events])
    · exact h.closeAll hsound (by rw [hstage]; rfl)
  · exact closing_handle h hsound hstage hs
  · exact closing_cleanup h hsound hneg hstage
  · exact closing_close h hsound hneg hstage
  · exact closing_forget h hneg hstage

/-- **Every step keeps the count.** -/
lemma closing_step {l : Label E} (h : Closing serverFd s) (hsound : Sound sv serverFd s)
    (hneg : serverFd ≠ -1) (hs : Step sv s l t) : Closing serverFd t := by
  cases l with
  | poll events =>
    obtain ⟨hstage, ⟨-, -, hcan⟩, rfl⟩ := step_poll hs
    refine h.frame rfl rfl rfl rfl (by rw [hstage]; rfl) rfl fun hm => Or.inr ?_
    -- an event of the server socket: it is open, so it has not been forgotten
    obtain ⟨ev, hev, hfd⟩ := List.mem_map.mp hm
    by_contra hne
    rcases hcan ev hev with hlisten | ⟨k, hk, -⟩
    · exact absurd (h.forgotten hne) (by simp [hlisten])
    · rw [hfd, hsound.fresh] at hk
      exact absurd hk (by simp)
  | pollFailed interrupted =>
    obtain ⟨hstage, rfl⟩ := step_pollFailed hs
    split
    · exact h.frame rfl rfl rfl rfl (by rw [hstage]; rfl) rfl
        fun hm => absurd hm (by simp [Stage.events])
    · exact h.closeAll hsound (by rw [hstage]; rfl)
  | next => exact closing_next h hsound hneg hs
  | accepted fd k =>
    obtain ⟨⟨events, hstage⟩, -, rfl⟩ := step_accepted hs
    exact h.frame rfl rfl rfl rfl (by rw [hstage]; rfl) (by simp [State.put, hstage, Stage.inLoop])
      Or.inl
  | acceptFailed =>
    obtain ⟨events, hstage, rfl⟩ := step_acceptFailed hs
    exact h.frame rfl rfl rfl rfl (by rw [hstage]; rfl) rfl fun hm => Or.inl (by rwa [hstage])
  | recv r e =>
    obtain ⟨fd, events, c, c', k₀, k, hstage, -, -, -, -, rfl⟩ := step_recv hs
    exact h.resume hsound (hsound.current fd (by rw [hstage]; rfl)).1 (by rw [hstage]; rfl)
      (by rw [hstage]; exact List.Subset.refl _)
  | send w room =>
    obtain ⟨fd, events, c, c', k₀, k, hstage, -, -, -, -, rfl⟩ := step_send hs
    exact h.resume hsound (hsound.current fd (by rw [hstage]; rfl)).1 (by rw [hstage]; rfl)
      (by rw [hstage]; exact List.Subset.refl _)
  | change fd x =>
    obtain rfl := Option.some.inj hs
    exact ⟨h.strays, h.listening, h.count, h.forgotten, h.closed, h.idle, h.ended, h.forget⟩
  | stop => exact closing_stop h hsound hneg hs

lemma closing_run {ls : List (Label E)} (hneg : serverFd ≠ -1)
    (h : Run (Step sv) (State.init serverFd) ls s) : Closing serverFd s :=
  h.trace_invariant (I := fun _ => Closing serverFd) .init
    fun _ _ _ _ hrun hs hstep => closing_step hs (sound_run hrun) hneg hstep

end Steps

/-- **Descriptors are closed once, but for the server socket under `stop()`.**  In every run of
the loop, whatever `stop()` interleaves with, at most one call of `close` is on a descriptor that
is not open; it is on the server socket or on `-1`, and not before `stop()` is called.  When the
thread has ended every socket is closed. -/
theorem epoll_descriptors (sv : Service E) (serverFd : Fd) (hneg : serverFd ≠ -1)
    (ls : List (Label E)) (s : State E) (hrun : Run (Step sv) (State.init serverFd) ls s) :
    (s.strays = [] ∨
        (s.strays = [serverFd] ∨ s.strays = [-1]) ∧ s.stopping ≠ .idle) ∧
      (s.stage = .done → s.listening = none ∧ ∀ fd, s.sockets fd = none) := by
  have h := closing_run hneg hrun
  have hsound := sound_run hrun
  refine ⟨?_, ?_⟩
  · cases hstrays : s.strays with
    | nil => exact Or.inl rfl
    | cons fd rest =>
      have hne : s.strays ≠ [] := by simp [hstrays]
      have hcount := h.count
      rw [h.listening hne, hstrays] at hcount
      simp only [List.length_cons, Option.isNone_none, Bool.toNat_true] at hcount
      obtain rfl : rest = [] := List.eq_nil_of_length_eq_zero (by omega)
      refine Or.inr ⟨?_, fun hidle => hne (h.idle hidle).1⟩
      rcases h.strays fd (by simp [hstrays]) with rfl | rfl
      · exact Or.inl rfl
      · exact Or.inr rfl
  · intro hdone
    refine ⟨h.forget (Or.inr hdone), fun fd => ?_⟩
    have hempty := h.ended (by rw [hdone]; rfl)
    have hkey := (hsound.keys fd).not
    rw [hempty] at hkey
    simpa using hkey.mp (AList.notMem_empty fd)

/-- `stop()` closes the server socket while the loop holds an event for it. -/
def staleEvent : List (Label QueryEnv) :=
  [.next, .poll [⟨3, false, true, false⟩], .stop, .stop, .stop, .stop, .next, .next, .next]

/-- The state after that: the event was taken for one of a connection, and `close` was called. -/
def afterStaleEvent : State QueryEnv :=
  (staleEvent.foldlM (step queryService) (State.init 3)).get (by decide +kernel)

/-- The descriptor is passed to `close` a second time. -/
theorem epoll_descriptors_staleEvent :
    afterStaleEvent.strays = [3] ∧ afterStaleEvent.stage = .done ∧
      afterStaleEvent.listening = none :=
  ⟨by decide +kernel, by decide +kernel, ((epoll_descriptors queryService 3 (by decide) staleEvent
    afterStaleEvent (.of_foldlM (Option.some_get _).symm)).2 (by decide +kernel)).1⟩

/-- `stop()` has made its test when the loop closes the server socket and stores `-1`. -/
example : ((([.stop, .stop, .next, .next, .next, .next, .stop] : List (Label QueryEnv)).foldlM
    (step queryService) (State.init 3)).map State.strays) = some [-1] := by
  decide +kernel

end TickPlant.Epoll.Loop
