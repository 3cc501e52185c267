/-
# The protocol between the epoll server and the kernel

What holds in every reachable state of the event loop, whatever the order of the events, the
partial reads and writes, and wherever `stop()` comes in between: the descriptors in `conns`
are the open ones, an event of the current batch is for the server socket or for a connection
that waits for it, and every connection and its socket are `Waiting`, or `Busy` when the loop
is at work on it.
-/
import TickPlant.Server.EpollSocket
import TickPlant.Server.Replies

namespace TickPlant.Epoll

open Lib

variable {E : Type} {sv : Service E}

namespace Loop

/-! ## The batch -/

/-- The events of the batch that are still to be handled. -/
def Stage.events : Stage → List Event
  | .batch events | .accepting events | .serving _ events => events
  | _ => []

/-- The connection on which a call is due. -/
def Stage.current : Stage → Option Fd
  | .serving fd _ => some fd
  | _ => none

/-- The event of a batch that is for this descriptor. -/
def pending (events : List Event) (fd : Fd) : Option Event := events.find? (·.fd = fd)

lemma pending_eq_none {events : List Event} {fd : Fd} (h : fd ∉ events.map Event.fd) :
    pending events fd = none := by
  rw [pending, List.find?_eq_none]
  intro ev hev heq
  exact h (List.mem_map.mpr ⟨ev, hev, of_decide_eq_true heq⟩)

lemma pending_cons_self (ev : Event) (events : List Event) :
    pending (ev :: events) ev.fd = some ev := by
  simp [pending]

lemma pending_cons_ne {ev : Event} {events : List Event} {fd : Fd} (h : ev.fd ≠ fd) :
    pending (ev :: events) fd = pending events fd := by
  simp [pending, h]

lemma pending_of_mem {events : List Event} (hnodup : (events.map Event.fd).Nodup) {ev : Event}
    (h : ev ∈ events) : pending events ev.fd = some ev := by
  induction events with
  | nil => exact absurd h (by simp)
  | cons ev' events ih =>
    rw [List.map_cons, List.nodup_cons] at hnodup
    rcases List.mem_cons.mp h with rfl | h
    · exact pending_cons_self ev events
    · have hne : ev'.fd ≠ ev.fd := fun heq => hnodup.1 (heq ▸ List.mem_map_of_mem h)
      rw [pending_cons_ne hne]
      exact ih hnodup.2 h

/-! ## The invariant -/

/-- The clauses that do not depend on where the loop stands. -/
structure Static (sv : Service E) (serverFd : Fd) (s : State E) : Prop where
  server : s.serverFd = serverFd ∨ s.serverFd = -1
  listening : ∀ fd ∈ s.listening, fd = serverFd
  fresh : s.sockets serverFd = none
  valid : s.sockets (-1) = none
  /-- The descriptors in `conns` are the open ones. -/
  keys : ∀ fd, fd ∈ s.conns ↔ (s.sockets fd).isSome = true
  past : ∀ c ∈ s.past, ∃ ls, Run (Epoll.Step sv) .new ls c

/-- The protocol of the loop. -/
structure Sound (sv : Service E) (serverFd : Fd) (s : State E) : Prop
    extends Static sv serverFd s where
  nodup : (s.stage.events.map Event.fd).Nodup
  /-- Every event of the batch is for the server or for an open connection. -/
  reported : ∀ ev ∈ s.stage.events, ev.fd = serverFd ∨ ev.fd ∈ s.conns
  current : ∀ fd ∈ s.stage.current, fd ∈ s.conns ∧ fd ∉ s.stage.events.map Event.fd
  waiting : ∀ fd c k, s.conns.lookup fd = some c → s.sockets fd = some k →
    s.stage.current ≠ some fd → Waiting sv (pending s.stage.events fd) c k
  busy : ∀ fd c k, s.conns.lookup fd = some c → s.sockets fd = some k →
    s.stage.current = some fd → Busy sv c k

/-- The protocol while the connection `fd` is looked at. -/
structure SoundBut (sv : Service E) (serverFd fd : Fd) (events : List Event) (s : State E) : Prop
    extends Static sv serverFd s where
  ne_server : fd ≠ serverFd
  ne_neg : fd ≠ -1
  notMem : fd ∉ events.map Event.fd
  nodup : (events.map Event.fd).Nodup
  reported : ∀ ev ∈ events, ev.fd = serverFd ∨ ev.fd ∈ s.conns
  waiting : ∀ fd' c k, s.conns.lookup fd' = some c → s.sockets fd' = some k → fd' ≠ fd →
    Waiting sv (pending events fd') c k

/-! ## The steps -/

section Steps

variable {serverFd : Fd} {s t : State E} {fd : Fd} {events : List Event}

lemma Static.ne_server (h : Static sv serverFd s) (hfd : fd ∈ s.conns) : fd ≠ serverFd := by
  rintro rfl
  have := (h.keys fd).mp hfd
  rw [h.fresh] at this
  exact absurd this (by simp)

lemma Static.ne_neg (h : Static sv serverFd s) (hfd : fd ∈ s.conns) : fd ≠ -1 := by
  rintro rfl
  have := (h.keys (-1)).mp hfd
  rw [h.valid] at this
  exact absurd this (by simp)

/-- A connection is in the map together with its socket. -/
lemma Static.lookup (h : Static sv serverFd s) (hfd : fd ∈ s.conns) :
    ∃ c k, s.conns.lookup fd = some c ∧ s.sockets fd = some k := by
  obtain ⟨c, hc⟩ := Option.isSome_iff_exists.mp (AList.lookup_isSome.mpr hfd)
  obtain ⟨k, hk⟩ := Option.isSome_iff_exists.mp ((h.keys fd).mp hfd)
  exact ⟨c, k, hc, hk⟩

/-- Closing a connection closes an open socket. -/
lemma Static.closeFd (h : Static sv serverFd s) (hfd : fd ∈ s.conns) :
    s.closeFd fd = { s with sockets := Function.update s.sockets fd none } := by
  rw [State.closeFd, if_neg, if_pos ((h.keys fd).mp hfd)]
  intro hlisten
  exact h.ne_server hfd (h.listening fd hlisten)

/-- The connection is put back, or into the map. -/
lemma SoundBut.put (h : SoundBut sv serverFd fd events s) {c : Conn E} {k : Socket} (stage : Stage)
    (hevents : stage.events = events)
    (hc : stage.current = some fd ∧ Busy sv c k ∨ stage.current = none ∧ Waiting sv none c k) :
    Sound sv serverFd { s.put fd c k with stage := stage } := by
  have hsock : ∀ {fd'}, fd' ≠ fd → Function.update s.sockets fd (some k) fd' = s.sockets fd' :=
    fun hne => Function.update_of_ne hne _ _
  refine ⟨⟨h.server, h.listening, ?_, ?_, ?_, h.past⟩, ?_, ?_, ?_, ?_, ?_⟩
  · exact (hsock h.ne_server.symm).trans h.fresh
  · exact (hsock h.ne_neg.symm).trans h.valid
  · intro fd'
    refine (AList.mem_insert _).trans ?_
    by_cases heq : fd' = fd
    · subst heq
      simp [State.put]
    · simp only [State.put, hsock heq, heq, false_or]
      exact h.keys fd'
  · simp only [hevents, h.nodup]
  · intro ev hev
    rw [hevents] at hev
    exact (h.reported ev hev).imp_right fun hmem => (AList.mem_insert _).mpr (Or.inr hmem)
  · intro fd' hfd'
    rcases hc with ⟨hcur, -⟩ | ⟨hcur, -⟩
    · obtain rfl := Option.some.inj (hcur.symm.trans hfd')
      refine ⟨(AList.mem_insert _).mpr (Or.inl rfl), ?_⟩
      rw [hevents]
      exact h.notMem
    · exact absurd (hcur.symm.trans hfd') (by simp)
  · intro fd' c' k' hc' hk' hcur
    simp only [hevents]
    by_cases heq : fd' = fd
    · subst heq
      simp only [State.put, AList.lookup_insert, Function.update_self] at hc' hk'
      obtain rfl := Option.some.inj hc'
      obtain rfl := Option.some.inj hk'
      rw [pending_eq_none h.notMem]
      rcases hc with ⟨hcur', -⟩ | ⟨-, hwait⟩
      · exact absurd hcur' hcur
      · exact hwait
    · refine h.waiting fd' c' k' ?_ ((hsock heq).symm.trans hk') heq
      rwa [State.put, AList.lookup_insert_ne heq] at hc'
  · intro fd' c' k' hc' hk' hcur
    rcases hc with ⟨hcur', hbusy⟩ | ⟨hcur', -⟩
    · obtain rfl := Option.some.inj (hcur'.symm.trans hcur)
      simp only [State.put, AList.lookup_insert, Function.update_self] at hc' hk'
      obtain rfl := Option.some.inj hc'
      obtain rfl := Option.some.inj hk'
      exact hbusy
    · exact absurd (hcur'.symm.trans hcur) (by simp)

/-- The connection is closed. -/
lemma SoundBut.close (h : SoundBut sv serverFd fd events s) (hmem : fd ∈ s.conns) {c : Conn E}
    (hc : ∃ ls, Run (Epoll.Step sv) .new ls c) :
    Sound sv serverFd { s.closeConn fd c with stage := .batch events } := by
  have hsock : ∀ {fd'}, fd' ≠ fd → Function.update s.sockets fd none fd' = s.sockets fd' :=
    fun hne => Function.update_of_ne hne _ _
  simp only [State.closeConn, h.closeFd hmem]
  refine ⟨⟨h.server, h.listening, ?_, ?_, ?_, ?_⟩, h.nodup, ?_, ?_, ?_, ?_⟩
  · exact (hsock h.ne_server.symm).trans h.fresh
  · exact (hsock h.ne_neg.symm).trans h.valid
  · intro fd'
    rw [AList.mem_erase]
    by_cases heq : fd' = fd
    · subst heq
      simp
    · simp only [ne_eq, heq, not_false_eq_true, true_and, hsock heq]
      exact h.keys fd'
  · intro c' hc'
    rcases List.mem_append.mp hc' with hc' | hc'
    · exact h.past c' hc'
    · rw [List.mem_singleton.mp hc']
      exact hc
  · intro ev hev
    refine (h.reported ev hev).imp_right fun hmem => AList.mem_erase.mpr ⟨?_, hmem⟩
    intro heq
    exact h.notMem (List.mem_map.mpr ⟨ev, hev, heq⟩)
  · exact fun fd' hfd' => absurd hfd' (by simp [Stage.current])
  · intro fd' c' k' hc' hk' _
    have hne : fd' ≠ fd := by
      rintro rfl
      exact absurd hk' (by simp)
    rw [AList.lookup_erase_ne hne] at hc'
    exact h.waiting fd' c' k' hc' ((hsock hne).symm.trans hk') hne
  · exact fun fd' c' k' _ _ hcur => absurd hcur (by simp [Stage.current])

/-- **The loop goes on after a step of a connection.** -/
lemma SoundBut.resume (h : SoundBut sv serverFd fd events s) (hmem : fd ∈ s.conns)
    {c c' : Conn E} {k : Socket} (hout : Outcome sv c' (settle c c' k)) :
    Sound sv serverFd (s.resume fd events c c' k) := by
  obtain ⟨hrun, hout⟩ := hout
  rcases hout with hclosed | hwait | hbusy
  · simp only [State.resume, hclosed]
    exact h.close hmem hrun
  · simp only [State.resume, hwait.phase]
    exact h.put _ rfl (Or.inr ⟨rfl, hwait⟩)
  · rcases hbusy.phase with ⟨hp, -⟩ | ⟨hp, -⟩
    · simp only [State.resume, hp]
      exact h.put _ rfl (Or.inl ⟨rfl, hbusy⟩)
    · simp only [State.resume, hp]
      exact h.put _ rfl (Or.inl ⟨rfl, hbusy⟩)

/-- The next event of the batch is for a connection. -/
lemma Sound.takeEvent (h : Sound sv serverFd s) {ev : Event}
    (hstage : s.stage = .batch (ev :: events)) (hmem : ev.fd ∈ s.conns) :
    SoundBut sv serverFd ev.fd events s := by
  have hnodup := h.nodup
  have hreported := h.reported
  have hwaiting := h.waiting
  rw [hstage] at hnodup hreported hwaiting
  rw [Stage.events, List.map_cons, List.nodup_cons] at hnodup
  refine ⟨h.toStatic, h.ne_server hmem, h.ne_neg hmem, hnodup.1, hnodup.2,
    fun ev' hev' => hreported ev' (List.mem_cons_of_mem _ hev'), ?_⟩
  intro fd c k hc hk hne
  have := hwaiting fd c k hc hk (by simp [Stage.current])
  rwa [Stage.events, pending_cons_ne hne.symm] at this

/-- A call on a connection is answered. -/
lemma Sound.takeCurrent (h : Sound sv serverFd s) (hstage : s.stage = .serving fd events) :
    fd ∈ s.conns ∧ SoundBut sv serverFd fd events s := by
  have hnodup := h.nodup
  have hreported := h.reported
  have hcurrent := h.current
  have hwaiting := h.waiting
  rw [hstage] at hnodup hreported hcurrent hwaiting
  obtain ⟨hmem, hnot⟩ := hcurrent fd rfl
  refine ⟨hmem, h.toStatic, h.ne_server hmem, h.ne_neg hmem, hnot, hnodup, hreported, ?_⟩
  intro fd' c k hc hk hne
  exact hwaiting fd' c k hc hk fun heq => hne (Option.some.inj heq).symm

/-- A new descriptor is not that of an event. -/
lemma Sound.takeNew (h : Sound sv serverFd s) (hstage : s.stage = .accepting events)
    (hserver : fd ≠ serverFd) (hneg : fd ≠ -1) (hnone : s.sockets fd = none) :
    fd ∉ s.conns ∧ SoundBut sv serverFd fd events s := by
  have hnodup := h.nodup
  have hreported := h.reported
  have hwaiting := h.waiting
  rw [hstage] at hnodup hreported hwaiting
  have hmem : fd ∉ s.conns := by
    rw [h.keys fd, hnone]
    simp
  refine ⟨hmem, h.toStatic, hserver, hneg, ?_, hnodup, hreported, ?_⟩
  · intro hfd
    obtain ⟨ev, hev, rfl⟩ := List.mem_map.mp hfd
    exact (hreported ev hev).elim hserver hmem
  · exact fun fd' c k hc hk _ => hwaiting fd' c k hc hk (by simp [Stage.current])

/-- A step that does not concern the connections. -/
lemma Sound.transfer (h : Sound sv serverFd s) (hstatic : Static sv serverFd t)
    (hconns : t.conns = s.conns) (hsockets : t.sockets = s.sockets)
    (hcurrent : t.stage.current = s.stage.current)
    (hevents : t.stage.events.Sublist s.stage.events)
    (hpending : ∀ fd ∈ s.conns, pending t.stage.events fd = pending s.stage.events fd) :
    Sound sv serverFd t where
  toStatic := hstatic
  nodup := h.nodup.sublist (hevents.map _)
  reported := by
    rw [hconns]
    exact fun ev hev => h.reported ev (hevents.subset hev)
  current := by
    rw [hconns, hcurrent]
    intro fd hfd
    obtain ⟨hmem, hnot⟩ := h.current fd hfd
    exact ⟨hmem, fun hev => hnot ((hevents.map _).subset hev)⟩
  waiting := by
    rw [hconns, hsockets, hcurrent]
    intro fd c k hc hk hcur
    rw [hpending fd (AList.lookup_isSome.mp (by rw [hc]; rfl))]
    exact h.waiting fd c k hc hk hcur
  busy := by
    rw [hconns, hsockets, hcurrent]
    exact h.busy

/-- The loop goes on, with the same events. -/
lemma Sound.move (h : Sound sv serverFd s) (stage : Stage)
    (hcurrent : stage.current = s.stage.current) (hevents : stage.events = s.stage.events) :
    Sound sv serverFd { s with stage := stage } :=
  h.transfer ⟨h.server, h.listening, h.fresh, h.valid, h.keys, h.past⟩ rfl rfl hcurrent
    (by rw [hevents]) fun _ _ => by rw [hevents]

/-- Closing a descriptor that is not a connection's does not concern the connections. -/
lemma closeFd_of_none (hnone : s.sockets fd = none) :
    (s.closeFd fd).sockets = s.sockets ∧ ∀ fd' ∈ (s.closeFd fd).listening, fd' ∈ s.listening := by
  rw [State.closeFd]
  split
  · exact ⟨rfl, fun fd' hfd' => absurd hfd' (by simp)⟩
  · rw [if_neg (by simp [hnone])]
    exact ⟨rfl, fun _ => id⟩

@[simp] lemma closeFd_frame (s : State E) (fd : Fd) :
    (s.closeFd fd).conns = s.conns ∧ (s.closeFd fd).past = s.past ∧
      (s.closeFd fd).serverFd = s.serverFd ∧ (s.closeFd fd).stage = s.stage ∧
      (s.closeFd fd).running = s.running ∧ (s.closeFd fd).stopping = s.stopping := by
  rw [State.closeFd]
  split
  · exact ⟨rfl, rfl, rfl, rfl, rfl, rfl⟩
  · split <;> exact ⟨rfl, rfl, rfl, rfl, rfl, rfl⟩

/-- A descriptor that is not a connection's has no socket. -/
lemma Static.sockets_eq_none (h : Static sv serverFd s) (hfd : fd ∉ s.conns) :
    s.sockets fd = none := by
  rw [h.keys fd, Bool.not_eq_true, Option.isSome_eq_false_iff, Option.isNone_iff_eq_none] at hfd
  exact hfd

/-- What `server_fd_` holds is not a connection's descriptor. -/
lemma Static.server_notMem (h : Static sv serverFd s) : s.serverFd ∉ s.conns := by
  rcases h.server with hfd | hfd
  · exact fun hmem => h.ne_server hmem hfd
  · exact fun hmem => h.ne_neg hmem hfd

/-- The server socket is not a connection's. -/
lemma Static.closeServer (h : Static sv serverFd s) (hfd : fd ∉ s.conns) :
    Static sv serverFd (s.closeFd fd) := by
  have hnone := h.sockets_eq_none hfd
  obtain ⟨hsockets, hlisten⟩ := closeFd_of_none (s := s) hnone
  obtain ⟨hconns, hpast, hserver, -⟩ := closeFd_frame s fd
  refine ⟨?_, fun fd' hfd' => h.listening fd' (hlisten fd' hfd'), ?_, ?_, ?_, ?_⟩
  · rw [hserver]
    exact h.server
  · rw [hsockets]
    exact h.fresh
  · rw [hsockets]
    exact h.valid
  · rw [hsockets, hconns]
    exact h.keys
  · rw [hpast]
    exact h.past

/-- A descriptor is closed that is not a connection's. -/
lemma Sound.closeServer (h : Sound sv serverFd s) (hfd : fd ∉ s.conns)
    (stage : Stage) (stopping : Stopping) (hcurrent : stage.current = s.stage.current)
    (hevents : stage.events.Sublist s.stage.events)
    (hpending : ∀ fd ∈ s.conns, pending stage.events fd = pending s.stage.events fd) :
    Sound sv serverFd { s.closeFd fd with stage := stage, stopping := stopping } := by
  have hstatic := h.toStatic.closeServer hfd
  have hnone := h.sockets_eq_none hfd
  exact h.transfer ⟨hstatic.server, hstatic.listening, hstatic.fresh, hstatic.valid, hstatic.keys,
    hstatic.past⟩ (closeFd_frame s fd).1 (closeFd_of_none hnone).1 hcurrent hevents hpending

/-- The events are reported. -/
lemma Sound.report (h : Sound sv serverFd s) (hstage : s.stage = .poll)
    (hnodup : (events.map Event.fd).Nodup) (hevents : ∀ ev ∈ events, s.CanReport ev) :
    Sound sv serverFd (s.report events) := by
  have hwaiting : ∀ fd c k, s.conns.lookup fd = some c → s.sockets fd = some k →
      Waiting sv none c k := by
    intro fd c k hc hk
    have := h.waiting fd c k hc hk (by simp [hstage, Stage.current])
    rwa [hstage] at this
  have hsome : ∀ fd, ((s.report events).sockets fd).isSome = (s.sockets fd).isSome := by
    intro fd
    simp only [State.report]
    split
    · exact Option.isSome_map
    · rfl
  refine ⟨⟨h.server, h.listening, ?_, ?_, ?_, h.past⟩, hnodup, ?_, ?_, ?_, ?_⟩
  · rw [← Option.isNone_iff_eq_none, ← Option.not_isSome, hsome, h.fresh]
    simp
  · rw [← Option.isNone_iff_eq_none, ← Option.not_isSome, hsome, h.valid]
    simp
  · exact fun fd => (h.keys fd).trans (by rw [hsome])
  · intro ev hev
    rcases hevents ev hev with hlisten | ⟨k, hk, -⟩
    · exact Or.inl (h.listening _ hlisten)
    · exact Or.inr ((h.keys _).mpr (by rw [Option.mem_def.mp hk]; rfl))
  · exact fun fd hfd => absurd hfd (by simp [State.report, Stage.current])
  · intro fd c k hc hk _
    simp only [State.report] at hk
    by_cases hfd : fd ∈ events.map Event.fd
    · rw [if_pos hfd] at hk
      obtain ⟨k₀, hk₀, rfl⟩ := Option.map_eq_some_iff.mp hk
      obtain ⟨ev, hev, rfl⟩ := List.mem_map.mp hfd
      rcases hevents ev hev with hlisten | ⟨k', hk', -, hready, hevent⟩
      · have hmem : ev.fd ∈ s.conns := AList.lookup_isSome.mp (Option.isSome_of_mem hc)
        exact absurd (h.listening _ hlisten) (h.ne_server hmem)
      · obtain rfl := Option.some.inj (hk₀.symm.trans hk')
        have hp : pending events ev.fd = some (k₀.event ev.fd) := by
          rw [pending_of_mem hnodup hev, ← hevent]
        rw [show (s.report events).stage.events = events from rfl, hp]
        exact (hwaiting ev.fd c k₀ hc hk₀).report ev.fd hready
    · rw [if_neg hfd] at hk
      rw [show (s.report events).stage.events = events from rfl, pending_eq_none hfd]
      exact hwaiting fd c k hc hk
  · exact fun fd c k _ _ hcur => absurd hcur (by simp [State.report, Stage.current])

/-- The loop ends. -/
lemma Sound.closeAll (h : Sound sv serverFd s) (hcurrent : s.stage.current = none) :
    Sound sv serverFd s.closeAll := by
  have hsockets : ∀ fd, s.closeAll.sockets fd = none := by
    intro fd
    simp only [State.closeAll]
    split
    · rfl
    · rename_i hfd
      rw [h.keys fd] at hfd
      simpa using hfd
  refine ⟨⟨h.server, h.listening, hsockets _, hsockets _, ?_, ?_⟩, List.nodup_nil, ?_, ?_, ?_, ?_⟩
  · intro fd
    rw [hsockets fd]
    exact ⟨fun hfd => absurd hfd (AList.notMem_empty fd), fun hfd => absurd hfd (by simp)⟩
  · intro c hc
    rcases List.mem_append.mp hc with hc | hc
    · exact h.past c hc
    · obtain ⟨⟨fd, c⟩, hmem, rfl⟩ := List.mem_map.mp hc
      have hlook : s.conns.lookup fd = some c := AList.mem_lookup_iff.mpr hmem
      obtain ⟨c', k, hc', hk⟩ := h.lookup (AList.lookup_isSome.mp (by rw [hlook]; rfl))
      obtain rfl := Option.some.inj (hlook.symm.trans hc')
      exact (h.waiting fd c k hlook hk (by simp [hcurrent])).run
  · exact fun ev hev => absurd hev (by simp [State.closeAll, Stage.events])
  · exact fun fd hfd => absurd hfd (by simp [State.closeAll, Stage.current])
  · exact fun fd c k _ hk => absurd hk (by simp [hsockets fd])
  · exact fun fd c k _ hk => absurd hk (by simp [hsockets fd])

/-- A change on the network. -/
lemma Sound.change (h : Sound sv serverFd s) (x : Socket.Change) :
    Sound sv serverFd
      { s with sockets := Function.update s.sockets fd ((s.sockets fd).map (·.change x)) } := by
  have hcases : ∀ fd', Function.update s.sockets fd ((s.sockets fd).map (·.change x)) fd' =
      if fd' = fd then (s.sockets fd').map (·.change x) else s.sockets fd' := by
    intro fd'
    by_cases heq : fd' = fd
    · subst heq
      simp
    · simp [heq]
  have hnone : ∀ {fd'}, s.sockets fd' = none →
      Function.update s.sockets fd ((s.sockets fd).map (·.change x)) fd' = none := by
    intro fd' hfd'
    rw [hcases fd', hfd']
    simp
  refine ⟨⟨h.server, h.listening, hnone h.fresh, hnone h.valid, ?_, h.past⟩, h.nodup, h.reported,
    h.current, ?_, ?_⟩
  · intro fd'
    refine (h.keys fd').trans ?_
    simp only [hcases fd']
    split <;> simp
  · intro fd' c k hc hk hcur
    simp only [hcases fd'] at hk
    split at hk
    · obtain ⟨k₀, hk₀, rfl⟩ := Option.map_eq_some_iff.mp hk
      exact (h.waiting fd' c k₀ hc hk₀ hcur).change x
    · exact h.waiting fd' c k hc hk hcur
  · intro fd' c k hc hk hcur
    simp only [hcases fd'] at hk
    split at hk
    · obtain ⟨k₀, hk₀, rfl⟩ := Option.map_eq_some_iff.mp hk
      exact (h.busy fd' c k₀ hc hk₀ hcur).change x
    · exact h.busy fd' c k hc hk hcur

end Steps

lemma sound_init {serverFd : Fd} : Sound sv serverFd (State.init serverFd) where
  server := Or.inl rfl
  listening := fun fd hfd => (Option.some.inj hfd).symm
  fresh := rfl
  valid := rfl
  keys := fun fd => ⟨fun hfd => absurd hfd (AList.notMem_empty fd), fun hfd => absurd hfd (by simp
    [State.init])⟩
  past := fun c hc => absurd hc (by simp [State.init])
  nodup := List.nodup_nil
  reported := fun ev hev => absurd hev (by simp [State.init, Stage.events])
  current := fun fd hfd => absurd hfd (by simp [State.init, Stage.current])
  waiting := fun fd c k _ hk => absurd hk (by simp [State.init])
  busy := fun fd c k _ hk => absurd hk (by simp [State.init])

/-- The handling of one event keeps the protocol. -/
lemma sound_handle {serverFd : Fd} {s t : State E} {ev : Event} {events : List Event}
    (h : Sound sv serverFd s) (hstage : s.stage = .batch (ev :: events))
    (hs : s.handle sv ev events = some t) : Sound sv serverFd t := by
  have hsub : events.Sublist s.stage.events := by
    rw [hstage]
    exact List.sublist_cons_self ev events
  have hmem := h.reported ev (by rw [hstage]; exact List.mem_cons_self)
  have hpending : ev.fd ∉ s.conns →
      ∀ fd ∈ s.conns, pending events fd = pending s.stage.events fd := by
    intro hnot fd hfd
    rw [hstage]
    exact (pending_cons_ne fun heq => hnot (heq ▸ hfd)).symm
  rw [State.handle] at hs
  split at hs
  · -- the server socket
    rename_i hserver
    obtain rfl := Option.some.inj hs
    have hnot : ev.fd ∉ s.conns := by
      rw [hserver]
      exact h.server_notMem
    exact h.transfer ⟨h.server, h.listening, h.fresh, h.valid, h.keys, h.past⟩ rfl rfl
      (by rw [hstage]; rfl) hsub (hpending hnot)
  · split at hs
    · rename_i hnone
      obtain rfl := Option.some.inj hs
      have hnot : ev.fd ∉ s.conns := AList.lookup_eq_none.mp hnone
      exact h.closeServer hnot _ (s.closeFd ev.fd).stopping
        (by rw [hstage]; rfl) hsub (hpending hnot)
    · rename_i c k hc hk
      obtain ⟨c', hc', rfl⟩ := Option.map_eq_some_iff.mp hs
      have hconn : ev.fd ∈ s.conns := AList.lookup_isSome.mp (Option.isSome_of_mem hc)
      have hwait := h.waiting ev.fd c k hc hk (by simp [hstage, Stage.current])
      rw [hstage, Stage.events, pending_cons_self] at hwait
      exact (h.takeEvent hstage hconn).resume hconn (hwait.handle hc')
    · exact absurd hs (by simp)

/-- A step of the loop's own. -/
lemma sound_next {serverFd : Fd} {s t : State E} (h : Sound sv serverFd s)
    (hs : Step sv s .next t) : Sound sv serverFd t := by
  rcases step_next hs with ⟨hstage, rfl⟩ | ⟨ev, events, hstage, hs⟩ | ⟨hstage, rfl⟩ |
    ⟨hstage, rfl⟩ | ⟨hstage, rfl⟩
  · split
    · exact h.move _ (by rw [hstage]; rfl) (by rw [hstage]; rfl)
    · exact h.closeAll (by rw [hstage]; rfl)
  · exact sound_handle h hstage hs
  · split
    · exact h.move _ (by rw [hstage]; rfl) (by rw [hstage]; rfl)
    · exact h.move _ (by rw [hstage]; rfl) (by rw [hstage]; rfl)
  · exact h.closeServer h.server_notMem _ (s.closeFd s.serverFd).stopping
      (by rw [hstage]; rfl) (by rw [hstage]; exact .refl _) (by rw [hstage]; exact fun _ _ => rfl)
  · exact (h.move .done (by rw [hstage]; rfl) (by rw [hstage]; rfl)).transfer
      ⟨Or.inr rfl, h.listening, h.fresh, h.valid, h.keys, h.past⟩ rfl rfl rfl (.refl _)
      fun _ _ => rfl

/-- `stop()` goes on: it touches nothing but the server socket. -/
lemma sound_stop {serverFd : Fd} {s t : State E} (h : Sound sv serverFd s)
    (hs : Step sv s .stop t) : Sound sv serverFd t := by
  have hsame : ∀ {running : Bool} {stopping : Stopping},
      Static sv serverFd { s with running := running, stopping := stopping } :=
    ⟨h.server, h.listening, h.fresh, h.valid, h.keys, h.past⟩
  simp only [Step, step] at hs
  split at hs
  · obtain rfl := Option.some.inj hs
    exact h.transfer hsame rfl rfl rfl (.refl _) fun _ _ => rfl
  · obtain rfl := Option.some.inj hs
    exact h.transfer hsame rfl rfl rfl (.refl _) fun _ _ => rfl
  · obtain rfl := Option.some.inj hs
    have hstage := (closeFd_frame s s.serverFd).2.2.2.1
    exact h.closeServer h.server_notMem (s.closeFd s.serverFd).stage _ (by rw [hstage])
      (by rw [hstage]) (by rw [hstage]; exact fun _ _ => rfl)
  · obtain rfl := Option.some.inj hs
    exact h.transfer ⟨Or.inr rfl, h.listening, h.fresh, h.valid, h.keys, h.past⟩ rfl rfl rfl
      (.refl _) fun _ _ => rfl
  · exact absurd hs (by simp)

/-- **Every step keeps the protocol.** -/
lemma sound_step {serverFd : Fd} {s t : State E} {l : Label E} (h : Sound sv serverFd s)
    (hs : Step sv s l t) : Sound sv serverFd t := by
  cases l with
  | poll events =>
    obtain ⟨hstage, ⟨-, hnodup, hcan⟩, rfl⟩ := step_poll hs
    exact h.report hstage hnodup hcan
  | pollFailed interrupted =>
    obtain ⟨hstage, rfl⟩ := step_pollFailed hs
    split
    · exact h.move _ (by rw [hstage]; rfl) (by rw [hstage]; rfl)
    · exact h.closeAll (by rw [hstage]; rfl)
  | next => exact sound_next h hs
  | accepted fd k =>
    obtain ⟨⟨events, hstage⟩, ⟨hlisten, hneg, hserver, hnone⟩, rfl⟩ := step_accepted hs
    -- the socket listens, so `server_fd_` still holds its descriptor
    rw [h.listening _ hlisten] at hserver
    obtain ⟨hnot, hbut⟩ := h.takeNew hstage hserver hneg hnone
    rw [AList.lookup_eq_none.mpr hnot]
    exact hbut.put s.stage (by rw [hstage]; rfl)
      (Or.inr ⟨by rw [hstage]; rfl, .ctl ⟨[], .nil _⟩ rfl (Nat.zero_le _) rfl
        fun hw => absurd hw (by simp [Conn.new])⟩)
  | acceptFailed =>
    obtain ⟨events, hstage, rfl⟩ := step_acceptFailed hs
    exact h.move _ (by rw [hstage]; rfl) (by rw [hstage]; rfl)
  | recv r e =>
    obtain ⟨fd, events, c, c', k₀, k, hstage, hc, hk₀, hk, hc', rfl⟩ := step_recv hs
    obtain ⟨hmem, hbut⟩ := h.takeCurrent hstage
    have hbusy := h.busy fd c k₀ hc hk₀ (by rw [hstage]; rfl)
    have hphase : ∃ writable, c.phase = .recv writable := by
      rcases hbusy.phase with ⟨hp, -⟩ | ⟨hp, -⟩
      · exact ⟨false, hp⟩
      · simp [Epoll.step, hp] at hc'
    exact hbut.resume hmem (hbusy.recv hphase hk hc')
  | send w room =>
    obtain ⟨fd, events, c, c', k₀, k, hstage, hc, hk₀, hk, hc', rfl⟩ := step_send hs
    obtain ⟨hmem, hbut⟩ := h.takeCurrent hstage
    have hbusy := h.busy fd c k₀ hc hk₀ (by rw [hstage]; rfl)
    have hphase : c.phase = .send := by
      rcases hbusy.phase with ⟨hp, -⟩ | ⟨hp, -⟩
      · simp [Epoll.step, hp] at hc'
      · exact hp
    exact hbut.resume hmem (hbusy.send hphase hk hc')
  | change fd x =>
    obtain rfl := Option.some.inj hs
    exact h.change x
  | stop => exact sound_stop h hs

/-- The protocol holds in every reachable state. -/
lemma sound_run {serverFd : Fd} {ls : List (Label E)} {s : State E}
    (h : Run (Step sv) (State.init serverFd) ls s) : Sound sv serverFd s :=
  h.invariant sound_init fun _ _ _ hs hstep => sound_step hs hstep

/-! ## Results -/

/-- A connection of the loop, open or closed. -/
def State.Knows (s : State E) (c : Conn E) : Prop := c ∈ s.past ∨ ∃ fd, s.conns.lookup fd = some c

/-- Every connection of the loop is a run of a single connection. -/
lemma Sound.conn_run {serverFd : Fd} {s : State E} (h : Sound sv serverFd s) {c : Conn E}
    (hc : s.Knows c) : ∃ ls, Run (Epoll.Step sv) .new ls c := by
  rcases hc with hc | ⟨fd, hc⟩
  · exact h.past c hc
  · obtain ⟨c', k, hc', hk⟩ := h.lookup (AList.lookup_isSome.mp (Option.isSome_of_mem hc))
    obtain rfl := Option.some.inj (hc.symm.trans hc')
    by_cases hcur : s.stage.current = some fd
    · exact (h.busy fd c k hc hk hcur).run
    · exact (h.waiting fd c k hc hk hcur).run

/-- **The protocol of the event loop.**  In every reachable state of the loop the descriptors in
`conns` are those of the open sockets, every connection is registered for what its state waits
for and is in a call only when the loop is at work on it, and every event of the batch that is
not for the server socket is for an open connection that waits for it.  On every connection,
open or closed, the bytes accepted are an initial part of the replies to the lines consumed. -/
theorem epoll_loop_protocol (sv : Service E) (serverFd : Fd) (ls : List (Label E)) (s : State E)
    (hrun : Run (Step sv) (State.init serverFd) ls s) :
    (∀ fd, fd ∈ s.conns ↔ (s.sockets fd).isSome = true) ∧
      (∀ fd c k, s.conns.lookup fd = some c → s.sockets fd = some k →
        k.interest = c.state ∧ (c.phase = .wait ∨ s.stage.current = some fd)) ∧
      (∀ ev ∈ s.stage.events, ev.fd = serverFd ∨
        ∃ c, s.conns.lookup ev.fd = some c ∧ c.phase = .wait ∧ ev.Matches c.state) ∧
      ∀ c, s.Knows c → RepliesInOrder sv c.chan c.isClosed := by
  have h := sound_run hrun
  refine ⟨h.keys, ?_, ?_, ?_⟩
  · intro fd c k hc hk
    by_cases hcur : s.stage.current = some fd
    · exact ⟨(h.busy fd c k hc hk hcur).interest, Or.inr hcur⟩
    · have hwait := h.waiting fd c k hc hk hcur
      exact ⟨hwait.interest, Or.inl hwait.phase⟩
  · intro ev hev
    refine (h.reported ev hev).imp_right fun hmem => ?_
    obtain ⟨c, k, hc, hk⟩ := h.lookup hmem
    have hcur : s.stage.current ≠ some ev.fd :=
      fun hcur => (h.current ev.fd hcur).2 (List.mem_map_of_mem hev)
    have hwait := h.waiting ev.fd c k hc hk hcur
    rw [pending_of_mem h.nodup hev] at hwait
    exact ⟨c, hc, hwait.phase, hwait.event ev rfl⟩
  · intro c hc
    obtain ⟨ls, hls⟩ := h.conn_run hc
    exact (epoll_inOrder hls).1

/-- A client connects and sends a request. -/
def oneRequest : List (Label QueryEnv) :=
  [.next, .poll [⟨3, false, true, false⟩], .next,
    .accepted 7 (.accepted (bytes "HEALTH\n") false true false), .acceptFailed, .next,
    .poll [⟨7, false, true, false⟩], .next, .recv (.data (bytes "HEALTH\n")) bareEnv, .next]

/-- The state of the loop after that: the reply is to be sent. -/
def afterOneRequest : State QueryEnv :=
  (oneRequest.foldlM (step queryService) (State.init 3)).get (by decide +kernel)

theorem epoll_loop_protocol_oneRequest :
    (7 ∈ afterOneRequest.conns ↔ (afterOneRequest.sockets 7).isSome = true) ∧
      (afterOneRequest.sockets 7).isSome = true :=
  ⟨(epoll_loop_protocol queryService 3 oneRequest afterOneRequest
    (.of_foldlM (Option.some_get _).symm)).1 7, by decide +kernel⟩

/-- **No wake-up is lost.**  When the loop is in `epoll_wait`, every connection whose socket has
something to report can be reported.  A connection with nothing to report either has received
all that has arrived and sent all its replies, or waits for room to send.  And a reported event
is never dropped: its handling closes the connection or leads to a call on it. -/
theorem epoll_no_lost_wakeup (sv : Service E) (serverFd : Fd) (ls : List (Label E)) (s : State E)
    (hrun : Run (Step sv) (State.init serverFd) ls s) :
    (s.stage = .poll → ∀ fd c k, s.conns.lookup fd = some c → s.sockets fd = some k →
      if k.ready = true then s.CanReport (k.event fd)
      else c.state = .reading ∧ c.chan.log.chunks.flatten = k.stream ∧ AllAccepted sv c.chan ∨
        c.state = .writing ∧ k.room = false) ∧
      ∀ ev events t, s.stage = .batch (ev :: events) → ev.fd ∈ s.conns → Step sv s .next t →
        ev.fd ∉ t.conns ∨ t.stage.current = some ev.fd := by
  have h := sound_run hrun
  refine ⟨?_, ?_⟩
  · intro hstage fd c k hc hk
    have hwait := h.waiting fd c k hc hk (by simp [hstage, Stage.current])
    rw [hstage] at hwait
    split
    · rename_i hready
      have hqueued : k.queued = true := by
        rcases Bool.or_eq_true_iff.mp hready with hk' | hk'
        · exact (hwait.hangup hk').resolve_right fun ⟨e, he, _⟩ => absurd he (by simp [pending,
            Stage.events])
        · exact (hwait.wake hk').resolve_right (by simp [pending, Stage.events])
      exact Or.inr ⟨k, hk, hqueued, hready, rfl⟩
    · rename_i hready
      rw [Bool.not_eq_true, Socket.ready, Bool.or_eq_false_iff, Socket.present,
        hwait.interest] at hready
      cases hstate : c.state with
      | writing =>
        rw [hstate] at hready
        exact Or.inr ⟨rfl, hready.2⟩
      | reading =>
        rw [hstate] at hready
        -- the inbox is empty, and nothing is left of the last reply
        have hinbox : k.inbox = [] := by
          have := hready.2
          simp only [Socket.readable, Bool.or_eq_false_iff, Bool.not_eq_false',
            List.isEmpty_iff] at this
          exact this.1
        have hall : k.stream.length ≤ k.taken := List.drop_eq_nil_iff.mp hinbox
        obtain ⟨ls, hls⟩ := hwait.run
        obtain ⟨as, d, hd, hrep, hidle⟩ := simulates hls
        refine Or.inl ⟨rfl, ?_, hrep.allAccepted hd (hidle.reading hstate)⟩
        rw [hwait.received, List.take_of_length_le hall]
  · intro ev events t hstage hmem hs
    obtain ⟨c, k, hc, hk⟩ := h.lookup hmem
    have hwait := h.waiting ev.fd c k hc hk (by simp [hstage, Stage.current])
    rw [hstage, Stage.events, pending_cons_self] at hwait
    have hne : ev.fd ≠ s.serverFd := fun heq => h.server_notMem (heq ▸ hmem)
    simp only [Step, step, hstage, State.handle, if_neg hne, hc, hk] at hs
    obtain ⟨c', hc', rfl⟩ := Option.map_eq_some_iff.mp hs
    rcases step_event hwait.phase (hwait.event ev rfl) hwait.unsent hc' with
      hp | ⟨-, -, ⟨hp, -⟩ | ⟨hp, -⟩⟩
    · refine Or.inl ?_
      simp only [State.resume, hp, State.closeConn]
      exact fun hm => (AList.mem_erase.mp hm).1 rfl
    · refine Or.inr ?_
      simp only [State.resume, hp]
      rfl
    · refine Or.inr ?_
      simp only [State.resume, hp]
      rfl

/-- The client whose request has been read is to be reported as soon as it takes bytes. -/
theorem epoll_no_lost_wakeup_oneRequest :
    ∃ c k, afterOneRequest.conns.lookup 7 = some c ∧ afterOneRequest.sockets 7 = some k ∧
      c.state = .writing ∧ afterOneRequest.CanReport (k.event 7) := by
  have hstate : (afterOneRequest.conns.lookup 7).map Conn.state = some .writing := by
    decide +kernel
  have hready : (afterOneRequest.sockets 7).map Socket.ready = some true := by decide +kernel
  obtain ⟨c, hc, hcstate⟩ := Option.map_eq_some_iff.mp hstate
  obtain ⟨k, hk, hkready⟩ := Option.map_eq_some_iff.mp hready
  have h := (epoll_no_lost_wakeup queryService 3 oneRequest afterOneRequest
    (.of_foldlM (Option.some_get _).symm)).1 (by decide +kernel) 7 c k hc hk
  rw [if_pos hkready] at h
  exact ⟨c, k, hc, hk, hcstate, h⟩

end Loop

end TickPlant.Epoll
