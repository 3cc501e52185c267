/-
# Shutdown of the tick logger

When no connect and no send fails, everything that leaves `pending_` is sent.  The destructor
clears `running_` and joins the writer, and the writer ends at its next test of `running_`,
so a line is lost when it is still pending and the writer has to pass that test before it
looks at `pending_` again.  The lines enqueued before the destructor began are all written if
and only if, at the moment `running_` is cleared, none of them is pending or the writer
stands between the test and the swap.
-/
import TickPlant.Logger.Delivery

namespace TickPlant.TickLogger

open Lib

variable {fmtG : ℚ → Bytes}

/-- A connect or a send fails. -/
def Action.Fails (a : Action) : Prop := a = .connect false ∨ a = .send none

instance : DecidablePred Action.Fails := fun _ => inferInstanceAs (Decidable (_ ∨ _))

/-- The lines written are the first lines that were accepted, and those enqueued before the
destructor began are among them. -/
def Flushed (s : State) : Prop := s.acceptedBefore <+: s.written ∧ s.written <+: s.accepted

/-! ## What a step does to the lines -/

/-- The lines that the writer has taken out of `pending_`. -/
def State.taken (s : State) : List Bytes := s.lines ++ s.writer.batch

/-- What a step without failure does to the lines: nothing, or it enqueues one, or it is the
swap. -/
lemma lines_step {s t : State} {a : Action} (hs : Step fmtG s a t) (hok : ¬ a.Fails) :
    (t.taken = s.taken ∧ t.pending = s.pending ∧ t.accepted = s.accepted) ∨
      (∃ line, t.taken = s.taken ∧ t.pending = s.pending ++ [line] ∧
        t.accepted = s.accepted ++ [line]) ∨
      (s.writer.InWait ∧ t.taken = s.taken ++ s.pending ∧ t.pending = [] ∧
        t.accepted = s.accepted) := by
  -- a step that only moves the writer between points without a batch
  have hmove : ∀ {pc : WriterPc}, s.writer.batch = [] → pc.batch = [] →
      ({ s with writer := pc } : State).taken = s.taken := by
    intro pc hs hpc
    show s.lines ++ pc.batch = s.lines ++ s.writer.batch
    rw [hs, hpc]
  cases move_of_step hs with
  | skip => exact Or.inl ⟨rfl, rfl, rfl⟩
  | enqueue hline => exact Or.inr (Or.inl ⟨_, rfl, rfl, rfl⟩)
  | enter hpc => exact Or.inl ⟨hmove (by rw [hpc]; rfl) rfl, rfl, rfl⟩
  | leave hpc => exact Or.inl ⟨hmove (by rw [hpc]; rfl) rfl, rfl, rfl⟩
  | swap ha hpc hp =>
    refine Or.inr (Or.inr ⟨hpc, ?_, rfl, rfl⟩)
    show s.lines ++ s.pending = s.lines ++ s.writer.batch ++ s.pending
    rw [hpc.facts.2.2, List.append_nil]
  | again ha hpc hp => exact Or.inl ⟨hmove hpc.facts.2.2 rfl, rfl, rfl⟩
  | block ha hpc hp => exact Or.inl ⟨hmove hpc.facts.2.2 rfl, rfl, rfl⟩
  | dropBatch hpc hlive => exact absurd (Or.inl rfl) hok
  | flush hpc hlive =>
    rename_i batch c
    have hlines := lines_startFlush hlive batch
    refine Or.inl ⟨?_, ?_, ?_⟩
    · show (startFlush s batch c).lines ++ _ = s.lines ++ s.writer.batch
      rw [hlines, hpc]
      rw [startFlush]
      split <;> exact List.append_nil _
    · rw [startFlush]; split <;> rfl
    · rw [startFlush]; split <;> rfl
  | sendFailed hpc hlive => exact absurd (Or.inr rfl) hok
  | sent hpc hlive hn =>
    rename_i batch sent n c
    refine Or.inl ⟨?_, ?_, ?_⟩
    · show (afterSend s batch sent n c).lines ++ _ = s.lines ++ s.writer.batch
      rw [lines_afterSend hlive, hpc]
      rw [afterSend]
      split <;> rfl
    · rw [afterSend]; split <;> rfl
    · rw [afterSend]; split <;> rfl
  | beginDtor hd => exact Or.inl ⟨rfl, rfl, rfl⟩
  | clearRunning hd => exact Or.inl ⟨rfl, rfl, rfl⟩
  | notifyAll hd => exact Or.inl ⟨rfl, rfl, rfl⟩
  | join hd hpc => exact Or.inl ⟨rfl, rfl, rfl⟩
  | closeFd hd => exact Or.inl ⟨by rw [State.taken, lines_closeFd]; rfl, rfl, rfl⟩

/-- What a step does to the flag and to the destructor's marks. -/
lemma dtor_step {s t : State} {a : Action} (hs : Step fmtG s a t) :
    (t.acceptedBefore = s.acceptedBefore ∨ s.dtor = .idle ∧ t.acceptedBefore = s.accepted) ∧
      (s.dtor ≠ .idle → t.dtor ≠ .idle) ∧ (s.running = false → t.running = false) := by
  cases move_of_step hs with
  | flush hpc hlive =>
    rw [startFlush]
    split <;> exact ⟨Or.inl rfl, id, id⟩
  | sent hpc hlive hn =>
    rw [afterSend]
    split <;> exact ⟨Or.inl rfl, id, id⟩
  | beginDtor hd => exact ⟨Or.inr ⟨hd, rfl⟩, fun h => absurd hd h, id⟩
  | clearRunning hd => exact ⟨Or.inl rfl, fun _ => by simp, fun _ => rfl⟩
  | notifyAll hd => exact ⟨Or.inl rfl, fun _ => by simp, id⟩
  | join hd hpc => exact ⟨Or.inl rfl, fun _ => by simp, id⟩
  | closeFd hd => exact ⟨Or.inl rfl, fun _ => by simp, id⟩
  | _ => exact ⟨Or.inl rfl, id, id⟩

/-! ## Accounting without failures -/

/-- Every accepted line has been taken or is pending. -/
structure Exact (s : State) : Prop where
  inv : Inv s
  account : s.taken ++ s.pending = s.accepted
  closed_all : ∀ c ∈ s.closed, c.bytes = c.lines.flatten
  before_le : s.acceptedBefore <+: s.accepted

lemma exact_init : Exact State.init :=
  ⟨inv_init, rfl, fun c hc => absurd hc (by simp [State.init]), List.prefix_rfl⟩

/-- A connection closed by the destructor has been sent all its lines. -/
lemma closed_step {s t : State} {a : Action} (h : Exact s) (hs : Step fmtG s a t)
    (hok : ¬ a.Fails) : ∀ c ∈ t.closed, c.bytes = c.lines.flatten := by
  cases move_of_step hs with
  | flush hpc hlive =>
    rw [startFlush]
    split <;> exact h.closed_all
  | sendFailed hpc hlive => exact absurd (Or.inr rfl) hok
  | sent hpc hlive hn =>
    rw [afterSend]
    split <;> exact h.closed_all
  | closeFd hd =>
    intro c hc
    rcases List.mem_append.mp hc with hclosed | hlive
    · exact h.closed_all c hclosed
    · have hdone := h.inv.joined (Or.inl hd)
      exact h.inv.live_all (by simp [hdone]) (Option.mem_toList.mp hlive)
  | _ => exact h.closed_all

lemma exact_step {s t : State} {a : Action} (h : Exact s) (hs : Step fmtG s a t)
    (hok : ¬ a.Fails) : Exact t := by
  have haccount := h.account
  have hgrow : s.accepted <+: t.accepted := by
    rcases lines_step hs hok with ⟨-, -, ha⟩ | ⟨line, -, -, ha⟩ | ⟨-, -, -, ha⟩
    · rw [ha]
    · rw [ha]; exact List.prefix_append _ _
    · rw [ha]
  refine ⟨inv_step h.inv hs, ?_, closed_step h hs hok, ?_⟩
  · rcases lines_step hs hok with ⟨ht, hp, ha⟩ | ⟨line, ht, hp, ha⟩ | ⟨-, ht, hp, ha⟩
    · rw [ht, hp, ha, haccount]
    · rw [ht, hp, ha, ← List.append_assoc, haccount]
    · rw [ht, hp, ha, List.append_nil, haccount]
  · rcases (dtor_step hs).1 with hb | ⟨-, hb⟩
    · rw [hb]; exact h.before_le.trans hgrow
    · rw [hb]; exact hgrow

lemma exact_run {s t : State} {as : List Action} (hrun : Run (Step fmtG) s as t) (h : Exact s)
    (hok : ∀ a ∈ as, ¬ a.Fails) : Exact t :=
  hrun.invariant_of_labels hok h fun _ _ _ h hs hok => exact_step h hs hok

/-- When the writer has ended, the lines written are the lines taken. -/
lemma Exact.written_eq {s : State} (h : Exact s) (hdone : s.writer = .done) :
    s.written = s.taken := by
  have hall : ∀ c ∈ s.conns, c.complete = c.lines := by
    intro c hc
    refine wholeLines_eq_self (le_of_eq ?_)
    rcases List.mem_append.mp hc with hclosed | hlive
    · rw [h.closed_all c hclosed]
    · rw [h.inv.live_all (by simp [hdone]) (Option.mem_toList.mp hlive)]
  rw [State.taken, hdone, State.written, State.lines]
  rw [List.flatMap_congr hall]
  exact (List.append_nil _).symm

/-! ## After `running_` is cleared -/

/-- Every line enqueued before the destructor began has been taken or will be. -/
def Safe (s : State) : Prop :=
  s.running = false ∧ s.dtor ≠ .idle ∧
    (s.acceptedBefore.length ≤ s.taken.length ∨ s.writer.InWait)

/-- Some line enqueued before the destructor began is pending, and the writer will not look
at it again. -/
def Lost (s : State) : Prop :=
  s.running = false ∧ s.dtor ≠ .idle ∧ s.taken.length < s.acceptedBefore.length ∧
    ¬ s.writer.InWait

lemma acceptedBefore_step {s t : State} {a : Action} (hs : Step fmtG s a t)
    (hd : s.dtor ≠ .idle) : t.acceptedBefore = s.acceptedBefore := by
  rcases (dtor_step hs).1 with hb | ⟨hidle, -⟩
  · exact hb
  · exact absurd hidle hd

/-- The writer leaves the wait with everything that was pending. -/
lemma wait_step {s t : State} {a : Action} (hs : Step fmtG s a t) (hw : s.writer.InWait) :
    t.writer.InWait ∨ (t.taken = s.taken ++ s.pending) := by
  cases move_of_step hs with
  | swap ha hpc hp =>
    refine Or.inr ?_
    show s.lines ++ s.pending = s.lines ++ s.writer.batch ++ s.pending
    rw [hpc.facts.2.2, List.append_nil]
  | again ha hpc hp =>
    refine Or.inr ?_
    show s.lines ++ [] = s.lines ++ s.writer.batch ++ s.pending
    rw [hpc.facts.2.2, hp, List.append_nil, List.append_nil]
  | block ha hpc hp => exact Or.inl trivial
  | enter hpc => rw [hpc] at hw; exact hw.elim
  | leave hpc => rw [hpc] at hw; exact hw.elim
  | dropBatch hpc => rw [hpc] at hw; exact hw.elim
  | flush hpc => rw [hpc] at hw; exact hw.elim
  | sendFailed hpc => rw [hpc] at hw; exact hw.elim
  | sent hpc => rw [hpc] at hw; exact hw.elim
  | _ => exact Or.inl hw

/-- Once `running_` is cleared the writer does not enter the wait again. -/
lemma no_wait_step {s t : State} {a : Action} (hs : Step fmtG s a t) (hrun : s.running = false)
    (hw : ¬ s.writer.InWait) : ¬ t.writer.InWait := by
  cases move_of_step hs with
  | enter hpc hr => rw [hr] at hrun; exact absurd hrun (by simp)
  | leave hpc hr => exact id
  | swap ha hpc hp => exact absurd hpc hw
  | again ha hpc hp => exact absurd hpc hw
  | block ha hpc hp => exact absurd hpc hw
  | dropBatch hpc => exact id
  | flush hpc hlive =>
    rw [startFlush]
    split <;> exact id
  | sendFailed hpc => exact id
  | sent hpc hlive hn =>
    rw [afterSend]
    split <;> exact id
  | _ => exact hw

lemma safe_step {s t : State} {a : Action} (he : Exact s) (h : Safe s) (hs : Step fmtG s a t)
    (hok : ¬ a.Fails) : Safe t := by
  obtain ⟨hrun, hd, hcase⟩ := h
  obtain ⟨-, hd', hrun'⟩ := dtor_step hs
  refine ⟨hrun' hrun, hd' hd, ?_⟩
  rw [acceptedBefore_step hs hd]
  rcases hcase with hle | hw
  · refine Or.inl ?_
    rcases lines_step hs hok with ⟨ht, -, -⟩ | ⟨line, ht, -, -⟩ | ⟨-, ht, -, -⟩
    · rw [ht]; exact hle
    · rw [ht]; exact hle
    · rw [ht, List.length_append]; omega
  · rcases wait_step hs hw with hw' | ht
    · exact Or.inr hw'
    · left
      rw [ht, he.account]
      exact he.before_le.length_le

lemma lost_step {s t : State} {a : Action} (h : Lost s) (hs : Step fmtG s a t)
    (hok : ¬ a.Fails) : Lost t := by
  obtain ⟨hrun, hd, hlt, hw⟩ := h
  obtain ⟨-, hd', hrun'⟩ := dtor_step hs
  refine ⟨hrun' hrun, hd' hd, ?_, no_wait_step hs hrun hw⟩
  rw [acceptedBefore_step hs hd]
  rcases lines_step hs hok with ⟨ht, -, -⟩ | ⟨line, ht, -, -⟩ | ⟨hw', -⟩
  · rw [ht]; exact hlt
  · rw [ht]; exact hlt
  · exact absurd hw' hw

/-! ## The destructor -/

/-- The run `as` to `u` clears `running_` in the state `s`. -/
def ClearsAt (fmtG : ℚ → Bytes) (as : List Action) (s u : State) : Prop :=
  ∃ before after t, as = before ++ .clearRunning :: after ∧ Run (Step fmtG) State.init before s ∧
    Step fmtG s .clearRunning t ∧ Run (Step fmtG) t after u

/-- No line enqueued before the destructor began is pending, or the writer stands between
its test of `running_` and the swap. -/
def NoneLeftBehind (s : State) : Prop :=
  s.pending.length + s.acceptedBefore.length ≤ s.accepted.length ∨ s.writer.InWait

/-- The destructor clears `running_` on its way. -/
lemma exists_clearsAt {as : List Action} {u : State} (hrun : Run (Step fmtG) State.init as u)
    (hd : u.dtor ≠ .idle ∧ u.dtor ≠ .begun) : ∃ s, ClearsAt fmtG as s u := by
  refine hrun.trace_invariant (I := fun as u => u.dtor ≠ .idle ∧ u.dtor ≠ .begun →
    ∃ s, ClearsAt fmtG as s u) (fun h => absurd rfl h.1) ?_ hd
  intro as s a t hrun ih hs hd
  by_cases hbefore : s.dtor ≠ .idle ∧ s.dtor ≠ .begun
  · obtain ⟨s₀, before, after, t₀, rfl, hrun₀, hclear, hafter⟩ := ih hbefore
    exact ⟨s₀, before, after ++ [a], t₀, by simp, hrun₀, hclear, hafter.snoc hs⟩
  · -- this step took the destructor past the store
    have hclear : a = .clearRunning := by
      rw [not_and_or, not_not, not_not] at hbefore
      cases move_of_step hs with
      | clearRunning => rfl
      | beginDtor h => exact absurd rfl hd.2
      | notifyAll h => rw [h] at hbefore; exact absurd hbefore (by simp)
      | join h => rw [h] at hbefore; exact absurd hbefore (by simp)
      | closeFd h => rw [h] at hbefore; exact absurd hbefore (by simp)
      | flush hpc hlive =>
        rw [startFlush] at hd
        split at hd <;> exact (hbefore.elim (absurd · hd.1) (absurd · hd.2))
      | sent hpc hlive hn =>
        rw [afterSend] at hd
        split at hd <;> exact (hbefore.elim (absurd · hd.1) (absurd · hd.2))
      | _ => exact (hbefore.elim (absurd · hd.1) (absurd · hd.2))
    subst hclear
    exact ⟨s, as, [], t, rfl, hrun, hs, .nil t⟩

/-- **Shutdown.**  In every run without failures in which the destructor returns, the lines
enqueued before it began are all written, once and in order, if and only if at the store
`running_ = false` none of them is pending or the writer stands between its test of
`running_` and the swap. -/
theorem shutdown_flushes_iff (fmtG : ℚ → Bytes) (as : List Action) (u : State)
    (hrun : Run (Step fmtG) State.init as u) (hok : ∀ a ∈ as, ¬ a.Fails)
    (hret : u.dtor = .returned) :
    (∃ s, ClearsAt fmtG as s u) ∧ ∀ s, ClearsAt fmtG as s u → (Flushed u ↔ NoneLeftBehind s) := by
  refine ⟨exists_clearsAt hrun (by simp [hret]), ?_⟩
  rintro s ⟨before, after, t, rfl, hbefore, hclear, hafter⟩
  have hokb : ∀ a ∈ before, ¬ a.Fails := fun a ha => hok a (by simp [ha])
  have hoka : ∀ a ∈ after, ¬ a.Fails := fun a ha => hok a (by simp [ha])
  have hexact : Exact s := exact_run hbefore exact_init hokb
  have hexact_t : Exact t := exact_step hexact hclear (by simp [Action.Fails])
  have hexact_u : Exact u := exact_run hafter hexact_t hoka
  have hdone : u.writer = .done := hexact_u.inv.joined (Or.inr hret)
  have hwritten := hexact_u.written_eq hdone
  have htaken : u.taken <+: u.accepted := by
    rw [← hexact_u.account]
    exact List.prefix_append _ _
  -- what was pending at the store, by number
  have hcount : s.taken.length + s.pending.length = s.accepted.length := by
    rw [← hexact.account, List.length_append]
  cases move_of_step hclear with
  | swap ha => exact ha.elim
  | again ha => exact ha.elim
  | block ha => exact ha.elim
  | clearRunning hd =>
    constructor
    · rintro ⟨hbefore_le, -⟩
      by_contra hbad
      rw [NoneLeftBehind, not_or] at hbad
      have hlost : Lost { s with dtor := .notify, running := false } :=
        ⟨rfl, by simp, by show s.taken.length < s.acceptedBefore.length; omega, hbad.2⟩
      obtain ⟨-, -, hlt, -⟩ := hafter.invariant_of_labels hoka hlost
        fun _ _ _ h hs hok => lost_step h hs hok
      have := hbefore_le.length_le
      rw [hwritten] at this
      omega
    · intro hgood
      have hsafe : Safe { s with dtor := .notify, running := false } := by
        refine ⟨rfl, by simp, ?_⟩
        rcases hgood with hle | hw
        · exact Or.inl (by show s.acceptedBefore.length ≤ s.taken.length; omega)
        · exact Or.inr hw
      obtain ⟨-, -, -, hcase⟩ := hafter.invariant_of_labels
        (I := fun s => Exact s ∧ Safe s) hoka ⟨hexact_t, hsafe⟩
        fun _ _ _ h hs hok => ⟨exact_step h.1 hs hok, safe_step h.1 h.2 hs hok⟩
      have hle : u.acceptedBefore.length ≤ u.taken.length := by
        rcases hcase with hle | hw
        · exact hle
        · rw [hdone] at hw; exact hw.elim
      rw [Flushed, hwritten]
      exact ⟨List.prefix_of_prefix_length_le hexact_u.before_le htaken hle, htaken⟩

/-- A line is sent, and then the logger is destroyed. -/
def quietRun : List Action :=
  [.logBbo (sampleTick (bytes "BTC")), .test, .lock, .connect true, .send (some 71), .test,
    .beginDtor, .clearRunning, .notifyAll, .lock, .test, .join, .closeFd]

/-- The state after `quietRun`. -/
def afterQuiet : State :=
  (quietRun.foldlM (step fun _ => bytes "1") State.init).get (by decide +kernel)

/-- The criterion for this run, in which the line is written. -/
theorem shutdown_flushes_iff_quiet :
    afterQuiet.written = afterQuiet.accepted ∧
      ∃ s, ClearsAt (fun _ => bytes "1") quietRun s afterQuiet ∧
        (Flushed afterQuiet ↔ NoneLeftBehind s) :=
  have h := shutdown_flushes_iff (fun _ => bytes "1") quietRun afterQuiet
    (Run.of_foldlM (Option.some_get _).symm) (by decide +kernel) (by decide +kernel)
  ⟨by decide +kernel, h.1.imp fun s hs => ⟨hs, h.2 s hs⟩⟩

/-- The second line is enqueued while the first is being sent, and `running_` is cleared
before the writer tests it again. -/
def lateRun : List Action :=
  [.test, .lock, .logBbo (sampleTick (bytes "BTC")), .wake false, .connect true,
    .logBbo (sampleTick (bytes "ETH")), .beginDtor, .clearRunning, .notifyAll,
    .send (some 71), .test, .join, .closeFd]

/-- The state after `lateRun`. -/
def afterLate : State :=
  (lateRun.foldlM (step fun _ => bytes "1") State.init).get (by decide +kernel)

/-- The destructor returns, nothing has failed, and the second line was never written. -/
theorem late_line_lost :
    ¬ ∀ (fmtG : ℚ → Bytes) (as : List Action) (u : State), Run (Step fmtG) State.init as u →
      (∀ a ∈ as, ¬ a.Fails) → u.dtor = .returned → Flushed u := by
  intro hclaim
  obtain ⟨hle, -⟩ := hclaim (fun _ => bytes "1") lateRun afterLate
    (Run.of_foldlM (Option.some_get _).symm) (by decide +kernel) (by decide +kernel)
  have hlt : afterLate.written.length < afterLate.acceptedBefore.length := by decide +kernel
  exact absurd hle.length_le (not_le.mpr hlt)

end TickPlant.TickLogger
