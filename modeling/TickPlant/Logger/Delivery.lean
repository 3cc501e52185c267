/-
# What reaches the database

Whatever fails and however the threads interleave, each connection carries a prefix of a
sequence of whole lines, and the lines that arrive as a whole, over all connections, are a
subsequence of the lines enqueued, in order.

The invariant follows a line through the logger: it is pending, then in the writer's batch,
then among the lines of a connection, and on the way it may only be dropped.  A connection
between two batches has been sent all of its lines; during a batch it has been sent the
earlier lines and an initial part of the batch.
-/
import TickPlant.Logger.TickLogger

namespace TickPlant.TickLogger

open Lib

variable {fmtG : ℚ → Bytes}

/-! ## Whole lines -/

lemma wholeLines_le (ls : List Bytes) (n : ℕ) : wholeLines ls n <+: ls := by
  induction ls generalizing n with
  | nil => exact List.prefix_rfl
  | cons l ls ih =>
    rw [wholeLines]
    split
    · exact List.cons_prefix_cons.mpr ⟨rfl, ih _⟩
    · exact List.nil_prefix

/-- A text that is all there has all its lines. -/
lemma wholeLines_eq_self {ls : List Bytes} {n : ℕ} (h : ls.flatten.length ≤ n) :
    wholeLines ls n = ls := by
  induction ls generalizing n with
  | nil => rfl
  | cons l ls ih =>
    rw [List.flatten_cons, List.length_append] at h
    rw [wholeLines, if_pos (by omega), ih (by omega)]

/-! ## The invariant -/

/-- The batch that is not yet among the lines of a connection. -/
def WriterPc.batch : WriterPc → List Bytes
  | .connect batch => batch
  | _ => []

/-- The lines of all connections, in order. -/
def State.lines (s : State) : List Bytes := s.conns.flatMap Conn.lines

/-- What has been sent on the open connection. -/
def LiveOk (live : Option Conn) : WriterPc → Prop
  | .send batch sent => ∃ c earlier, live = some c ∧ c.lines = earlier ++ batch ∧
      c.bytes = earlier.flatten ++ batch.flatten.take sent
  | _ => ∀ c, live = some c → c.bytes = c.lines.flatten

/-- The invariant of the logger. -/
structure Inv (s : State) : Prop where
  in_order : (s.lines ++ s.writer.batch ++ s.pending).Sublist s.accepted
  closed_ok : ∀ c ∈ s.closed, c.bytes <+: c.lines.flatten
  live_ok : LiveOk s.live s.writer
  joined : s.dtor = .close ∨ s.dtor = .returned → s.writer = .done

lemma inv_init : Inv State.init where
  in_order := List.Sublist.refl _
  closed_ok := fun c hc => absurd hc (by simp [State.init])
  live_ok := fun c hc => absurd hc (by simp [State.init])
  joined := fun h => absurd h (by simp [State.init])

/-- Outside `flush_batch` the open connection has been sent all its lines. -/
lemma Inv.live_all {s : State} (h : Inv s) (hpc : ∀ batch sent, s.writer ≠ .send batch sent)
    {c : Conn} (hlive : s.live = some c) : c.bytes = c.lines.flatten := by
  have hok := h.live_ok
  cases hw : s.writer with
  | send batch sent => exact absurd hw (hpc batch sent)
  | _ => rw [hw] at hok; exact hok c hlive

lemma Inv.conns_ok {s : State} (h : Inv s) {c : Conn} (hc : c ∈ s.conns) :
    c.bytes <+: c.lines.flatten := by
  rcases List.mem_append.mp hc with hclosed | hlive
  · exact h.closed_ok c hclosed
  · have hlive : s.live = some c := Option.mem_toList.mp hlive
    by_cases hpc : ∀ batch sent, s.writer ≠ .send batch sent
    · rw [h.live_all hpc hlive]
    · push Not at hpc
      obtain ⟨batch, sent, hw⟩ := hpc
      have hok := h.live_ok
      rw [hw] at hok
      obtain ⟨c', earlier, hc', hlines, hbytes⟩ := hok
      obtain rfl : c = c' := Option.some.inj (hlive.symm.trans hc')
      rw [hlines, hbytes, List.flatten_append]
      exact (List.prefix_append_right_inj _).mpr ( List.take_prefix _ _)

/-! ## The steps -/

/-- A batch joins the lines of the connection it is sent on, which may be a new one. -/
lemma lines_startFlush {s : State} {c : Conn}
    (hlive : s.live = some c ∨ s.live = none ∧ c = ⟨[], []⟩) (batch : List Bytes) :
    (startFlush s batch c).lines = s.lines ++ batch := by
  have hlines : s.closed.flatMap Conn.lines ++ (c.lines ++ batch) = s.lines ++ batch := by
    rw [State.lines, State.conns, List.flatMap_append]
    rcases hlive with hlive | ⟨hlive, rfl⟩
    · simp [hlive]
    · simp [hlive]
  rw [← hlines, startFlush]
  split <;> simp [State.lines, State.conns]

lemma lines_afterSend {s : State} {batch : List Bytes} {sent n : ℕ} {c : Conn}
    (hlive : s.live = some c) : (afterSend s batch sent n c).lines = s.lines := by
  rw [afterSend]
  split <;> simp [State.lines, State.conns, hlive]

lemma lines_dropConnection {s : State} {c : Conn} (hlive : s.live = some c) :
    (dropConnection s c).lines = s.lines := by
  simp [State.lines, State.conns, dropConnection, hlive]

lemma lines_closeFd (s : State) :
    ({ s with dtor := .returned, live := none, closed := s.conns } : State).lines = s.lines := by
  simp [State.lines, State.conns]

/-- The writer moves to a point outside `flush_batch` and drops its batch, if any. -/
lemma Inv.setWriter {s : State} (h : Inv s) {pc : WriterPc}
    (hbefore : ∀ batch sent, s.writer ≠ .send batch sent) (hdone : s.writer ≠ .done)
    (hbatch : pc.batch = []) (hafter : ∀ batch sent, pc ≠ .send batch sent) :
    Inv { s with writer := pc } := by
  refine ⟨?_, h.closed_ok, ?_, fun hd => absurd (h.joined hd) hdone⟩
  · show (s.lines ++ pc.batch ++ s.pending).Sublist s.accepted
    rw [hbatch, List.append_nil]
    exact ((List.sublist_append_left _ _).append (List.Sublist.refl _)).trans h.in_order
  · show LiveOk s.live pc
    cases pc with
    | send batch sent => exact absurd rfl (hafter batch sent)
    | _ => exact fun c hc => h.live_all hbefore hc

lemma Inv.startFlush {s : State} (h : Inv s) {batch : List Bytes} {c : Conn}
    (hpc : s.writer = .connect batch)
    (hlive : s.live = some c ∨ s.live = none ∧ c = ⟨[], []⟩) : Inv (startFlush s batch c) := by
  have hbytes : c.bytes = c.lines.flatten := by
    rcases hlive with hlive | ⟨-, rfl⟩
    · exact h.live_all (by simp [hpc]) hlive
    · rfl
  have hlines := lines_startFlush hlive batch
  have hsub : ((TickLogger.startFlush s batch c).lines ++ [] ++ s.pending).Sublist s.accepted := by
    have := h.in_order
    rw [hpc] at this
    rwa [hlines, List.append_nil]
  rw [TickLogger.startFlush] at hsub ⊢
  split at hsub
  · rename_i hpos
    rw [if_pos hpos]
    exact ⟨hsub, h.closed_ok, ⟨_, c.lines, rfl, rfl, by simpa using hbytes⟩,
      fun hd => absurd (h.joined hd) (by simp [hpc])⟩
  · rename_i hempty
    rw [if_neg hempty]
    refine ⟨hsub, h.closed_ok, ?_, fun hd => absurd (h.joined hd) (by simp [hpc])⟩
    rintro c' hc'
    obtain rfl := Option.some.inj hc'
    have hnil : batch.flatten = [] := List.eq_nil_of_length_eq_zero (by omega)
    rw [List.flatten_append, hnil, List.append_nil]
    exact hbytes

/-- Two consecutive pieces of a text. -/
lemma take_append_chunk (batch : List Bytes) (sent n : ℕ) :
    batch.flatten.take sent ++ chunk batch sent n = batch.flatten.take (sent + n) := by
  rw [chunk, List.take_add]

lemma Inv.afterSend {s : State} (h : Inv s) {batch : List Bytes} {sent n : ℕ} {c : Conn}
    (hpc : s.writer = .send batch sent) (hlive : s.live = some c) :
    Inv (afterSend s batch sent n c) := by
  have hok := h.live_ok
  rw [hpc] at hok
  obtain ⟨c', earlier, hc', hlines, hbytes⟩ := hok
  obtain rfl : c = c' := Option.some.inj (hlive.symm.trans hc')
  have hsent : c.bytes ++ chunk batch sent n =
      earlier.flatten ++ batch.flatten.take (sent + n) := by
    rw [hbytes, List.append_assoc, take_append_chunk]
  have hsub : ((TickLogger.afterSend s batch sent n c).lines ++ [] ++ s.pending).Sublist
      s.accepted := by
    have := h.in_order
    rw [hpc] at this
    rwa [lines_afterSend hlive]
  rw [TickLogger.afterSend] at hsub ⊢
  split at hsub
  · rename_i hmore
    rw [if_pos hmore]
    exact ⟨hsub, h.closed_ok, ⟨_, earlier, rfl, hlines, hsent⟩,
      fun hd => absurd (h.joined hd) (by simp [hpc])⟩
  · rename_i hend
    rw [if_neg hend]
    refine ⟨hsub, h.closed_ok, ?_, fun hd => absurd (h.joined hd) (by simp [hpc])⟩
    -- the last piece completes the batch
    rintro c' hc'
    obtain rfl := Option.some.inj hc'
    show c.bytes ++ chunk batch sent n = c.lines.flatten
    rw [hsent, List.take_of_length_le (by omega), hlines, List.flatten_append]

lemma Inv.dropConnection {s : State} (h : Inv s) {batch : List Bytes} {sent : ℕ} {c : Conn}
    (hpc : s.writer = .send batch sent) (hlive : s.live = some c) :
    Inv (dropConnection s c) := by
  refine ⟨?_, ?_, ?_, fun hd => absurd (h.joined hd) (by simp [hpc])⟩
  · have hsub := h.in_order
    rw [hpc] at hsub
    rw [lines_dropConnection hlive]
    exact hsub
  · intro c' hc'
    refine h.conns_ok ?_
    rw [State.conns, hlive]
    exact hc'
  · exact fun c' hc' => absurd hc' (by simp [TickLogger.dropConnection])

lemma Inv.closeFd {s : State} (h : Inv s) (hd : s.dtor = .close) :
    Inv { s with dtor := .returned, live := none, closed := s.conns } := by
  have hdone := h.joined (Or.inl hd)
  refine ⟨?_, fun c hc => h.conns_ok hc, ?_, fun _ => hdone⟩
  · rw [lines_closeFd]
    exact h.in_order
  · show LiveOk none s.writer
    rw [hdone]
    exact fun c hc => absurd hc (by simp)

/-- In the wait the writer has no batch. -/
lemma WriterPc.InWait.facts {pc : WriterPc} (h : pc.InWait) :
    (∀ batch sent, pc ≠ .send batch sent) ∧ pc ≠ .done ∧ pc.batch = [] := by
  cases pc with
  | lock => simp [batch]
  | waiting => simp [batch]
  | _ => exact h.elim

lemma inv_step {s t : State} {a : Action} (h : Inv s) (hs : Step fmtG s a t) : Inv t := by
  have hsub := h.in_order
  cases move_of_step hs with
  | skip => exact h
  | enqueue hline =>
    rename_i line
    refine ⟨?_, h.closed_ok, h.live_ok, h.joined⟩
    show (s.lines ++ s.writer.batch ++ (s.pending ++ [line])).Sublist (s.accepted ++ [line])
    rw [← List.append_assoc]
    exact hsub.append (List.Sublist.refl _)
  | enter hpc => exact h.setWriter (by simp [hpc]) (by simp [hpc]) rfl (by simp)
  | leave hpc => exact h.setWriter (by simp [hpc]) (by simp [hpc]) rfl (by simp)
  | swap ha hpc hp =>
    obtain ⟨hsend, hdone, hbatch⟩ := hpc.facts
    refine ⟨?_, h.closed_ok, fun c hc => h.live_all hsend hc, fun hd => absurd (h.joined hd) hdone⟩
    show (s.lines ++ s.pending ++ []).Sublist s.accepted
    rw [hbatch, List.append_nil] at hsub
    rw [List.append_nil]
    exact hsub
  | again ha hpc hp =>
    obtain ⟨hsend, hdone, -⟩ := hpc.facts
    exact h.setWriter hsend hdone rfl (by simp)
  | block ha hpc hp =>
    obtain ⟨hsend, hdone, -⟩ := hpc.facts
    exact h.setWriter hsend hdone rfl (by simp)
  | dropBatch hpc hlive => exact h.setWriter (by simp [hpc]) (by simp [hpc]) rfl (by simp)
  | flush hpc hlive => exact h.startFlush hpc hlive
  | sendFailed hpc hlive => exact h.dropConnection hpc hlive
  | sent hpc hlive hn => exact h.afterSend hpc hlive
  | beginDtor hd => exact ⟨hsub, h.closed_ok, h.live_ok, fun h' => absurd h' (by simp)⟩
  | clearRunning hd => exact ⟨hsub, h.closed_ok, h.live_ok, fun h' => absurd h' (by simp)⟩
  | notifyAll hd => exact ⟨hsub, h.closed_ok, h.live_ok, fun h' => absurd h' (by simp)⟩
  | join hd hpc => exact ⟨hsub, h.closed_ok, h.live_ok, fun _ => hpc⟩
  | closeFd hd => exact h.closeFd hd

lemma inv_run {as : List Action} {s : State} (hrun : Run (Step fmtG) State.init as s) : Inv s :=
  hrun.invariant inv_init fun _ _ _ h hs => inv_step h hs

lemma Action.Waits.line_eq {a : Action} (h : a.Waits) : a.line fmtG = none := by
  cases a with
  | logBbo t => exact h.elim
  | _ => rfl

/-- The lines accepted are those that the calls of `log_bbo` enqueued, in order. -/
lemma accepted_run {as : List Action} {s : State} (hrun : Run (Step fmtG) State.init as s) :
    s.accepted = as.filterMap (Action.line fmtG) := by
  refine hrun.trace_invariant (I := fun as s => s.accepted = as.filterMap (Action.line fmtG)) rfl ?_
  intro as s a t _ h hs
  rw [List.filterMap_append, ← h]
  cases move_of_step hs with
  | skip hline => simp [Action.line, hline]
  | enqueue hline => simp [Action.line, hline]
  | swap ha => simp [ha.line_eq]
  | again ha => simp [ha.line_eq]
  | block ha => simp [ha.line_eq]
  | flush hpc hlive =>
    rw [startFlush]
    split <;> simp [Action.line]
  | sent hpc hlive hn =>
    rw [afterSend]
    split <;> simp [Action.line]
  | _ => simp [Action.line, dropConnection]

/-! ## Delivery -/

/-- **Delivery.**  In every state that the logger can reach, whatever connects and sends
failed and however the threads interleaved: the bytes sent on each connection are a prefix of
a concatenation of whole enqueued lines, in order, and the lines sent completely, over all
connections and in order, are a subsequence of the lines that `log_bbo` accepted. -/
theorem delivery_in_order (fmtG : ℚ → Bytes) (as : List Action) (s : State)
    (hrun : Run (Step fmtG) State.init as s) :
    s.accepted = as.filterMap (Action.line fmtG) ∧
      (∀ c ∈ s.conns, c.lines.Sublist s.accepted ∧ c.bytes <+: c.lines.flatten) ∧
      s.written.Sublist s.accepted := by
  have h := inv_run hrun
  have hlines : s.lines.Sublist s.accepted := by
    refine (List.Sublist.trans ?_ h.in_order)
    rw [List.append_assoc]
    exact List.sublist_append_left _ _
  refine ⟨accepted_run hrun, fun c hc => ⟨?_, h.conns_ok hc⟩, List.Sublist.trans ?_ hlines⟩
  · refine List.Sublist.trans ?_ hlines
    rw [State.lines, List.flatMap_def]
    exact List.sublist_flatten_of_mem (List.mem_map_of_mem hc)
  · exact List.Sublist.flatMap_right _ fun c _ => (wholeLines_le _ _).sublist

/-- A tick of the symbol `sym`. -/
def sampleTick (sym : Bytes) : BboTick := ⟨bytes "Kraken", sym, 1, 2, 3 / 2, 10000, 7⟩

/-- The first batch is lost in mid-send, the second one is sent over a new connection. -/
def reconnectRun : List Action :=
  [.logBbo (sampleTick (bytes "BTC")), .test, .lock, .logBbo (sampleTick (bytes "ETH")),
    .connect true, .send (some 20), .send none, .test, .lock, .connect true, .send (some 71)]

/-- The state after `reconnectRun`. -/
def afterReconnect : State :=
  (reconnectRun.foldlM (step fun _ => bytes "1") State.init).get (by decide +kernel)

/-- Two connections, of which only the second carries a whole line. -/
theorem delivery_in_order_reconnect :
    afterReconnect.conns.length = 2 ∧ afterReconnect.written.length = 1 ∧
      afterReconnect.written.Sublist afterReconnect.accepted :=
  ⟨by decide +kernel, by decide +kernel,
    (delivery_in_order _ reconnectRun afterReconnect
      (Run.of_foldlM (Option.some_get _).symm)).2.2⟩

end TickPlant.TickLogger
