/-
# Statistics shared by the threads that record them

`ExchangeStats::record` adds to two counters, moves a minimum and a maximum by
compare-exchange loops, and stores the sample in a ring.  Every access to an atomic is one
step here, and so is each of the two comparisons with the local copy, which may be out of
date by then.  Any number of threads may be inside `record`, and a compare-exchange may fail
without reason.

The counters and the bounds are registers in the sense of `Lib.Shared`: what a thread still
owes to each of them can be read off from where it stands.
-/
import TickPlant.Lib.Run
import TickPlant.Lib.Shared

namespace TickPlant.Latency

open Lib

/-- `SAMPLE_BUFFER_SIZE`. -/
def sampleBufferSize : ℕ := 10000

instance : NeZero sampleBufferSize := ⟨by simp [sampleBufferSize]⟩

/-- `ExchangeStats`, without the name of the exchange. -/
structure ExchangeStats where
  count : ℕ
  totalNs : ℕ
  minNs : ℕ
  maxNs : ℕ
  samples : Fin sampleBufferSize → ℕ
  occupancySamples : Fin sampleBufferSize → ℕ
  sampleIndex : ℕ

namespace ExchangeStats

/-- As constructed; `min_ns` is `UINT64_MAX`. -/
def init : ExchangeStats := ⟨0, 0, 2 ^ 64 - 1, 0, fun _ => 0, fun _ => 0, 0⟩

/-- The arguments of a call of `record`. -/
structure Call where
  latencyNs : ℕ
  queueOccupancy : ℕ
deriving DecidableEq, Repr

/-! ## The operations of a thread -/

/-- Where a thread stands: its next operation in `record`.  Before a compare-exchange it has
found its latency on the near side of the local copy. -/
inductive Pc
  | idle
  | addCount (c : Call)
  | addTotal (c : Call)
  | loadMin (c : Call)
  | testMin (c : Call) (currentMin : ℕ)
  | casMin (c : Call) (currentMin : ℕ) (h : c.latencyNs < currentMin)
  | loadMax (c : Call)
  | testMax (c : Call) (currentMax : ℕ)
  | casMax (c : Call) (currentMax : ℕ) (h : c.latencyNs > currentMax)
  | fetchIndex (c : Call)
  | storeSample (c : Call) (idx : Fin sampleBufferSize)
  | storeOccupancy (c : Call) (idx : Fin sampleBufferSize)
deriving DecidableEq

/-- The next operation of `record`, and where the thread stands after it. -/
def exec (m : ExchangeStats) : Pc → Option (ExchangeStats × Pc)
  | .idle => none
  | .addCount c => some ({ m with count := (m.count + 1) % 2 ^ 64 }, .addTotal c)
  | .addTotal c =>
    some ({ m with totalNs := (m.totalNs + c.latencyNs) % 2 ^ 64 }, .loadMin c)
  | .loadMin c => some (m, .testMin c m.minNs)
  | .testMin c cur =>
    some (m, if h : c.latencyNs < cur then .casMin c cur h else .loadMax c)
  | .casMin c cur _ =>
    if m.minNs = cur then some ({ m with minNs := c.latencyNs }, .loadMax c)
    else some (m, .testMin c m.minNs)
  | .loadMax c => some (m, .testMax c m.maxNs)
  | .testMax c cur =>
    some (m, if h : c.latencyNs > cur then .casMax c cur h else .fetchIndex c)
  | .casMax c cur _ =>
    if m.maxNs = cur then some ({ m with maxNs := c.latencyNs }, .fetchIndex c)
    else some (m, .testMax c m.maxNs)
  | .fetchIndex c =>
    some ({ m with sampleIndex := (m.sampleIndex + 1) % 2 ^ 64 },
      .storeSample c (Fin.ofNat sampleBufferSize m.sampleIndex))
  | .storeSample c idx =>
    some ({ m with samples := Function.update m.samples idx c.latencyNs },
      .storeOccupancy c idx)
  | .storeOccupancy c idx =>
    some ({ m with
      occupancySamples := Function.update m.occupancySamples idx c.queueOccupancy }, .idle)

/-- A compare-exchange fails, with or without reason, and updates the local copy. -/
def spuriously (m : ExchangeStats) : Pc → Option Pc
  | .casMin c _ _ => some (.testMin c m.minNs)
  | .casMax c _ _ => some (.testMax c m.maxNs)
  | _ => none

/-! ## The threads -/

/-- The statistics of one exchange and the threads that record into them. -/
structure State (P : Type) where
  memory : ExchangeStats
  threads : P → Pc

/-- What may happen next. -/
inductive Action (P : Type)
  /-- A thread calls `record`. -/
  | call (p : P) (c : Call)
  /-- The next operation of a thread. -/
  | exec (p : P)
  /-- The compare-exchange that is the next operation of a thread fails. -/
  | fail (p : P)

variable {P : Type}

/-- No thread is inside a call. -/
def State.quiet (m : ExchangeStats) : State P := ⟨m, fun _ => .idle⟩

/-- The calls made in a run. -/
def calls (ls : List (Action P)) : List Call :=
  ls.filterMap fun
    | .call _ c => some c
    | _ => none

lemma calls_append (ls ms : List (Action P)) : calls (ls ++ ms) = calls ls ++ calls ms :=
  List.filterMap_append

/-- The latencies of the calls made in a run. -/
def latencies (ls : List (Action P)) : List ℕ := (calls ls).map Call.latencyNs

lemma latencies_append (ls ms : List (Action P)) :
    latencies (ls ++ ms) = latencies ls ++ latencies ms := by
  rw [latencies, calls_append, List.map_append]
  rfl

variable [DecidableEq P]

/-- One operation of one thread. -/
inductive Step : State P → Action P → State P → Prop
  | call {s : State P} {p : P} {c : Call} (hidle : s.threads p = .idle) :
      Step s (.call p c) { s with threads := Function.update s.threads p (.addCount c) }
  | exec {s : State P} {p : P} {m : ExchangeStats} {pc : Pc}
      (h : exec s.memory (s.threads p) = some (m, pc)) :
      Step s (.exec p) ⟨m, Function.update s.threads p pc⟩
  | fail {s : State P} {p : P} {pc : Pc} (h : spuriously s.memory (s.threads p) = some pc) :
      Step s (.fail p) { s with threads := Function.update s.threads p pc }

/-! ## What a thread owes -/

namespace Pc

/-- What the thread has still to add to `count`. -/
def owesCount : Pc → ℕ
  | addCount _ => 1
  | _ => 0

/-- What the thread has still to add to `total_ns`. -/
def owesTotal : Pc → ℕ
  | addCount c | addTotal c => c.latencyNs
  | _ => 0

/-- The latency that `min_ns` has still to be compared with. -/
def owesMin : Pc → Option ℕ
  | addCount c | addTotal c | loadMin c | testMin c _ | casMin c _ _ => some c.latencyNs
  | _ => none

/-- The local copy `current_min`. -/
def seenMin : Pc → Option ℕ
  | testMin _ cur | casMin _ cur _ => some cur
  | _ => none

/-- The latency that `max_ns` has still to be compared with. -/
def owesMax : Pc → Option ℕ
  | addCount c | addTotal c | loadMin c | testMin c _ | casMin c _ _ | loadMax c | testMax c _
  | casMax c _ _ => some c.latencyNs
  | _ => none

/-- The local copy `current_max`. -/
def seenMax : Pc → Option ℕ
  | testMax _ cur | casMax _ cur _ => some cur
  | _ => none

end Pc

/-! ## What an operation does to each register -/

variable {m m' : ExchangeStats} {pc pc' : Pc}

lemma exec_count (h : exec m pc = some (m', pc')) :
    Counting.Move (2 ^ 64) pc.owesCount m.count pc'.owesCount m'.count := by
  cases pc with
  | addCount c =>
    obtain ⟨rfl, rfl⟩ := by simpa [exec] using h
    exact .add _ _
  | _ => refine .of_keep ?_ ?_ <;> grind [exec, Pc.owesCount]

lemma exec_total (h : exec m pc = some (m', pc')) :
    Counting.Move (2 ^ 64) pc.owesTotal m.totalNs pc'.owesTotal m'.totalNs := by
  cases pc with
  | addTotal c =>
    obtain ⟨rfl, rfl⟩ := by simpa [exec] using h
    exact .add _ _
  | _ => refine .of_keep ?_ ?_ <;> grind [exec, Pc.owesTotal]

lemma exec_min (h : exec m pc = some (m', pc')) :
    Bounding.Move (· ≤ ·) pc.owesMin pc.seenMin m.minNs pc'.owesMin pc'.seenMin m'.minNs := by
  cases pc with
  | loadMin c =>
    obtain ⟨rfl, rfl⟩ := by simpa [exec] using h
    exact .load _ _ _
  | testMin c cur =>
    obtain ⟨rfl, rfl⟩ := by simpa [exec] using h
    by_cases hlt : c.latencyNs < cur
    · rw [dif_pos hlt]
      exact .keep _ _ _
    · rw [dif_neg hlt]
      exact .leave _ _ _ (Nat.le_of_not_lt hlt)
  | casMin c cur hlt =>
    by_cases heq : m.minNs = cur
    · obtain ⟨rfl, rfl⟩ := by simpa [exec, heq] using h
      exact .exchange _ _ _ (heq ▸ hlt.le)
    · obtain ⟨rfl, rfl⟩ := by simpa [exec, heq] using h
      exact .load _ _ _
  | _ => refine .of_keep ?_ ?_ ?_ <;> grind [exec, Pc.owesMin, Pc.seenMin]

lemma exec_max (h : exec m pc = some (m', pc')) :
    Bounding.Move (· ≥ ·) pc.owesMax pc.seenMax m.maxNs pc'.owesMax pc'.seenMax m'.maxNs := by
  cases pc with
  | loadMax c =>
    obtain ⟨rfl, rfl⟩ := by simpa [exec] using h
    exact .load _ _ _
  | testMax c cur =>
    obtain ⟨rfl, rfl⟩ := by simpa [exec] using h
    by_cases hlt : c.latencyNs > cur
    · rw [dif_pos hlt]
      exact .keep _ _ _
    · rw [dif_neg hlt]
      exact .leave _ _ _ (Nat.le_of_not_lt hlt)
  | casMax c cur hlt =>
    by_cases heq : m.maxNs = cur
    · obtain ⟨rfl, rfl⟩ := by simpa [exec, heq] using h
      exact .exchange _ _ _ (heq ▸ hlt.le)
    · obtain ⟨rfl, rfl⟩ := by simpa [exec, heq] using h
      exact .load _ _ _
  | _ => refine .of_keep ?_ ?_ ?_ <;> grind [exec, Pc.owesMax, Pc.seenMax]

/-- A failed compare-exchange is a load of its register, and nothing for the others. -/
lemma fail_registers (h : spuriously m pc = some pc') :
    pc'.owesCount = pc.owesCount ∧ pc'.owesTotal = pc.owesTotal ∧
      Bounding.Move (· ≤ ·) pc.owesMin pc.seenMin m.minNs pc'.owesMin pc'.seenMin m.minNs ∧
      Bounding.Move (· ≥ ·) pc.owesMax pc.seenMax m.maxNs pc'.owesMax pc'.seenMax m.maxNs := by
  cases pc with
  | casMin c cur hlt =>
    obtain rfl := by simpa [spuriously] using h
    exact ⟨rfl, rfl, .load _ _ _, .keep _ _ _⟩
  | casMax c cur hlt =>
    obtain rfl := by simpa [spuriously] using h
    exact ⟨rfl, rfl, .keep _ _ _, .load _ _ _⟩
  | _ => simp [spuriously] at h

/-! ## Along a run -/

/-- The registers hold what has been recorded, up to what the threads owe; the run started
from the statistics `m`. -/
structure Recorded [Fintype P] (m : ExchangeStats) (ls : List (Action P)) (s : State P) :
    Prop where
  count : Counting (2 ^ 64) m.count (calls ls).length (Pc.owesCount ∘ s.threads) s.memory.count
  total : Counting (2 ^ 64) m.totalNs (latencies ls).sum (Pc.owesTotal ∘ s.threads)
    s.memory.totalNs
  min : Bounding (· ≤ ·) m.minNs (latencies ls) (Pc.owesMin ∘ s.threads)
    (Pc.seenMin ∘ s.threads) s.memory.minNs
  max : Bounding (· ≥ ·) m.maxNs (latencies ls) (Pc.owesMax ∘ s.threads)
    (Pc.seenMax ∘ s.threads) s.memory.maxNs

variable [Fintype P] {ls : List (Action P)} {s t : State P}

omit [DecidableEq P] in
lemma recorded_quiet (hcount : m.count < 2 ^ 64) (htotal : m.totalNs < 2 ^ 64) :
    Recorded m ([] : List (Action P)) (State.quiet m) :=
  ⟨.start hcount, .start htotal, .start _, .start _⟩

lemma Recorded.step (h : Recorded m ls s) {a : Action P} (hstep : Step s a t) :
    Recorded m (ls ++ [a]) t := by
  cases hstep with
  | @call p c hidle =>
    have hcalls : calls (ls ++ [Action.call p c]) = calls ls ++ [c] := calls_append _ _
    have hlatencies : latencies (ls ++ [Action.call p c]) = latencies ls ++ [c.latencyNs] :=
      latencies_append _ _
    have hat {β : Type} (f : Pc → β) : (f ∘ s.threads) p = f .idle := by
      rw [Function.comp_apply, hidle]
    refine ⟨?_, ?_, ?_, ?_⟩
    · rw [hcalls, List.length_append, Function.comp_update]
      exact h.count.bring (hat _) 1
    · rw [hlatencies, List.sum_append, List.sum_singleton, Function.comp_update]
      exact h.total.bring (hat _) c.latencyNs
    · rw [hlatencies, Function.comp_update, Function.comp_update]
      exact h.min.bring (hat _) (hat _) c.latencyNs
    · rw [hlatencies, Function.comp_update, Function.comp_update]
      exact h.max.bring (hat _) (hat _) c.latencyNs
  | @exec p m' pc hexec =>
    have hcalls : calls (ls ++ [Action.exec p]) = calls ls := by
      rw [calls_append]
      exact List.append_nil _
    refine ⟨?_, ?_, ?_, ?_⟩
    · rw [hcalls, Function.comp_update]
      exact h.count.move (exec_count hexec)
    · rw [latencies, hcalls, Function.comp_update]
      exact h.total.move (exec_total hexec)
    · rw [latencies, hcalls, Function.comp_update, Function.comp_update]
      exact h.min.move (exec_min hexec)
    · rw [latencies, hcalls, Function.comp_update, Function.comp_update]
      exact h.max.move (exec_max hexec)
  | @fail p pc hfail =>
    have hcalls : calls (ls ++ [Action.fail p]) = calls ls := by
      rw [calls_append]
      exact List.append_nil _
    obtain ⟨hcount, htotal, hmin, hmax⟩ := fail_registers hfail
    refine ⟨?_, ?_, ?_, ?_⟩
    · rw [hcalls, Function.comp_update]
      exact h.count.move (.of_keep hcount rfl)
    · rw [latencies, hcalls, Function.comp_update]
      exact h.total.move (.of_keep htotal rfl)
    · rw [latencies, hcalls, Function.comp_update, Function.comp_update]
      exact h.min.move hmin
    · rw [latencies, hcalls, Function.comp_update, Function.comp_update]
      exact h.max.move hmax

lemma recorded_of_run (h : Run Step (State.quiet m) ls s) (hcount : m.count < 2 ^ 64)
    (htotal : m.totalNs < 2 ^ 64) : Recorded m ls s :=
  h.trace_invariant (recorded_quiet hcount htotal) fun _ _ _ _ _ hI hs => hI.step hs

/-- **Once all calls have returned**, whatever the interleaving: the counters hold the number
of calls and the sum of the latencies, modulo `2 ^ 64` and on top of what they held before,
and the bounds are the least and the greatest latency, the values before included. -/
theorem recorded_when_quiet (h : Run Step (State.quiet m) ls s) (hcount : m.count < 2 ^ 64)
    (htotal : m.totalNs < 2 ^ 64) (hquiet : ∀ p, s.threads p = .idle) :
    s.memory.count = (m.count + (calls ls).length) % 2 ^ 64 ∧
      s.memory.totalNs = (m.totalNs + (latencies ls).sum) % 2 ^ 64 ∧
      IsLeast {x | x ∈ m.minNs :: latencies ls} s.memory.minNs ∧
      IsGreatest {x | x ∈ m.maxNs :: latencies ls} s.memory.maxNs := by
  have hrec := recorded_of_run h hcount htotal
  have hat {β : Type} (f : Pc → β) (p : P) : (f ∘ s.threads) p = f .idle := by
    rw [Function.comp_apply, hquiet p]
  exact ⟨hrec.count.settled (hat _), hrec.total.settled (hat _), hrec.min.settled (hat _),
    hrec.max.settled (hat _)⟩

/-! ## A call without interruption -/

/-- `record(latency_ns, queue_occupancy)`, alone. -/
def record (m : ExchangeStats) (c : Call) : ExchangeStats where
  count := (m.count + 1) % 2 ^ 64
  totalNs := (m.totalNs + c.latencyNs) % 2 ^ 64
  minNs := if c.latencyNs < m.minNs then c.latencyNs else m.minNs
  maxNs := if c.latencyNs > m.maxNs then c.latencyNs else m.maxNs
  samples := Function.update m.samples (Fin.ofNat sampleBufferSize m.sampleIndex) c.latencyNs
  occupancySamples := Function.update m.occupancySamples
    (Fin.ofNat sampleBufferSize m.sampleIndex) c.queueOccupancy
  sampleIndex := (m.sampleIndex + 1) % 2 ^ 64

/-- The operations of a thread that is not interrupted. -/
def Alone (x y : ExchangeStats × Pc) : Prop :=
  Relation.ReflTransGen (fun a b => exec a.1 a.2 = some b) x y

lemma alone_min (m : ExchangeStats) (c : Call) :
    Alone (m, .loadMin c)
      ({ m with minNs := if c.latencyNs < m.minNs then c.latencyNs else m.minNs },
        .loadMax c) := by
  refine .head (b := (m, .testMin c m.minNs)) rfl ?_
  by_cases hlt : c.latencyNs < m.minNs
  · refine .head (b := (m, .casMin c m.minNs hlt)) (by simp [exec, hlt]) (.single ?_)
    simp [exec, hlt]
  · exact .single (by simp [exec, hlt])

lemma alone_max (m : ExchangeStats) (c : Call) :
    Alone (m, .loadMax c)
      ({ m with maxNs := if c.latencyNs > m.maxNs then c.latencyNs else m.maxNs },
        .fetchIndex c) := by
  refine .head (b := (m, .testMax c m.maxNs)) rfl ?_
  by_cases hlt : c.latencyNs > m.maxNs
  · refine .head (b := (m, .casMax c m.maxNs hlt)) (by simp [exec, hlt]) (.single ?_)
    simp [exec, hlt]
  · exact .single (by simp [exec, hlt])

lemma alone_record (m : ExchangeStats) (c : Call) :
    Alone (m, .addCount c) (m.record c, .idle) := by
  refine .head rfl (.head rfl ((alone_min _ c).trans ((alone_max _ c).trans ?_)))
  exact .head rfl (.head rfl (.single rfl))

omit [Fintype P] in
lemma run_of_alone {x y : ExchangeStats × Pc} (h : Alone x y) (threads : P → Pc) (p : P) :
    ∃ ls, calls ls = [] ∧ Run Step ⟨x.1, Function.update threads p x.2⟩ ls
      ⟨y.1, Function.update threads p y.2⟩ := by
  induction h with
  | refl => exact ⟨[], rfl, .nil _⟩
  | @tail y z _ hexec ih =>
    obtain ⟨ls, hcalls, hrun⟩ := ih
    refine ⟨ls ++ [.exec p], by rw [calls_append, hcalls]; rfl, hrun.snoc ?_⟩
    have hat : exec y.1 (Function.update threads p y.2 p) = some (z.1, z.2) := by
      rw [Function.update_self]
      exact hexec
    have hstep := Step.exec (s := ⟨y.1, Function.update threads p y.2⟩) hat
    rwa [Function.update_idem] at hstep

omit [Fintype P] in
/-- Calls that one thread makes, one after the other. -/
lemma run_records (m : ExchangeStats) (p : P) (cs : List Call) :
    ∃ ls : List (Action P),
      calls ls = cs ∧ Run Step (State.quiet m) ls (State.quiet (cs.foldl record m)) := by
  induction cs using List.reverseRecOn with
  | nil => exact ⟨[], rfl, .nil _⟩
  | append_singleton cs c ih =>
    obtain ⟨ls, hcalls, hrun⟩ := ih
    obtain ⟨ms, hnone, halone⟩ :=
      run_of_alone (P := P) (alone_record (cs.foldl record m) c) (fun _ => .idle) p
    refine ⟨ls ++ (.call p c :: ms), ?_, hrun.trans (.cons (.call rfl) ?_)⟩
    · rw [calls_append, hcalls, ← List.singleton_append, calls_append, hnone]
      rfl
    · rw [List.foldl_concat]
      rwa [Function.update_eq_self_iff.mpr rfl] at halone

/-- The counter comes round. -/
theorem count_comes_round : ∃ (ls : List (Action Unit)) (s : State Unit),
    Run Step (State.quiet init) ls s ∧ (∀ p, s.threads p = .idle) ∧
      (calls ls).length = 2 ^ 64 ∧ s.memory.count = 0 := by
  obtain ⟨ls, hcalls, hrun⟩ := run_records init () (List.replicate (2 ^ 64) ⟨1, 0⟩)
  have hlength : (calls ls).length = 2 ^ 64 := by
    rw [hcalls, List.length_replicate]
  have hrec := recorded_of_run hrun (by norm_num [init]) (by norm_num [init])
  have hcount := hrec.count.settled fun _ => rfl
  refine ⟨ls, _, hrun, fun _ => rfl, hlength, ?_⟩
  rw [hcount, hlength]
  norm_num [init]

/-- Two threads, of which the second finds its copy of the minimum out of date. -/
theorem recorded_when_quiet_two : ∃ (ls : List (Action Bool)) (s : State Bool),
    Run Step (State.quiet init) ls s ∧ latencies ls = [7, 3] ∧
      s.memory.count = 2 ∧ s.memory.totalNs = 10 ∧ s.memory.minNs = 3 ∧ s.memory.maxNs = 7 := by
  obtain ⟨s, hrun, hquiet⟩ : ∃ s, Run Step (State.quiet init : State Bool)
      [.call false ⟨7, 0⟩, .call true ⟨3, 0⟩, .exec false, .exec false, .exec false, .exec false,
        .exec true, .exec true, .exec true, .exec true,
        .exec false, .exec false, .exec false, .exec false, .exec false, .exec false, .exec false,
        .fail true, .exec true, .exec true, .exec true, .exec true, .exec true, .exec true,
        .exec true] s ∧ ∀ p, s.threads p = .idle := by
    apply Exists.intro
    constructor
    · iterate 2 apply Run.cons (.call rfl)
      iterate 15 apply Run.cons (.exec rfl)
      apply Run.cons (.fail rfl)
      iterate 7 apply Run.cons (.exec rfl)
      exact .nil _
    · intro p
      cases p <;> rfl
  obtain ⟨hcount, htotal, hmin, hmax⟩ :=
    recorded_when_quiet hrun (by norm_num [init]) (by norm_num [init]) hquiet
  refine ⟨_, s, hrun, rfl, hcount, htotal, hmin.unique ⟨by simp [latencies, calls], ?_⟩,
    hmax.unique ⟨by simp [latencies, calls], ?_⟩⟩
  · intro x hx
    obtain rfl | rfl | rfl : x = 2 ^ 64 - 1 ∨ x = 7 ∨ x = 3 := by
      simpa [latencies, calls, init] using hx
    all_goals norm_num
  · intro x hx
    obtain rfl | rfl | rfl : x = 0 ∨ x = 7 ∨ x = 3 := by
      simpa [latencies, calls, init] using hx
    all_goals norm_num

end ExchangeStats

end TickPlant.Latency
