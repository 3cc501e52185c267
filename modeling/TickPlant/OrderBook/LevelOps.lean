/-
# Traces of level operations

Levels are written through two interfaces: `set_level` and `delete_level` one at a time, and
`apply_update` in messages.  Either way a call amounts to a list of operations, each of which
puts a level at a price of one side or drops the level there; entries of other types and actions
amount to none.  The book is a store keyed by side and price that these operations write, so a
trace may be reordered, split and joined as long as the operations on one price of one side keep
their order.
-/
import TickPlant.OrderBook.Runs
import TickPlant.Lib.Writes

namespace TickPlant

/-- One operation on a level. -/
inductive LevelOp
  | put (side : Side) (level : PriceLevel)
  | drop (side : Side) (price : ℚ)
deriving DecidableEq

namespace LevelOp

/-- The side and the price that the operation names. -/
def key : LevelOp → Side × ℚ
  | put side level => (side, level.price)
  | drop side price => (side, price)

/-- The level that the operation leaves there. -/
def level : LevelOp → Option PriceLevel
  | put _ level => some level
  | drop _ _ => none

end LevelOp

/-- A call that operates on levels, with the reading of the clock. -/
inductive LevelCall
  | setLevel (now : ℕ) (side : Side) (price quantity : ℚ) (orderCount : ℤ)
  | deleteLevel (now : ℕ) (side : Side) (price : ℚ)
  | applyUpdate (now : ℕ) (msg : FIXMessage)
deriving DecidableEq

/-- What an entry of an incremental message amounts to. -/
def entryOp (e : MDEntry) : Option LevelOp :=
  (OrderBook.entrySide e).bind fun side =>
    if e.updateAction = 0 ∨ e.updateAction = 1 then some (.put side ⟨e.price, e.quantity, 0⟩)
    else if e.updateAction = 2 then some (.drop side e.price)
    else none

namespace LevelCall

/-- The call as one of the mutators. -/
def toBookOp : LevelCall → BookOp
  | setLevel now side price quantity orderCount => .setLevel now side price quantity orderCount
  | deleteLevel now side price => .deleteLevel now side price
  | applyUpdate now msg => .applyUpdate now msg

/-- The operations that a call amounts to, in order. -/
def levelOps : LevelCall → List LevelOp
  | setLevel _ side price quantity orderCount => [.put side ⟨price, quantity, orderCount⟩]
  | deleteLevel _ side price => [.drop side price]
  | applyUpdate _ msg =>
    if msg.msgType = .marketDataIncremental then msg.entries.filterMap entryOp else []

end LevelCall

namespace OrderBook

/-- A sequence of calls. -/
def runCalls (calls : List LevelCall) (b : OrderBook) : OrderBook :=
  b.run (calls.map LevelCall.toBookOp)

/-- The level at a price of a side. -/
def levelAt (b : OrderBook) (k : Side × ℚ) : Option PriceLevel := b.level k.1 k.2

/-- One operation, without the clock. -/
def applyLevelOp (b : OrderBook) : LevelOp → OrderBook
  | .put side level => b.putLevel side level
  | .drop side price => b.dropLevel side price

lemma sameLevels_iff {b b' : OrderBook} : b.SameLevels b' ↔ ∀ k, b.levelAt k = b'.levelAt k := by
  constructor
  · rintro ⟨hbids, hasks⟩ ⟨side, p⟩
    cases side with
    | bid => exact congrArg (Levels.find · p) hbids
    | ask => exact congrArg (Levels.find · p) hasks
  · intro h
    refine ⟨?_, ?_⟩
    · ext1 p
      exact h (.bid, p)
    · ext1 p
      exact h (.ask, p)

/-- A book is a store of levels that the operations write. -/
lemma writes_levelAt : Lib.Writes levelAt applyLevelOp LevelOp.key LevelOp.level := by
  intro b op k
  obtain ⟨side, p⟩ := k
  cases op with
  | put side' l =>
    cases side <;> cases side' <;>
      simp [levelAt, level, applyLevelOp, putLevel, LevelOp.key, LevelOp.level, Levels.find_insert]
  | drop side' q =>
    cases side <;> cases side' <;>
      simp [levelAt, level, applyLevelOp, dropLevel, LevelOp.key, LevelOp.level, Levels.find_erase]

/-! ## Calls and operations -/

lemma applyMdEntry_eq (b : OrderBook) (e : MDEntry) :
    b.applyMdEntry e = ((entryOp e).map b.applyLevelOp).getD b := by
  rw [applyMdEntry, entryOp]
  cases entrySide e with
  | none => rfl
  | some side =>
    rw [Option.bind_some]
    split_ifs <;> rfl

lemma foldl_applyMdEntry (es : List MDEntry) (b : OrderBook) :
    es.foldl applyMdEntry b = (es.filterMap entryOp).foldl applyLevelOp b := by
  induction es generalizing b with
  | nil => rfl
  | cons e es ih =>
    rw [List.foldl_cons, ih, applyMdEntry_eq]
    cases hop : entryOp e with
    | none =>
      rw [List.filterMap_cons_none hop]
      rfl
    | some op =>
      rw [List.filterMap_cons_some hop]
      rfl

/-- A call leaves the levels that its operations leave. -/
lemma levelAt_applyOp (call : LevelCall) (b : OrderBook) (k : Side × ℚ) :
    (b.applyOp call.toBookOp).levelAt k = (call.levelOps.foldl applyLevelOp b).levelAt k := by
  cases call with
  | setLevel now side price quantity orderCount => rfl
  | deleteLevel now side price => rfl
  | applyUpdate now msg =>
    rw [LevelCall.toBookOp, applyOp, applyUpdate, LevelCall.levelOps]
    split_ifs with htype
    · rw [← foldl_applyMdEntry]
      rfl
    · rfl

/-- A sequence of calls leaves the levels that their operations leave. -/
lemma levelAt_runCalls (calls : List LevelCall) (b : OrderBook) (k : Side × ℚ) :
    (b.runCalls calls).levelAt k =
      ((calls.flatMap LevelCall.levelOps).foldl applyLevelOp b).levelAt k := by
  induction calls generalizing b with
  | nil => rfl
  | cons call calls ih =>
    -- the rest of the calls sees the levels of the first one only
    rw [List.flatMap_cons, List.foldl_append, writes_levelAt.get_foldl, ← levelAt_applyOp,
      ← writes_levelAt.get_foldl]
    exact ih (b.applyOp call.toBookOp)

/-- **Traces of level operations.**  From any book, two sequences of calls whose operations are
reorderings of each other, with the order on each price of each side kept, lead to the same
levels.  And however the operations are batched into calls, the level at a price of a side is
that of the last operation naming it, or the level of before if none does. -/
theorem runCalls_reordered (b : OrderBook) (calls : List LevelCall) :
    (∀ calls', Nonempty (Lib.Reordering LevelOp.key (calls.flatMap LevelCall.levelOps)
        (calls'.flatMap LevelCall.levelOps)) → (b.runCalls calls).SameLevels (b.runCalls calls')) ∧
      ∀ side price, (b.runCalls calls).level side price =
        ((Lib.lastNaming LevelOp.key (side, price) (calls.flatMap LevelCall.levelOps)).map
          LevelOp.level).getD (b.level side price) := by
  constructor
  · rintro calls' ⟨r⟩
    rw [sameLevels_iff]
    intro k
    rw [levelAt_runCalls, levelAt_runCalls, r.get_foldl writes_levelAt]
  · intro side price
    have h := levelAt_runCalls calls b (side, price)
    rwa [writes_levelAt.get_foldl] at h

end OrderBook

end TickPlant
