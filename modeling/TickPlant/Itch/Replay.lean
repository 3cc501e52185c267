/-
# L2 reconstruction from an L3 feed

`ITCHReplay` keeps every resting order under its reference number and, for each stock, the
aggregate of the orders at each price.  Every message that changes a level is reported to a
callback.  The callback is represented by its trace: `emitted` lists the events passed to
`emit` so far, oldest first.

Prices are the exact rationals `raw / 10000`.  The quantity of a level is a `double`: every
addition and subtraction of shares rounds it (`roundDouble`).  The `int` count of a level is an
integer.  `std::map::at` throws on a missing key, so the handlers return in `Except`.
-/
import TickPlant.OrderBook.Book
import TickPlant.Itch.Wire
import TickPlant.Lib.Double

namespace TickPlant

open Lib

/-- `L2Event::Type`. -/
inductive L2EventType
  | set
  | delete
deriving DecidableEq, Repr

/-- A change of one price level, as passed to the callback. -/
structure L2Event where
  type : L2EventType
  side : Side
  price : ℚ
  quantity : ℚ
  orderCount : ℤ
  stock : Bytes
  timestampNs : ℕ
deriving DecidableEq, Repr

namespace ITCHReplay

/-- `ITCHReplay::Order`. -/
structure Order where
  refNum : ℕ
  /-- The side byte of the message. -/
  side : UInt8
  remaining : ℕ
  price : ℚ
  stock : Bytes
deriving DecidableEq, Repr

/-- The side an order rests on: `'B'` is a bid, every other byte an ask. -/
def Order.bookSide (o : Order) : Side := if o.side = 66 then .bid else .ask

/-- `ITCHReplay::LevelInfo`; the quantity is the value of a `double`. -/
structure LevelInfo where
  qty : ℚ := 0
  count : ℤ := 0
deriving DecidableEq, Repr

/-- `ITCHReplay::BookSides`. -/
structure BookSides where
  bids : Std.ExtTreeMap ℚ LevelInfo bidCmp := ∅
  asks : Std.ExtTreeMap ℚ LevelInfo askCmp := ∅

/-- The exception thrown by `std::map::at`. -/
inductive Exn
  | outOfRange
deriving DecidableEq, Repr

namespace BookSides

/-- `find(price)` on one of the maps. -/
def find (sides : BookSides) (side : Side) (price : ℚ) : Option LevelInfo :=
  match side with
  | .bid => sides.bids[price]?
  | .ask => sides.asks[price]?

/-- `at(price)` on one of the maps. -/
def at? (sides : BookSides) (side : Side) (price : ℚ) : Except Exn LevelInfo :=
  match sides.find side price with
  | some info => .ok info
  | none => .error .outOfRange

/-- A write through the reference to the level at `price`. -/
def put (side : Side) (price : ℚ) (info : LevelInfo) (sides : BookSides) : BookSides :=
  match side with
  | .bid => { sides with bids := sides.bids.insert price info }
  | .ask => { sides with asks := sides.asks.insert price info }

/-- `erase` of the level at `price`. -/
def drop (side : Side) (price : ℚ) (sides : BookSides) : BookSides :=
  match side with
  | .bid => { sides with bids := sides.bids.erase price }
  | .ask => { sides with asks := sides.asks.erase price }

end BookSides

end ITCHReplay

/-- The replay engine. -/
structure ITCHReplay where
  orders : AList fun _ : ℕ => ITCHReplay.Order := ∅
  l2 : AList fun _ : Bytes => ITCHReplay.BookSides := ∅
  filter : Bytes := []
  addCount : ℕ := 0
  executeCount : ℕ := 0
  cancelCount : ℕ := 0
  deleteCount : ℕ := 0
  replaceCount : ℕ := 0
  /-- The events passed to `emit`, oldest first. -/
  emitted : List L2Event := []

namespace ITCHReplay

/-- `!filter_.empty() && stock != filter_`. -/
def skips (r : ITCHReplay) (stock : Bytes) : Bool := !r.filter.isEmpty && stock != r.filter

/-- `l2_[stock]`, which is empty for a stock that was never seen. -/
def sides (r : ITCHReplay) (stock : Bytes) : BookSides := (r.l2.lookup stock).getD {}

/-- The level of `l2_` at a stock, a side and a price. -/
def level (r : ITCHReplay) (stock : Bytes) (side : Side) (price : ℚ) : Option LevelInfo :=
  (r.sides stock).find side price

/-- A write through the reference `l2_[stock]`. -/
def setSides (stock : Bytes) (sides : BookSides) (r : ITCHReplay) : ITCHReplay :=
  { r with l2 := r.l2.insert stock sides }

/-- `ITCHReplay::emit`. -/
def emit (ev : L2Event) (r : ITCHReplay) : ITCHReplay := { r with emitted := r.emitted ++ [ev] }

/-- The event for the level an order rests on. -/
def Order.event (o : Order) (type : L2EventType) (info : LevelInfo) (ts : ℕ) : L2Event where
  type := type
  side := o.bookSide
  price := o.price
  quantity := info.qty
  orderCount := info.count
  stock := o.stock
  timestampNs := ts

/-- The write of the level an order rests on, and the event that reads it back. -/
def publish (o : Order) (info : LevelInfo) (ts : ℕ) (r : ITCHReplay) : Except Exn ITCHReplay := do
  let r := r.setSides o.stock ((r.sides o.stock).put o.bookSide o.price info)
  let info ← (r.sides o.stock).at? o.bookSide o.price
  return r.emit (o.event .set info ts)

/-- `handle_add_order`, once the message is decoded. -/
def addOrder (o : Order) (ts : ℕ) (r : ITCHReplay) : Except Exn ITCHReplay :=
  if r.skips o.stock then .ok r
  else do
    let r := { r with orders := r.orders.insert o.refNum o }
    -- `bids[o.price]` starts a level that is not there at zero
    let info := (r.level o.stock o.bookSide o.price).getD {}
    let r ← r.publish o
      { qty := roundDouble (info.qty + o.remaining), count := info.count + 1 } ts
    return { r with addCount := r.addCount + 1 }

/-- `ITCHReplay::remove_order`. -/
def removeOrder (refNum : ℕ) (ts : ℕ) (r : ITCHReplay) : Except Exn ITCHReplay :=
  match r.orders.lookup refNum with
  | none => .ok r
  | some o =>
    if r.skips o.stock then .ok { r with orders := r.orders.erase refNum }
    else
      match r.level o.stock o.bookSide o.price with
      | some info =>
        let info : LevelInfo :=
          { qty := roundDouble (info.qty - o.remaining), count := info.count - 1 }
        if info.count ≤ 0 ∨ info.qty ≤ 0 then
          let r := r.setSides o.stock ((r.sides o.stock).drop o.bookSide o.price)
          let r := r.emit (o.event .delete {} ts)
          .ok { r with orders := r.orders.erase refNum }
        else do
          let r ← r.publish o info ts
          return { r with orders := r.orders.erase refNum }
      | none => do
        -- `level_gone` is false, so the event reads the level that was not found
        let info ← (r.sides o.stock).at? o.bookSide o.price
        let r := (r.setSides o.stock (r.sides o.stock)).emit (o.event .set info ts)
        return { r with orders := r.orders.erase refNum }

/-- `ITCHReplay::reduce_order`. -/
def reduceOrder (refNum byShares : ℕ) (ts : ℕ) (r : ITCHReplay) : Except Exn ITCHReplay :=
  match r.orders.lookup refNum with
  | none => .ok r
  | some o =>
    if r.skips o.stock then .ok r
    else if o.remaining ≤ byShares then r.removeOrder refNum ts
    else
      let o := { o with remaining := o.remaining - byShares }
      let r := { r with orders := r.orders.insert refNum o }
      let info := (r.level o.stock o.bookSide o.price).getD {}
      r.publish o { info with qty := roundDouble (info.qty - byShares) } ts

/-! ## Messages -/

/-- The order described by an Add Order message. -/
def readOrder (buf : Bytes) : Order where
  refNum := ru64 (buf.drop 11)
  side := buf.getD 19 0
  remaining := ru32 (buf.drop 20)
  price := ru32 (buf.drop 32) / 10000
  stock := readStock (buf.drop 24)

/-- `ITCHReplay::handle_add_order`. -/
def handleAddOrder (buf : Bytes) (ts : ℕ) (r : ITCHReplay) : Except Exn ITCHReplay :=
  if buf.length < 36 then .ok r else r.addOrder (readOrder buf) ts

/-- `ITCHReplay::handle_order_executed`. -/
def handleOrderExecuted (buf : Bytes) (ts : ℕ) (r : ITCHReplay) : Except Exn ITCHReplay :=
  if buf.length < 31 then .ok r
  else do
    let r ← r.reduceOrder (ru64 (buf.drop 11)) (ru32 (buf.drop 19)) ts
    return { r with executeCount := r.executeCount + 1 }

/-- `ITCHReplay::handle_order_cancel`. -/
def handleOrderCancel (buf : Bytes) (ts : ℕ) (r : ITCHReplay) : Except Exn ITCHReplay :=
  if buf.length < 23 then .ok r
  else do
    let r ← r.reduceOrder (ru64 (buf.drop 11)) (ru32 (buf.drop 19)) ts
    return { r with cancelCount := r.cancelCount + 1 }

/-- `ITCHReplay::handle_order_delete`. -/
def handleOrderDelete (buf : Bytes) (ts : ℕ) (r : ITCHReplay) : Except Exn ITCHReplay :=
  if buf.length < 19 then .ok r
  else do
    let r ← r.removeOrder (ru64 (buf.drop 11)) ts
    return { r with deleteCount := r.deleteCount + 1 }

/-- `ITCHReplay::handle_order_replace`: the new reference number, shares and price are read
and then discarded. -/
def handleOrderReplace (buf : Bytes) (ts : ℕ) (r : ITCHReplay) : Except Exn ITCHReplay :=
  if buf.length < 35 then .ok r
  else do
    let r ← r.removeOrder (ru64 (buf.drop 11)) ts
    return { r with replaceCount := r.replaceCount + 1 }

/-- The message types that `process_message` dispatches on. -/
inductive Kind
  | addOrder
  | executed
  | cancel
  | delete
  | replace
deriving DecidableEq, Repr

/-- The handler named by a message type byte: `A` and `F` add, `E` and `C` execute. -/
def kindOf (type : UInt8) : Option Kind :=
  if type = 65 ∨ type = 70 then some .addOrder
  else if type = 69 ∨ type = 67 then some .executed
  else if type = 88 then some .cancel
  else if type = 68 then some .delete
  else if type = 85 then some .replace
  else none

/-- `ITCHReplay::process_message`, with its return value. -/
def processMessage (r : ITCHReplay) (buf : Bytes) : Except Exn (ITCHReplay × Bool) :=
  match buf with
  | [] => .ok (r, false)
  | type :: _ =>
    let ts := if 11 ≤ buf.length then ru48 (buf.drop 5) else 0
    match kindOf type with
    | some .addOrder => do return (← r.handleAddOrder buf ts, true)
    | some .executed => do return (← r.handleOrderExecuted buf ts, true)
    | some .cancel => do return (← r.handleOrderCancel buf ts, true)
    | some .delete => do return (← r.handleOrderDelete buf ts, true)
    | some .replace => do return (← r.handleOrderReplace buf ts, true)
    | none => .ok (r, false)

/-- The messages of a feed, one call of `process_message` after the other. -/
def processMessages (r : ITCHReplay) (msgs : List Bytes) : Except Exn ITCHReplay :=
  msgs.foldlM (fun r buf => Prod.fst <$> r.processMessage buf) r

end ITCHReplay

end TickPlant
