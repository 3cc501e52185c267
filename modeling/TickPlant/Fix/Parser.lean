/-
# The FIX parser

`FIXParser` of `fix_parser.cpp`: the single-pass tokenizer, the number readers, the loop over
the fields with the state machine of the repeating group, and the builder of the messages that
the simulator and the tests send.

A field is `tag=value` up to the delimiter SOH.  The parser keeps the entry that is open
(`current_entry`, `-1` if there is none) beside the message: tag 279, and tag 269 in a snapshot,
opens an entry, the other tags of the group fill the one that is open.  The message has room for
32 entries; the entries of a longer group are dropped.

Arithmetic on `int` is modulo `2^32`, that on `double` is rounded (`Rounding`).  The text of a
`double` and the sending time are arguments of the builder.
-/
import TickPlant.Lib.Float
import TickPlant.OrderBook.Book

namespace TickPlant

open Lib

/-- The delimiter of FIX fields. -/
def fixSoh : UInt8 := 1

/-- `FIX_MAX_MD_ENTRIES`. -/
def fixMaxMdEntries : ℕ := 32

/-- `FIXMessage` with all its fields; `entries` is the array of 32 entries, of which the first
`numEntries` are in use. -/
structure FIXRecord where
  msgType : FIXMsgType := .unknown
  seqNum : ℤ := 0
  sender : Bytes := []
  target : Bytes := []
  sendTime : Bytes := []
  symbol : Bytes := []
  reqId : Bytes := []
  numEntries : ℕ := 0
  entries : List MDEntry := List.replicate fixMaxMdEntries ⟨0, 0, 0, 0⟩
  clOrdId : Bytes := []
  execId : Bytes := []
  side : ℤ := 0
  ordType : ℤ := 0
  ordStatus : ℤ := 0
  timeInForce : ℤ := 0
  orderPrice : ℚ := 0
  orderQty : ℚ := 0
  lastQty : ℚ := 0
  lastPx : ℚ := 0

namespace FIXRecord

/-- `FIXMessage::valid`. -/
def valid (out : FIXRecord) : Bool := out.msgType ≠ .unknown

/-- The entries in use. -/
def filled (out : FIXRecord) : List MDEntry := out.entries.take out.numEntries

/-- The part of the message that the book and the engine read. -/
def toMessage (out : FIXRecord) : FIXMessage := ⟨out.msgType, out.symbol, out.filled⟩

end FIXRecord

/-! ## Integers and their texts -/

/-- The value of an `int` computation. -/
def toInt32 (i : ℤ) : ℤ := i.bmod (2 ^ 32)

/-- The text of an integer. -/
def intText (i : ℤ) : Bytes := if i < 0 then 45 :: toText i.natAbs else toText i.natAbs

namespace FIXParser

/-! ## Fields -/

/-- The loop of `parse_int`: it ends at the first byte that is no digit. -/
def parseIntLoop : ℤ → Bytes → ℤ
  | result, [] => result
  | result, c :: rest =>
    if IsDigit c then parseIntLoop (toInt32 (result * 10 + digitValue c)) rest else result

/-- `FIXParser::parse_int`. -/
def parseInt : Bytes → ℤ
  | 45 :: rest => toInt32 (-parseIntLoop 0 rest)
  | sv => parseIntLoop 0 sv

/-- The first loop of `parse_double`: the integer part and what follows it. -/
def parseWhole (r : Rounding) : ℚ → Bytes → ℚ × Bytes
  | result, [] => (result, [])
  | result, c :: rest =>
    if IsDigit c then parseWhole r (r.round (r.round (result * 10) + digitValue c)) rest
    else (result, c :: rest)

/-- The second loop of `parse_double`: the digits after the point. -/
def parseFraction (r : Rounding) : ℚ → ℚ → Bytes → ℚ
  | result, _, [] => result
  | result, factor, c :: rest =>
    if IsDigit c then
      parseFraction r (r.round (result + r.round (digitValue c * factor)))
        (r.round (factor * r.round (1 / 10))) rest
    else result

/-- `parse_double` after the sign. -/
def parseUnsigned (r : Rounding) (sv : Bytes) : ℚ :=
  match parseWhole r 0 sv with
  | (result, 46 :: rest) => parseFraction r result (r.round (1 / 10)) rest
  | (result, _) => result

/-- `FIXParser::parse_double`. -/
def parseDouble (r : Rounding) : Bytes → ℚ
  | 45 :: rest => -parseUnsigned r rest
  | sv => parseUnsigned r sv

/-- `FIXParser::parse_msg_type`. -/
def parseMsgType (sv : Bytes) : FIXMsgType :=
  if sv = bytes "W" then .marketDataSnapshot
  else if sv = bytes "X" then .marketDataIncremental
  else if sv = bytes "D" then .newOrderSingle
  else if sv = bytes "8" then .executionReport
  else .unknown

/-- `FIXParser::next_field`: the tag, the value and the rest of the input. -/
def nextField (cursor : Bytes) : Option (ℤ × Bytes × Bytes) :=
  match cursor.findIdx? (· = 61) with
  | none => none
  | some eq =>
    let tag := parseInt (cursor.take eq)
    let cursor := cursor.drop (eq + 1)
    match cursor.findIdx? (· = fixSoh) with
    | none => some (tag, cursor, [])
    | some soh => some (tag, cursor.take soh, cursor.drop (soh + 1))

/-! ## The loop -/

/-- The variables of `parse`. -/
structure State where
  out : FIXRecord
  currentEntry : ℤ

/-- Opens a new entry, or none if there is no room. -/
def openEntry (s : State) : State :=
  if s.out.numEntries < fixMaxMdEntries then
    { out := { s.out with
        numEntries := s.out.numEntries + 1
        entries := s.out.entries.set s.out.numEntries ⟨0, 0, 0, 0⟩ }
      currentEntry := s.out.numEntries }
  else { s with currentEntry := -1 }

/-- Changes the entry that is open. -/
def fillEntry (f : MDEntry → MDEntry) (s : State) : State :=
  if 0 ≤ s.currentEntry then
    { s with out := { s.out with entries := s.out.entries.modify s.currentEntry.toNat f } }
  else s

/-- One field, except the checksum. -/
def onField (r : Rounding) (tag : ℤ) (value : Bytes) (s : State) : State :=
  match tag with
  | 35 => { s with out := { s.out with msgType := parseMsgType value } }
  | 34 => { s with out := { s.out with seqNum := parseInt value } }
  | 49 => { s with out := { s.out with sender := value } }
  | 56 => { s with out := { s.out with target := value } }
  | 52 => { s with out := { s.out with sendTime := value } }
  | 55 => { s with out := { s.out with symbol := value } }
  | 262 => { s with out := { s.out with reqId := value } }
  | 268 => { out := { s.out with numEntries := 0 }, currentEntry := -1 }
  | 269 =>
    -- in a snapshot this tag opens an entry; else only if none is open
    let s := if s.out.msgType = .marketDataSnapshot ∨ s.currentEntry < 0 then openEntry s else s
    fillEntry (fun e => { e with entryType := parseInt value }) s
  | 279 => fillEntry (fun e => { e with updateAction := parseInt value }) (openEntry s)
  | 270 => fillEntry (fun e => { e with price := parseDouble r value }) s
  | 271 => fillEntry (fun e => { e with quantity := parseDouble r value }) s
  | 11 => { s with out := { s.out with clOrdId := value } }
  | 17 => { s with out := { s.out with execId := value } }
  | 31 => { s with out := { s.out with lastPx := parseDouble r value } }
  | 32 => { s with out := { s.out with lastQty := parseDouble r value } }
  | 38 => { s with out := { s.out with orderQty := parseDouble r value } }
  | 39 => { s with out := { s.out with ordStatus := parseInt value } }
  | 40 => { s with out := { s.out with ordType := parseInt value } }
  | 44 => { s with out := { s.out with orderPrice := parseDouble r value } }
  | 54 => { s with out := { s.out with side := parseInt value } }
  | 59 => { s with out := { s.out with timeInForce := parseInt value } }
  | _ => s

/-- The loop of `parse`.  Every field takes at least one byte, so the length of the input is
enough fuel. -/
def parseLoop (r : Rounding) : ℕ → Bytes → State → FIXRecord
  | 0, _, s => s.out
  | fuel + 1, cursor, s =>
    match nextField cursor with
    | none => s.out
    | some (tag, value, rest) =>
      if tag = 10 then s.out else parseLoop r fuel rest (onField r tag value s)

/-- `FIXParser::parse`: whether the message is valid, and the message. -/
def parse (r : Rounding) (msg : Bytes) : Bool × FIXRecord :=
  let out := parseLoop r msg.length msg ⟨{}, -1⟩
  (out.valid, out)

/-! ## The builder -/

/-- The fields of one entry. -/
def entryText (fmt : ℚ → Bytes) (msgTypeStr : Bytes) (delim : UInt8) (e : MDEntry) : Bytes :=
  (if msgTypeStr = bytes "X" then bytes "279=" ++ intText e.updateAction ++ [delim] else []) ++
    (bytes "269=" ++ intText e.entryType ++ [delim]) ++
    (bytes "270=" ++ fmt e.price ++ [delim]) ++
    (bytes "271=" ++ fmt e.quantity ++ [delim])

/-- The body of a message. -/
def bodyText (fmt : ℚ → Bytes) (sendingTime msgTypeStr symbol : Bytes) (entries : List MDEntry)
    (seqNum : ℤ) (delim : UInt8) : Bytes :=
  (bytes "35=" ++ msgTypeStr ++ [delim]) ++
    (bytes "34=" ++ intText seqNum ++ [delim]) ++
    (bytes "49=SIMULATOR" ++ [delim]) ++
    (bytes "56=CLIENT" ++ [delim]) ++
    (bytes "52=" ++ sendingTime ++ [delim]) ++
    (bytes "55=" ++ symbol ++ [delim]) ++
    (bytes "268=" ++ toText entries.length ++ [delim]) ++
    entries.flatMap (entryText fmt msgTypeStr delim)

/-- The checksum: the sum of the bytes, in `unsigned int`, modulo 256. -/
def checksum (soFar : Bytes) : ℕ := (soFar.foldl (fun sum c => (sum + c.toNat) % 2 ^ 32) 0) % 256

/-- `build_fix_message`. -/
def buildFixMessage (fmt : ℚ → Bytes) (sendingTime msgTypeStr symbol : Bytes)
    (entries : List MDEntry) (seqNum : ℤ) (delim : UInt8) : Bytes :=
  let body := bodyText fmt sendingTime msgTypeStr symbol entries seqNum delim
  let soFar := (bytes "8=FIX.4.4" ++ [delim]) ++
    (bytes "9=" ++ intText (toInt32 body.length) ++ [delim]) ++ body
  soFar ++ (bytes "10=" ++ zeroPad 3 (toText (checksum soFar)) ++ [delim])

/-- `FIXParser::build_snapshot`. -/
def buildSnapshot (fmt : ℚ → Bytes) (sendingTime symbol : Bytes) (entries : List MDEntry)
    (seqNum : ℤ) (useSoh : Bool) : Bytes :=
  buildFixMessage fmt sendingTime (bytes "W") symbol entries seqNum (if useSoh then fixSoh else 124)

/-- `FIXParser::build_incremental`. -/
def buildIncremental (fmt : ℚ → Bytes) (sendingTime symbol : Bytes) (entries : List MDEntry)
    (seqNum : ℤ) (useSoh : Bool) : Bytes :=
  buildFixMessage fmt sendingTime (bytes "X") symbol entries seqNum (if useSoh then fixSoh else 124)

end FIXParser

end TickPlant
