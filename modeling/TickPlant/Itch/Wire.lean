/-
# ITCH messages on the wire

The big-endian readers and writers of `itch_replay.cpp` and its synthetic message builders.
A pointer `&buf[n]` into a buffer is the rest of the buffer from offset `n` on.  The unsigned
fields are natural numbers: the readers combine at most eight bytes, so no shift leaves the
width of its type, and the writers truncate to a byte as `static_cast<uint8_t>` does.
-/
import TickPlant.Text
import TickPlant.Lib.BigEndian

namespace TickPlant.ITCHReplay

/-- `p[i]`, as a number. -/
def byteAt (p : Bytes) (i : ℕ) : ℕ := (p.getD i 0).toNat

/-! ## Readers -/

/-- `ITCHReplay::ru16`. -/
def ru16 (p : Bytes) : ℕ := byteAt p 0 <<< 8 ||| byteAt p 1

/-- `ITCHReplay::ru32`. -/
def ru32 (p : Bytes) : ℕ :=
  byteAt p 0 <<< 24 ||| byteAt p 1 <<< 16 ||| byteAt p 2 <<< 8 ||| byteAt p 3

/-- `ITCHReplay::ru64`. -/
def ru64 (p : Bytes) : ℕ :=
  byteAt p 0 <<< 56 ||| byteAt p 1 <<< 48 ||| byteAt p 2 <<< 40 ||| byteAt p 3 <<< 32 |||
    byteAt p 4 <<< 24 ||| byteAt p 5 <<< 16 ||| byteAt p 6 <<< 8 ||| byteAt p 7

/-- `ITCHReplay::ru48`, the six-byte timestamp. -/
def ru48 (p : Bytes) : ℕ :=
  byteAt p 0 <<< 40 ||| byteAt p 1 <<< 32 ||| byteAt p 2 <<< 24 ||| byteAt p 3 <<< 16 |||
    byteAt p 4 <<< 8 ||| byteAt p 5

/-- `ITCHReplay::read_stock`: eight bytes without their trailing spaces. -/
def readStock (p : Bytes) : Bytes := (p.take 8).rdropWhile (· == 32)

/-- The first `n` bytes at a pointer. -/
def firstBytes (n : ℕ) (p : Bytes) : Bytes := (List.range n).map fun i => p.getD i 0

lemma length_firstBytes (n : ℕ) (p : Bytes) : (firstBytes n p).length = n := by
  rw [firstBytes, List.length_map, List.length_range]

/-! Each reader combines the first bytes as a big-endian number. -/

section

variable (p : Bytes)

lemma ru16_eq : ru16 p = Lib.readBigEndian 0 (firstBytes 2 p) := by
  simp [ru16, byteAt, firstBytes, List.range_succ, Lib.readBigEndian]

lemma ru32_eq : ru32 p = Lib.readBigEndian 0 (firstBytes 4 p) := by
  simp [ru32, byteAt, firstBytes, List.range_succ, Lib.readBigEndian, Nat.shiftLeft_or_distrib,
    ← Nat.shiftLeft_add]

lemma ru48_eq : ru48 p = Lib.readBigEndian 0 (firstBytes 6 p) := by
  simp [ru48, byteAt, firstBytes, List.range_succ, Lib.readBigEndian, Nat.shiftLeft_or_distrib,
    ← Nat.shiftLeft_add]

lemma ru64_eq : ru64 p = Lib.readBigEndian 0 (firstBytes 8 p) := by
  simp [ru64, byteAt, firstBytes, List.range_succ, Lib.readBigEndian, Nat.shiftLeft_or_distrib,
    ← Nat.shiftLeft_add]

lemma ru64_lt : ru64 p < 2 ^ 64 := by
  have hlt := Lib.readBigEndian_lt 0 (firstBytes 8 p)
  rw [length_firstBytes] at hlt
  rw [ru64_eq]
  norm_num at hlt ⊢
  exact hlt

end

/-! ## Writers -/

/-- `ITCHReplay::wu16`, the bytes it stores. -/
def wu16 (v : ℕ) : Bytes := [8, 0].map fun n => UInt8.ofNat (v >>> n)

/-- `ITCHReplay::wu32`, the bytes it stores. -/
def wu32 (v : ℕ) : Bytes := [24, 16, 8, 0].map fun n => UInt8.ofNat (v >>> n)

/-- `ITCHReplay::wu64`. -/
def wu64 (v : ℕ) : Bytes := [56, 48, 40, 32, 24, 16, 8, 0].map fun n => UInt8.ofNat (v >>> n)

/-- `ITCHReplay::wu48`. -/
def wu48 (v : ℕ) : Bytes := [40, 32, 24, 16, 8, 0].map fun n => UInt8.ofNat (v >>> n)

/-! What a writer has written, the reader of its width reads back, whatever follows. -/

section

variable {v : ℕ} (rest : Bytes)

lemma ru16_wu16 (h : v < 2 ^ 16) : ru16 (wu16 v) = v := by
  rw [ru16_eq]
  exact Lib.readBigEndian_of_lt (n := 2) h

lemma ru32_wu32 (h : v < 2 ^ 32) : ru32 (wu32 v ++ rest) = v := by
  rw [ru32_eq]
  exact Lib.readBigEndian_of_lt (n := 4) h

lemma ru48_wu48 (h : v < 2 ^ 48) : ru48 (wu48 v ++ rest) = v := by
  rw [ru48_eq]
  exact Lib.readBigEndian_of_lt (n := 6) h

lemma ru64_wu64 (h : v < 2 ^ 64) : ru64 (wu64 v ++ rest) = v := by
  rw [ru64_eq]
  exact Lib.readBigEndian_of_lt (n := 8) h

end

/-- Storing bytes at `&msg[n]`. -/
def store (n : ℕ) (bs : Bytes) (msg : Bytes) : Bytes :=
  msg.take n ++ bs ++ msg.drop (n + bs.length)

/-- `std::vector<uint8_t> msg(len, 0)` with its type byte and its timestamp. -/
def makeMessage (len : ℕ) (type : UInt8) (timestampNs : ℕ) : Bytes :=
  store 5 (wu48 timestampNs) (store 0 [type] (List.replicate len 0))

/-- `ITCHReplay::make_add_order`. -/
def makeAddOrder (refNum : ℕ) (side : UInt8) (shares : ℕ) (stock : Bytes) (priceRaw : ℕ)
    (timestampNs : ℕ) : Bytes :=
  -- `strlen` stops at the first NUL, `memcpy` after eight bytes
  let name := (stock.takeWhile (· != 0)).take 8
  let msg := makeMessage 36 65 timestampNs
  let msg := store 11 (wu64 refNum) msg
  let msg := store 19 [side] msg
  let msg := store 20 (wu32 shares) msg
  let msg := store 24 (List.replicate 8 32) msg
  let msg := store 24 name msg
  store 32 (wu32 priceRaw) msg

/-- `ITCHReplay::make_order_executed`. -/
def makeOrderExecuted (refNum executedShares timestampNs : ℕ) : Bytes :=
  let msg := store 11 (wu64 refNum) (makeMessage 31 69 timestampNs)
  store 19 (wu32 executedShares) msg

/-- `ITCHReplay::make_order_cancel`. -/
def makeOrderCancel (refNum cancelledShares timestampNs : ℕ) : Bytes :=
  let msg := store 11 (wu64 refNum) (makeMessage 23 88 timestampNs)
  store 19 (wu32 cancelledShares) msg

/-- `ITCHReplay::make_order_delete`. -/
def makeOrderDelete (refNum timestampNs : ℕ) : Bytes :=
  store 11 (wu64 refNum) (makeMessage 19 68 timestampNs)

/-- `ITCHReplay::make_order_replace`. -/
def makeOrderReplace (oldRefNum newRefNum newShares newPriceRaw timestampNs : ℕ) : Bytes :=
  let msg := store 11 (wu64 oldRefNum) (makeMessage 35 85 timestampNs)
  let msg := store 19 (wu64 newRefNum) msg
  let msg := store 27 (wu32 newShares) msg
  store 31 (wu32 newPriceRaw) msg

end TickPlant.ITCHReplay
