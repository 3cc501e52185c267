/-
# Big-endian numbers

A number of `8 n` bits as the list of its `n` bytes, the most significant one first.  Reading
what was written gives the number back modulo `256 ^ n`, whatever was read before it.
-/
import Mathlib

namespace TickPlant.Lib

/-- The number read from a list of bytes, after a number that was read before. -/
def readBigEndian (acc : ℕ) (bs : List UInt8) : ℕ := bs.foldl (fun v b => v <<< 8 ||| b.toNat) acc

/-- The last `n` bytes of a number. -/
def bigEndian (v : ℕ) : ℕ → List UInt8
  | 0 => []
  | n + 1 => UInt8.ofNat (v >>> (8 * n)) :: bigEndian v n

/-- One more byte. -/
lemma readBigEndian_cons (acc : ℕ) (b : UInt8) (bs : List UInt8) :
    readBigEndian acc (b :: bs) = readBigEndian (acc * 256 + b.toNat) bs := by
  have hbyte : acc <<< 8 ||| b.toNat = acc * 256 + b.toNat := by
    rw [← Nat.shiftLeft_add_eq_or_of_lt b.toNat_lt, Nat.shiftLeft_eq]
  rw [readBigEndian, List.foldl_cons, hbyte]
  rfl

lemma readBigEndian_bigEndian (acc v n : ℕ) :
    readBigEndian acc (bigEndian v n) = acc * 256 ^ n + v % 256 ^ n := by
  induction n generalizing acc with
  | zero => simp [bigEndian, readBigEndian, Nat.mod_one]
  | succ n ih =>
    have hbyte : (UInt8.ofNat (v >>> (8 * n))).toNat = v / 256 ^ n % 256 := by
      rw [UInt8.toNat_ofNat', Nat.shiftRight_eq_div_pow, pow_mul]
      norm_num
    rw [bigEndian, readBigEndian_cons, ih, hbyte, pow_succ 256 n, Nat.mod_mul]
    ring

/-- **Reading what was written.** -/
lemma readBigEndian_of_lt {v n : ℕ} (h : v < 256 ^ n) : readBigEndian 0 (bigEndian v n) = v := by
  rw [readBigEndian_bigEndian, Nat.mod_eq_of_lt h, zero_mul, zero_add]

lemma readBigEndian_lt (acc : ℕ) (bs : List UInt8) :
    readBigEndian acc bs < (acc + 1) * 256 ^ bs.length := by
  induction bs generalizing acc with
  | nil => simp [readBigEndian]
  | cons b bs ih =>
    have hbyte : acc * 256 + b.toNat + 1 ≤ (acc + 1) * 256 := by
      have := b.toNat_lt
      omega
    calc readBigEndian acc (b :: bs)
        < (acc * 256 + b.toNat + 1) * 256 ^ bs.length := by
          rw [readBigEndian_cons]
          exact ih _
      _ ≤ (acc + 1) * 256 * 256 ^ bs.length := Nat.mul_le_mul_right _ hbyte
      _ = (acc + 1) * 256 ^ (b :: bs).length := by
          rw [List.length_cons, pow_succ]
          ring

end TickPlant.Lib
