/-
# Byte strings

The strings of the code are `std::string` and `std::string_view`: sequences of bytes
with no encoding attached.  A byte string is therefore a list of `UInt8`, and a string
literal of the source is written `bytes "..."`.
-/
import TickPlant.Lib.Decimal

namespace TickPlant

/-- The contents of a `std::string`. -/
abbrev Bytes := List UInt8

/-- The bytes of a string literal of the source. -/
def bytes (s : String) : Bytes := s.toUTF8.data.toList

/-- `::toupper` in the C locale: only the letters `a` to `z` change. -/
def toUpper (c : UInt8) : UInt8 := if 97 ≤ c ∧ c ≤ 122 then c - 32 else c

/-- `std::transform(s.begin(), s.end(), s.begin(), ::toupper)`. -/
def upper (s : Bytes) : Bytes := s.map toUpper

/-- `std::to_string` of an unsigned integer. -/
def toText (n : ℕ) : Bytes := bytes (toString n)

/-- The bytes that a `const char*` at the start of the bytes denotes. -/
def cString (s : Bytes) : Bytes := s.takeWhile (· ≠ 0)

/-- A C string ends at its first zero byte. -/
lemma cString_append_zero (s t : Bytes) : cString (s ++ 0 :: t) = cString s := by
  rw [cString, cString, List.takeWhile_append]
  split
  · rename_i hlen
    have hall : s.takeWhile (· ≠ 0) = s :=
      List.IsPrefix.eq_of_length (List.takeWhile_prefix _) hlen
    rw [List.takeWhile_cons]
    simpa using hall.symm
  · rfl

lemma cString_eq_self {s : Bytes} (h : (0 : UInt8) ∉ s) : cString s = s := by
  rw [cString, List.takeWhile_eq_self_iff]
  intro x hx
  simpa using fun h0 : x = 0 => h (h0 ▸ hx)

lemma bytes_append (s t : String) : bytes (s ++ t) = bytes s ++ bytes t := by simp [bytes]

/-- `std::to_string` writes the decimal text. -/
lemma toText_eq_decimal (n : ℕ) : toText n = Lib.decimal n := by
  have hdigit : ∀ d < 10, bytes (String.ofList [Nat.digitChar d]) = [Lib.digit d] := by
    intro d hd
    interval_cases d <;> decide
  rw [toText, Nat.toString_eq_ofList_toDigits]
  induction n using Lib.decimal_induction with
  | small n h =>
    rw [Nat.toDigits_eq_if (by norm_num), if_pos h, Lib.decimal_of_lt h]
    exact hdigit n h
  | more n h ih =>
    rw [Nat.toDigits_eq_if (by norm_num), if_neg (by omega), String.ofList_append, bytes_append,
      ih, Lib.decimal_of_le h, hdigit _ (Nat.mod_lt _ (by norm_num))]

end TickPlant
