/-
# The Gregorian calendar

Days are numbered from 1970-01-01.  `daysBefore` is the number of the first day of a year, and a day
lies in the year `yearOf`, which is estimated from the mean length of a year and corrected by one.
The days of a year are then cut into months.
-/
import Mathlib

namespace TickPlant.Lib

/-! ## Years -/

/-- The number of the first day of a year. -/
def daysBefore (y : ℤ) : ℤ :=
  365 * (y - 1970) + (y - 1969) / 4 - (y - 1901) / 100 + (y - 1601) / 400

/-- The leap years of the Gregorian calendar. -/
def IsLeap (y : ℤ) : Prop := y % 4 = 0 ∧ (y % 100 ≠ 0 ∨ y % 400 = 0)

instance (y : ℤ) : Decidable (IsLeap y) := inferInstanceAs (Decidable (_ ∧ _))

/-- The days of a year. -/
def yearLength (y : ℤ) : ℕ := if IsLeap y then 366 else 365

lemma daysBefore_succ (y : ℤ) : daysBefore (y + 1) = daysBefore y + yearLength y := by
  rw [yearLength, daysBefore, daysBefore]
  split <;> rename_i h <;> rw [IsLeap] at h <;> omega

lemma daysBefore_strictMono : StrictMono daysBefore := by
  refine strictMono_int_of_lt_succ fun y => ?_
  rw [daysBefore_succ, yearLength]
  split <;> omega

/-- The year of a day. -/
def yearOf (d : ℤ) : ℤ :=
  let y := 1970 + 400 * d / 146097
  if d < daysBefore y then y - 1
  else if daysBefore (y + 1) ≤ d then y + 1
  else y

lemma yearOf_spec (d : ℤ) : daysBefore (yearOf d) ≤ d ∧ d < daysBefore (yearOf d + 1) := by
  rw [yearOf]
  set y := 1970 + 400 * d / 146097 with hy
  have hlow : daysBefore (y - 1) ≤ d := by
    rw [daysBefore]
    omega
  have hhigh : d < daysBefore (y + 1 + 1) := by
    rw [daysBefore]
    omega
  split_ifs with hlt hle
  · exact ⟨hlow, by rwa [sub_add_cancel]⟩
  · exact ⟨hle, hhigh⟩
  · exact ⟨not_lt.mp hlt, not_le.mp hle⟩

lemma le_yearOf_iff {y d : ℤ} : y ≤ yearOf d ↔ daysBefore y ≤ d := by
  obtain ⟨hlow, hhigh⟩ := yearOf_spec d
  constructor
  · intro h
    exact (daysBefore_strictMono.monotone h).trans hlow
  · intro h
    have hlt := daysBefore_strictMono.lt_iff_lt.mp (h.trans_lt hhigh)
    omega

/-! ## Months -/

/-- The days of the months of a year. -/
def monthLengths (y : ℤ) : List ℕ :=
  [31, if IsLeap y then 29 else 28, 31, 30, 31, 30, 31, 31, 30, 31, 30, 31]

lemma sum_monthLengths (y : ℤ) : (monthLengths y).sum = yearLength y := by
  rw [monthLengths, yearLength]
  split <;> rfl

/-- The piece that a position is in, and the position in it. -/
def cut : List ℕ → ℕ → ℕ × ℕ
  | [], d => (0, d)
  | l :: ls, d => if d < l then (0, d) else ((cut ls (d - l)).1 + 1, (cut ls (d - l)).2)

lemma cut_spec {ls : List ℕ} {d : ℕ} (h : d < ls.sum) :
    ∃ l, ls[(cut ls d).1]? = some l ∧ (cut ls d).2 < l := by
  induction ls generalizing d with
  | nil => simp at h
  | cons l ls ih =>
    rw [cut]
    split
    · rename_i hlt
      exact ⟨l, rfl, hlt⟩
    · rename_i hge
      rw [List.sum_cons] at h
      simpa using ih (d := d - l) (by omega)

/-! ## Dates -/

/-- A date; months and days of the month are counted from one. -/
structure Date where
  year : ℤ
  month : ℕ
  day : ℕ
deriving DecidableEq

/-- The date of a day. -/
def civil (d : ℤ) : Date :=
  let pos := cut (monthLengths (yearOf d)) (d - daysBefore (yearOf d)).toNat
  ⟨yearOf d, pos.1 + 1, pos.2 + 1⟩

lemma cut_civil (d : ℤ) : (d - daysBefore (yearOf d)).toNat < (monthLengths (yearOf d)).sum := by
  obtain ⟨hlow, hhigh⟩ := yearOf_spec d
  rw [daysBefore_succ] at hhigh
  rw [sum_monthLengths]
  omega

lemma civil_month (d : ℤ) : (civil d).month ≤ 12 := by
  obtain ⟨l, hget, -⟩ := cut_spec (cut_civil d)
  have hlt := (List.getElem?_eq_some_iff.mp hget).1
  exact hlt

lemma civil_day (d : ℤ) : (civil d).day ≤ 31 := by
  obtain ⟨l, hget, hlt⟩ := cut_spec (cut_civil d)
  have hle : ∀ l ∈ monthLengths (yearOf d), l ≤ 31 := by
    rw [monthLengths]
    split <;> decide
  have := hle l (List.mem_of_getElem? hget)
  rw [civil]
  show _ + 1 ≤ 31
  omega

example : civil 19797 = ⟨2024, 3, 15⟩ := by decide +kernel

end TickPlant.Lib
