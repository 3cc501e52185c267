/-
# The sending time

The start of `build_fix_message`: the current time, in UTC, as the value of tag 52.  `strftime`
writes `YYYYMMDD-HH:MM:SS` into a buffer, and `snprintf` writes the milliseconds at position 15 of
it.  The seconds stand at positions 15 and 16, so they are overwritten: the text is
`YYYYMMDD-HH:MM:.sss`.

The time is the number of milliseconds since the epoch.  Its conversions to `time_t` and to
milliseconds truncate, so before the epoch the milliseconds are negative.
-/
import TickPlant.Fix.RoundTrip
import TickPlant.Lib.Civil
import TickPlant.Lib.Number

namespace TickPlant.FIXParser

open Lib

/-! ## The standard library -/

/-- The fields of `std::tm` that are read. -/
structure Tm where
  tmYear : ℤ
  tmMon : ℕ
  tmMday : ℕ
  tmHour : ℕ
  tmMin : ℕ
  tmSec : ℕ

/-- `gmtime_r`: years are counted from 1900, months from zero. -/
def gmtime (t : ℤ) : Tm :=
  let date := civil (t / 86400)
  let s := (t % 86400).toNat
  ⟨date.year - 1900, date.month - 1, date.day, s / 3600, s % 3600 / 60, s % 60⟩

/-- The conversions `%m`, `%d`, `%H`, `%M` and `%S`. -/
def two (n : ℕ) : Bytes := zeroPad 2 (toText n)

/-- `%Y%m%d-%H:%M:`. -/
def minuteText (tm : Tm) : Bytes :=
  intText (tm.tmYear + 1900) ++ two (tm.tmMon + 1) ++ two tm.tmMday ++ bytes "-" ++
    two tm.tmHour ++ bytes ":" ++ two tm.tmMin ++ bytes ":"

/-- `strftime` with `%Y%m%d-%H:%M:%S`. -/
def strftime (tm : Tm) : Bytes := minuteText tm ++ two tm.tmSec

/-- `snprintf` with `.%03d`; a sign takes one of the three places. -/
def milliText (ms : ℤ) : Bytes :=
  46 :: if ms < 0 then 45 :: zeroPad 2 (toText ms.natAbs) else zeroPad 3 (toText ms.natAbs)

/-- A C string is written into a buffer. -/
def store (buf : Bytes) (offset : ℕ) (text : Bytes) : Bytes :=
  buf.take offset ++ (text ++ 0 :: buf.drop (offset + text.length + 1))

/-! ## The code -/

/-- The text of `build_fix_message` for tag 52; `tsBuf` is what the buffer holds before.  It has 24
bytes, which is enough for both texts. -/
def sendingTime (tsBuf : Bytes) (now : ℤ) : Bytes :=
  let gmt := gmtime (now.tdiv 1000)
  let tsBuf := store tsBuf 0 (strftime gmt)
  let tsBuf := store tsBuf 15 (milliText (now.tmod 1000))
  cString tsBuf

/-! ## The format -/

/-- The form `YYYYMMDD-HH:MM:SS.sss` of an instant. -/
def utcForm (now : ℤ) : Bytes :=
  strftime (gmtime (now / 1000)) ++ 46 :: zeroPad 3 (toText (now % 1000).toNat)

/-- The instants of the years 1000 to 9999. -/
def FourDigitYear (now : ℤ) : Prop :=
  1000 ≤ yearOf (now / 86400000) ∧ yearOf (now / 86400000) ≤ 9999

/-! ## Texts of a fixed length -/

lemma isDigit_two (n : ℕ) : ∀ b ∈ two n, IsDigit b := by
  rw [two, toText_eq_decimal]
  exact isDigit_zeroPad

lemma two_length {n : ℕ} (h : n < 100) : (two n).length = 2 := by
  have hlength := length_decimal_le (k := 2) (by norm_num) (by simpa using h)
  rw [two, toText_eq_decimal, zeroPad, List.length_append, List.length_replicate]
  omega

lemma intText_of_nonneg {y : ℤ} (h : 0 ≤ y) : intText y = decimal y.natAbs := by
  rw [intText, if_neg (not_lt.mpr h), toText_eq_decimal]

lemma year_length {y : ℤ} (hlow : 1000 ≤ y) (hhigh : y ≤ 9999) : (intText y).length = 4 := by
  rw [intText_of_nonneg (by omega), decimal_of_le (by omega), decimal_of_le (by omega),
    decimal_of_le (by omega), decimal_of_lt (by omega)]
  rfl

/-- The fields are in their ranges, and the year has four digits. -/
structure Tm.Fits (tm : Tm) : Prop where
  low : 1000 ≤ tm.tmYear + 1900
  high : tm.tmYear + 1900 ≤ 9999
  mon : tm.tmMon < 12
  mday : tm.tmMday ≤ 31
  hour : tm.tmHour < 24
  min : tm.tmMin < 60
  sec : tm.tmSec < 60

lemma minuteText_length {tm : Tm} (h : tm.Fits) : (minuteText tm).length = 15 := by
  obtain ⟨hlow, hhigh, hmon, hmday, hhour, hmin, -⟩ := h
  simp only [minuteText, List.length_append, year_length hlow hhigh,
    two_length (show tm.tmMon + 1 < 100 by omega), two_length (show tm.tmMday < 100 by omega),
    two_length (show tm.tmHour < 100 by omega), two_length (show tm.tmMin < 100 by omega)]
  rfl

/-- The texts have no byte below the minus sign, and so not the one that ends a string. -/
lemma le_of_isDigit {b : UInt8} (h : IsDigit b) : 45 ≤ b :=
  UInt8.le_trans (by decide) h.1

lemma le_of_mem_minuteText {tm : Tm} (h : tm.Fits) : ∀ b ∈ minuteText tm, 45 ≤ b := by
  have hlow := h.low
  have hyear : ∀ b ∈ intText (tm.tmYear + 1900), 45 ≤ b := by
    rw [intText_of_nonneg (by omega)]
    exact fun b hb => le_of_isDigit (decimal_isDigit _ b hb)
  have htwo : ∀ n, ∀ b ∈ two n, 45 ≤ b := fun n b hb => le_of_isDigit (isDigit_two n b hb)
  have hdash : ∀ b ∈ bytes "-", 45 ≤ b := by decide +kernel
  have hcolon : ∀ b ∈ bytes ":", 45 ≤ b := by decide +kernel
  simp only [minuteText, List.forall_mem_append]
  exact ⟨⟨⟨⟨⟨⟨⟨hyear, htwo _⟩, htwo _⟩, hdash⟩, htwo _⟩, hcolon⟩, htwo _⟩, hcolon⟩

lemma le_of_mem_milliText (ms : ℤ) : ∀ b ∈ milliText ms, 45 ≤ b := by
  have hpad : ∀ k n, ∀ b ∈ zeroPad k (toText n), 45 ≤ b := by
    intro k n b hb
    rw [toText_eq_decimal] at hb
    exact le_of_isDigit (isDigit_zeroPad b hb)
  rw [milliText, List.forall_mem_cons]
  refine ⟨by decide, ?_⟩
  split
  · rw [List.forall_mem_cons]
    exact ⟨UInt8.le_refl 45, hpad _ _⟩
  · exact hpad _ _

lemma le_of_mem_texts {tm : Tm} (h : tm.Fits) (ms : ℤ) :
    ∀ b ∈ minuteText tm ++ milliText ms, 45 ≤ b := by
  rw [List.forall_mem_append]
  exact ⟨le_of_mem_minuteText h, le_of_mem_milliText ms⟩

/-! ## Instants -/

lemma fourDigitYear_iff (now : ℤ) :
    FourDigitYear now ↔ -30610224000000 ≤ now ∧ now < 253402300800000 := by
  have hlow : daysBefore 1000 = -354285 := by decide
  have hhigh : daysBefore 10000 = 2932897 := by decide
  have hle : yearOf (now / 86400000) ≤ 9999 ↔ ¬ 10000 ≤ yearOf (now / 86400000) := by omega
  rw [FourDigitYear, hle, le_yearOf_iff, le_yearOf_iff, hlow, hhigh]
  omega

lemma gmtime_fits {t : ℤ} (hlow : -30610224000 ≤ t) (hhigh : t < 253402300800) :
    (gmtime t).Fits := by
  have h1000 : 1000 ≤ yearOf (t / 86400) := by
    rw [le_yearOf_iff, show daysBefore 1000 = -354285 by decide]
    omega
  have h10000 : ¬ 10000 ≤ yearOf (t / 86400) := by
    rw [le_yearOf_iff, show daysBefore 10000 = 2932897 by decide]
    omega
  have hyear : (civil (t / 86400)).year = yearOf (t / 86400) := rfl
  have hmonth := civil_month (t / 86400)
  have hday := civil_day (t / 86400)
  have hmod : t % 86400 < 86400 := Int.emod_lt_of_pos t (by norm_num)
  constructor <;> simp only [gmtime] <;> omega

/-- The text up to the minute depends on the minute only. -/
lemma minuteText_gmtime {t t' : ℤ} (h : t / 60 = t' / 60) :
    minuteText (gmtime t) = minuteText (gmtime t') := by
  have hday : t / 86400 = t' / 86400 := by omega
  have hhour : (t % 86400).toNat / 3600 = (t' % 86400).toNat / 3600 := by omega
  have hmin : (t % 86400).toNat % 3600 / 60 = (t' % 86400).toNat % 3600 / 60 := by omega
  simp only [minuteText, gmtime, hday, hhour, hmin]

/-- The conversion to seconds truncates. -/
lemma tdiv_thousand (now : ℤ) :
    now.tdiv 1000 = if 0 ≤ now then now / 1000 else -(-now / 1000) := by
  split
  · rename_i h
    exact Int.tdiv_eq_ediv_of_nonneg h
  · rename_i h
    rw [← Int.tdiv_eq_ediv_of_nonneg (by omega), Int.neg_tdiv, neg_neg]

lemma fits_of_fourDigitYear {now : ℤ} (h : FourDigitYear now) :
    (gmtime (now.tdiv 1000)).Fits ∧ (gmtime (now / 1000)).Fits := by
  obtain ⟨hlow, hhigh⟩ := (fourDigitYear_iff now).mp h
  constructor
  · rw [tdiv_thousand]
    split
    · exact gmtime_fits (by omega) (by omega)
    · exact gmtime_fits (by omega) (by omega)
  · exact gmtime_fits (by omega) (by omega)

/-! ## The buffer -/

/-- The milliseconds stand behind the minute, whatever the buffer held. -/
lemma sendingTime_eq (tsBuf : Bytes) {now : ℤ} (h : FourDigitYear now) :
    sendingTime tsBuf now =
      minuteText (gmtime (now.tdiv 1000)) ++ milliText (now.tmod 1000) := by
  obtain ⟨hfits, -⟩ := fits_of_fourDigitYear h
  set gmt := gmtime (now.tdiv 1000) with hgmt
  have hfirst : (store tsBuf 0 (strftime gmt)).take 15 = minuteText gmt := by
    rw [store, List.take_zero, List.nil_append, strftime, List.append_assoc,
      List.take_left' (minuteText_length hfits)]
  have hzero : 0 ∉ minuteText gmt ++ milliText (now.tmod 1000) :=
    fun hmem => absurd (le_of_mem_texts hfits _ _ hmem) (by decide)
  simp only [sendingTime, ← hgmt]
  rw [store, hfirst, ← List.append_assoc, cString_append_zero, cString_eq_self hzero]

/-! ## The results -/

lemma head_two (n : ℕ) (rest : Bytes) : ∃ b rest', two n ++ rest = b :: rest' ∧ IsDigit b := by
  have hne : two n ≠ [] := by
    rw [two, toText_eq_decimal, zeroPad]
    exact List.append_ne_nil_of_right_ne_nil _ (decimal_ne_nil n)
  obtain ⟨b, ds, hds⟩ := List.exists_cons_of_ne_nil hne
  refine ⟨b, ds ++ rest, by rw [hds, List.cons_append], isDigit_two n b ?_⟩
  rw [hds]
  exact List.mem_cons_self

/-- Where the form has the first digit of the seconds, the text has the point. -/
lemma sendingTime_ne_form (tsBuf : Bytes) {now : ℤ} (h : FourDigitYear now) :
    sendingTime tsBuf now ≠ utcForm now := by
  obtain ⟨hfits, hfits'⟩ := fits_of_fourDigitYear h
  intro heq
  rw [sendingTime_eq tsBuf h, utcForm, strftime, List.append_assoc] at heq
  have hlength := (minuteText_length hfits).trans (minuteText_length hfits').symm
  obtain ⟨-, hrest⟩ := List.append_inj heq hlength
  obtain ⟨b, rest, htwo, hb⟩ := head_two (gmtime (now / 1000)).tmSec
    (46 :: zeroPad 3 (toText (now % 1000).toNat))
  rw [htwo, milliText] at hrest
  obtain ⟨rfl, -⟩ := List.cons.inj hrest
  exact absurd hb (by decide)

/-- One second later, unless zero is passed. -/
lemma truncate_next (now : ℤ) (h : 0 ≤ now ∨ now ≤ -2000) :
    (now + 1000).tdiv 1000 = now.tdiv 1000 + 1 ∧ (now + 1000).tmod 1000 = now.tmod 1000 := by
  have hdiv : (now + 1000).tdiv 1000 = now.tdiv 1000 + 1 := by
    rw [tdiv_thousand, tdiv_thousand]
    split_ifs <;> omega
  have hnow := Int.mul_tdiv_add_tmod now 1000
  have hnext := Int.mul_tdiv_add_tmod (now + 1000) 1000
  exact ⟨hdiv, by omega⟩

/-- The instants of one minute have the same text if their milliseconds are the same. -/
lemma sendingTime_of_minute (tsBuf : Bytes) {now now' : ℤ} (h : FourDigitYear now)
    (h' : FourDigitYear now') (hminute : now'.tdiv 1000 / 60 = now.tdiv 1000 / 60)
    (hms : now'.tmod 1000 = now.tmod 1000) : sendingTime tsBuf now' = sendingTime tsBuf now := by
  rw [sendingTime_eq tsBuf h, sendingTime_eq tsBuf h', minuteText_gmtime hminute, hms]

/-- Another second of the same minute has the same text; only the last second before the epoch,
which the truncation puts into the minute after it, has no other. -/
lemma sendingTime_collides (tsBuf : Bytes) {now : ℤ} (h : FourDigitYear now)
    (hnow : now ≤ -1000 ∨ 0 ≤ now) :
    ∃ now', now' ≠ now ∧ FourDigitYear now' ∧ sendingTime tsBuf now' = sendingTime tsBuf now := by
  have hbounds := (fourDigitYear_iff now).mp h
  have hseconds := tdiv_thousand now
  by_cases hlast : now.tdiv 1000 % 60 = 59
  · obtain ⟨hdiv, hmod⟩ := truncate_next (now - 1000) (by split_ifs at hseconds <;> omega)
    rw [sub_add_cancel] at hdiv hmod
    have hyear : FourDigitYear (now - 1000) :=
      (fourDigitYear_iff _).mpr (by split_ifs at hseconds <;> omega)
    exact ⟨now - 1000, by omega, hyear,
      sendingTime_of_minute tsBuf h hyear (by omega) hmod.symm⟩
  · obtain ⟨hdiv, hmod⟩ := truncate_next now (by split_ifs at hseconds <;> omega)
    have hyear : FourDigitYear (now + 1000) :=
      (fourDigitYear_iff _).mpr (by split_ifs at hseconds <;> omega)
    exact ⟨now + 1000, by omega, hyear, sendingTime_of_minute tsBuf h hyear (by omega) hmod⟩

/-- **The sending time.**  For no instant of the years 1000 to 9999 does `build_fix_message` put its
form into tag 52, and every one of them but those of the last second before the epoch shares its
text with another. -/
theorem sendingTime_never (tsBuf : Bytes) (now : ℤ) (h : FourDigitYear now) :
    sendingTime tsBuf now ≠ utcForm now ∧
      (now ≤ -1000 ∨ 0 ≤ now → ∃ now', now' ≠ now ∧ FourDigitYear now' ∧
        sendingTime tsBuf now' = sendingTime tsBuf now) :=
  ⟨sendingTime_ne_form tsBuf h, sendingTime_collides tsBuf h⟩

/-- 2024-03-15 10:30:00.123 UTC. -/
theorem sendingTime_never_march :
    sendingTime (List.replicate 24 0) 1710498600123 ≠ utcForm 1710498600123 ∧
      ∃ now', now' ≠ 1710498600123 ∧ FourDigitYear now' ∧
        sendingTime (List.replicate 24 0) now' = sendingTime (List.replicate 24 0) 1710498600123 :=
  (sendingTime_never (List.replicate 24 0) 1710498600123
    ((fourDigitYear_iff _).mpr (by norm_num))).imp_right fun h => h (Or.inr (by norm_num))

/-- The same instant and the one a second later: the seconds are missing. -/
theorem sendingTime_drops_seconds :
    sendingTime (List.replicate 24 0) 1710498600123 = bytes "20240315-10:30:.123" ∧
      sendingTime (List.replicate 24 0) 1710498601123 = bytes "20240315-10:30:.123" ∧
      utcForm 1710498600123 = bytes "20240315-10:30:00.123" := by
  decide +kernel

end TickPlant.FIXParser
