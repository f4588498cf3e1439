import LazyPock.Core.Text
import LazyPock.Machine.Calendar

/-!
# Timestamps

The two formats in which the server writes an instant: RFC 3339 in a backup (`crates/db/src/backup.rs`) and
the one a signature requires (`crates/files/src/s3.rs`). Each file has its own copy of `civil_from_days`. Both
are the proleptic Gregorian calendar, and a timestamp of four digits for the year can be compared as a text.

## Main definitions

* `Backup.civilFromDays`, `S3.civilFromDays`: the date of a day.
* `Backup.formatRfc3339`, `S3.formatTimestamp`: an instant as a text.
* `Timestamps.Denotes`: the instant that a text denotes.

## Main results

* `Timestamps.civilFromDays_dayCount`, `Timestamps.dayCount_civilFromDays`.
* `Timestamps.write_lt`: fields in order are texts in order.
* `Timestamps.timestamps_are_gregorian`.
-/

namespace LazyPock

open Machine.Calendar List

/-! ### The code -/

namespace Timestamps

/-- `as u32` -/
def asU32 (n : ℤ) : ℕ := (n % 2 ^ 32).toNat

/-- `{:0width$}` of an integer. -/
def zeroPad (width : ℕ) (n : ℤ) : String :=
  let digits := Nat.toDigits 10 n.natAbs
  if n < 0 then "-" ++ String.ofList (List.replicate (width - 1 - digits.length) '0' ++ digits)
  else String.ofList (List.replicate (width - digits.length) '0' ++ digits)

end Timestamps

open Timestamps

namespace Backup

/-- The date for a count of days since 1970-01-01. -/
def civilFromDays (days : ℤ) : Date :=
  let shifted := days + 719468
  let era := shifted / 146097
  let dayOfEra := shifted % 146097
  let yearOfEra := (dayOfEra - dayOfEra / 1460 + dayOfEra / 36524 - dayOfEra / 146096) / 365
  let year := yearOfEra + era * 400
  let dayOfYear := dayOfEra - (365 * yearOfEra + yearOfEra / 4 - yearOfEra / 100)
  let marchMonth := (5 * dayOfYear + 2) / 153
  let day := asU32 (dayOfYear - (153 * marchMonth + 2) / 5 + 1)
  let month := asU32 (if marchMonth < 10 then marchMonth + 3 else marchMonth - 9)
  ⟨if month ≤ 2 then year + 1 else year, month, day⟩

/-- Format unix seconds as RFC 3339, in UTC. -/
def formatRfc3339 (seconds : ℤ) : String :=
  let days := seconds / 86400
  let time := seconds % 86400
  let date := civilFromDays days
  zeroPad 4 date.year ++ "-" ++ zeroPad 2 date.month ++ "-" ++ zeroPad 2 date.day ++ "T" ++
    zeroPad 2 (time / 3600) ++ ":" ++ zeroPad 2 (time % 3600 / 60) ++ ":" ++ zeroPad 2 (time % 60) ++ "Z"

end Backup

namespace S3

/-- The calendar date for a count of days since 1970-01-01. -/
def civilFromDays (days : ℤ) : Date :=
  let shifted := days + 719468
  let era := shifted / 146097
  let dayOfEra := shifted % 146097
  let yearOfEra := (dayOfEra - dayOfEra / 1460 + dayOfEra / 36524 - dayOfEra / 146096) / 365
  let year := yearOfEra + era * 400
  let dayOfYear := dayOfEra - (365 * yearOfEra + yearOfEra / 4 - yearOfEra / 100)
  let marchMonth := (5 * dayOfYear + 2) / 153
  let day := asU32 (dayOfYear - (153 * marchMonth + 2) / 5 + 1)
  let month := asU32 (if marchMonth < 10 then marchMonth + 3 else marchMonth - 9)
  ⟨if month ≤ 2 then year + 1 else year, month, day⟩

/-- Format unix seconds as `YYYYMMDDTHHMMSSZ`. -/
def formatTimestamp (seconds : ℤ) : String :=
  let days := seconds / 86400
  let time := seconds % 86400
  let date := civilFromDays days
  zeroPad 4 date.year ++ zeroPad 2 date.month ++ zeroPad 2 date.day ++ "T" ++ zeroPad 2 (time / 3600) ++
    zeroPad 2 (time % 3600 / 60) ++ zeroPad 2 (time % 60) ++ "Z"

end S3

namespace Timestamps

open Backup S3

example : formatRfc3339 1700000000 = "2023-11-14T22:13:20Z" := by decide

/-! ### Dates -/

theorem asU32_of_lt {n : ℤ} (hpos : 0 ≤ n) (hlt : n < 2 ^ 32) : asU32 n = n.toNat := by
  rw [asU32, Int.emod_eq_of_lt hpos hlt]

/-- The date of a day is that of the day in a year that starts with March. -/
theorem civilFromDays_eq {n century quad year dayOfYear : ℤ} (h : InEra n century quad year dayOfYear)
    (era : ℤ) : Backup.civilFromDays (era * 146097 + n - 719468) =
      ofMarch (100 * century + 4 * quad + year + era * 400) dayOfYear := by
  obtain ⟨⟨hc, hc'⟩, ⟨hq, hq'⟩, ⟨hy, hy'⟩, hpos, hday, hn⟩ := id h
  have hshifted : era * 146097 + n - 719468 + 719468 = era * 146097 + n := by omega
  have hera : (era * 146097 + n) / 146097 = era := by omega
  have hrest : (era * 146097 + n) % 146097 = n := by omega
  rw [Backup.civilFromDays]
  simp only [hshifted, hera, hrest, h.year_eq, h.days_eq]
  have hmonth : 0 ≤ (5 * dayOfYear + 2) / 153 ∧ (5 * dayOfYear + 2) / 153 ≤ 11 := by omega
  rw [ofMarch]
  have hmonths : asU32 (if (5 * dayOfYear + 2) / 153 < 10 then (5 * dayOfYear + 2) / 153 + 3
      else (5 * dayOfYear + 2) / 153 - 9) = (if (5 * dayOfYear + 2) / 153 < 10 then
        (5 * dayOfYear + 2) / 153 + 3 else (5 * dayOfYear + 2) / 153 - 9).toNat :=
    asU32_of_lt (by split_ifs <;> omega) (by split_ifs <;> omega)
  rw [hmonths, asU32_of_lt (by omega) (by omega)]
  by_cases hearly : (5 * dayOfYear + 2) / 153 < 10
  · rw [if_pos hearly, if_neg (by omega), if_pos hearly]
  · rw [if_neg hearly, if_pos (by omega), if_neg hearly]

/-- Every day is a day of an era. -/
theorem exists_era (days : ℤ) : ∃ era n century quad year dayOfYear,
    InEra n century quad year dayOfYear ∧ days = era * 146097 + n - 719468 := by
  obtain ⟨century, quad, year, dayOfYear, h⟩ :=
    exists_inEra (Int.emod_nonneg (days + 719468) (by decide)) (Int.emod_lt_of_pos _ (by decide))
  exact ⟨(days + 719468) / 146097, _, century, quad, year, dayOfYear, h, by omega⟩

/-- **The date of a day** is a date, and it is that day. -/
theorem dayCount_civilFromDays (days : ℤ) :
    (Backup.civilFromDays days).Valid ∧ (Backup.civilFromDays days).dayCount = days := by
  obtain ⟨era, n, century, quad, year, dayOfYear, h, rfl⟩ := exists_era days
  have hlast : dayOfYear ≤ 364 ∨
      (dayOfYear = 365 ∧ isLeap (100 * century + 4 * quad + year + era * 400 + 1) = true) :=
    h.day_le.imp id fun hday => ⟨hday.1, h.leap hday.1⟩
  obtain ⟨hvalid, hcount⟩ := dayCount_march h.day_nonneg hlast
  rw [civilFromDays_eq h]
  exact ⟨hvalid, by rw [hcount, h.daysBeforeYear_eq]⟩

/-- Each date is the date of its day. -/
theorem civilFromDays_dayCount {date : Date} (h : date.Valid) : Backup.civilFromDays date.dayCount = date :=
  eq_of_dayCount (dayCount_civilFromDays _).1 h (dayCount_civilFromDays _).2

/-- Days in order have dates in order. -/
theorem civilFromDays_before {a b : ℤ} (h : a < b) :
    (Backup.civilFromDays a).Before (Backup.civilFromDays b) := by
  refine before_of_dayCount (dayCount_civilFromDays a).1 (dayCount_civilFromDays b).1 ?_
  rwa [(dayCount_civilFromDays a).2, (dayCount_civilFromDays b).2]

/-- The date of the next day is the next date. -/
theorem civilFromDays_succ (days : ℤ) :
    Backup.civilFromDays (days + 1) = (Backup.civilFromDays days).next := by
  obtain ⟨hvalid, hcount⟩ := dayCount_civilFromDays days
  refine eq_of_dayCount (dayCount_civilFromDays _).1 (next_valid hvalid) ?_
  rw [(dayCount_civilFromDays _).2, dayCount_next hvalid, hcount]

/-! ### Digits of a fixed width -/

/-- The digits of a number, with zeros in front. -/
def digits (width n : ℕ) : List Char :=
  List.replicate (width - (Nat.toDigits 10 n).length) '0' ++ Nat.toDigits 10 n

theorem zeroPad_natCast (width n : ℕ) : zeroPad width n = String.ofList (digits width n) := by
  rw [zeroPad, if_neg (by omega), Int.natAbs_natCast, digits]

theorem length_digits {width n : ℕ} (hpos : 0 < width) (h : n < 10 ^ width) : (digits width n).length = width := by
  have hle : (Nat.toDigits 10 n).length ≤ width := (Nat.length_toDigits_le_iff (by decide) hpos).mpr h
  rw [digits, length_append, length_replicate, Nat.sub_add_cancel hle]

theorem value_digits (width n : ℕ) : Nat.ofDigitChars 10 (digits width n) 0 = n := by
  rw [digits, Nat.ofDigitChars_append, Nat.ofDigitChars_replicate_zero, Nat.mul_zero,
    Nat.ofDigitChars_ten_toDigits]

theorem all_digits (width n : ℕ) : ∀ c ∈ digits width n, Text.isAsciiDigit c = true := by
  intro c hc
  rcases mem_append.mp hc with hzero | hdigit
  · rw [eq_of_mem_replicate hzero]
    decide
  · exact Text.isAsciiDigit_of_mem_toDigits hdigit

theorem value_cons (c : Char) (cs : List Char) :
    Nat.ofDigitChars 10 (c :: cs) 0 = 10 ^ cs.length * (c.toNat - '0'.toNat) + Nat.ofDigitChars 10 cs 0 := by
  rw [Nat.ofDigitChars_cons, Nat.ofDigitChars_eq_ofDigitChars_zero, Nat.mul_zero, Nat.zero_add]

theorem digit_range {c : Char} (h : Text.isAsciiDigit c = true) : '0'.toNat ≤ c.toNat ∧ c.toNat ≤ '0'.toNat + 9 := by
  simpa [Text.isAsciiDigit, Char.le_def, UInt32.le_iff_toNat_le] using h

theorem value_lt {cs : List Char} (h : ∀ c ∈ cs, Text.isAsciiDigit c = true) :
    Nat.ofDigitChars 10 cs 0 < 10 ^ cs.length := by
  induction cs with
  | nil => exact Nat.one_pos
  | cons c cs ih =>
    obtain ⟨hc, hcs⟩ := forall_mem_cons.mp h
    have hrest := ih hcs
    have hdigit : c.toNat - '0'.toNat ≤ 9 := by
      have := digit_range hc
      omega
    have hstep : 10 ^ cs.length * (c.toNat - '0'.toNat) ≤ 10 ^ cs.length * 9 := Nat.mul_le_mul_left _ hdigit
    rw [value_cons, length_cons, Nat.pow_succ]
    omega

/-- Numbers in order have digits in order. -/
theorem lt_of_value_lt {a b : List Char} (ha : ∀ c ∈ a, Text.isAsciiDigit c = true)
    (hb : ∀ c ∈ b, Text.isAsciiDigit c = true) (hlength : a.length = b.length)
    (h : Nat.ofDigitChars 10 a 0 < Nat.ofDigitChars 10 b 0) : a < b := by
  induction a generalizing b with
  | nil =>
    obtain rfl : b = [] := eq_nil_of_length_eq_zero hlength.symm
    exact absurd h (Nat.lt_irrefl _)
  | cons c a ih =>
    cases b with
    | nil => cases hlength
    | cons d b =>
      obtain ⟨hc, ha⟩ := forall_mem_cons.mp ha
      obtain ⟨hd, hb⟩ := forall_mem_cons.mp hb
      have hlengths : a.length = b.length := Nat.succ.inj hlength
      have hcRange := digit_range hc
      have hdRange := digit_range hd
      have hsmall := value_lt hb
      rw [value_cons, value_cons, hlengths] at h
      rw [cons_lt_cons_iff]
      rcases Nat.lt_trichotomy c.toNat d.toNat with hlt | heq | hgt
      · exact .inl (by rwa [Char.lt_def, UInt32.lt_iff_toNat_lt])
      · rw [heq, Nat.add_lt_add_iff_left] at h
        exact .inr ⟨Char.toNat_inj.mp heq, ih ha hb hlengths h⟩
      · have hstep : 10 ^ b.length * (d.toNat - '0'.toNat) + 10 ^ b.length ≤
            10 ^ b.length * (c.toNat - '0'.toNat) := by
          rw [← Nat.mul_succ]
          exact Nat.mul_le_mul_left _ (by omega)
        omega

theorem digits_lt {width a b : ℕ} (hpos : 0 < width) (hb : b < 10 ^ width) (h : a < b) :
    digits width a < digits width b := by
  refine lt_of_value_lt (all_digits _ _) (all_digits _ _) ?_ ?_
  · rw [length_digits hpos (h.trans hb), length_digits hpos hb]
  · rwa [value_digits, value_digits]

/-! ### Fields -/

/-- Fields of fixed widths, each with what stands behind it. -/
def write : List (ℕ × String) → List ℕ → List Char
  | (width, after) :: shape, n :: fields => digits width n ++ (after.toList ++ write shape fields)
  | _, _ => []

/-- The fields of a text. -/
def read : List (ℕ × String) → List Char → Option (List ℕ)
  | [], cs => if cs = [] then some [] else none
  | (width, after) :: shape, cs =>
    if (cs.take width).all Text.isAsciiDigit ∧ after.toList <+: cs.drop width then
      (read shape (cs.drop (width + after.toList.length))).map (Nat.ofDigitChars 10 (cs.take width) 0 :: ·)
    else none

/-- Each field has its width. -/
def Fits : List (ℕ × String) → List ℕ → Prop
  | [], [] => True
  | (width, _) :: shape, n :: fields => (0 < width ∧ n < 10 ^ width) ∧ Fits shape fields
  | _, _ => False

/-- **What is written is read.** -/
theorem read_write {shape : List (ℕ × String)} {fields : List ℕ} (h : Fits shape fields) :
    read shape (write shape fields) = some fields := by
  induction shape generalizing fields with
  | nil =>
    cases fields with
    | nil => rfl
    | cons n fields => cases h
  | cons field shape ih =>
    cases fields with
    | nil => cases h
    | cons n fields =>
      obtain ⟨⟨hpos, hn⟩, hfields⟩ := h
      have hlength := length_digits hpos hn
      have htake : (write (field :: shape) (n :: fields)).take field.1 = digits field.1 n := by
        rw [write, take_append_of_le_length (by omega), take_of_length_le (by omega)]
      have hdrop : (write (field :: shape) (n :: fields)).drop field.1 =
          field.2.toList ++ write shape fields := by
        rw [write, drop_append_of_le_length (by omega), drop_of_length_le (by omega)]
        rfl
      have hrest : (write (field :: shape) (n :: fields)).drop (field.1 + field.2.toList.length) =
          write shape fields := by
        rw [← drop_drop, hdrop, drop_left]
      rw [read, htake, hdrop, hrest, ih hfields, value_digits,
        if_pos ⟨all_eq_true.mpr (all_digits _ _), prefix_append _ _⟩]
      rfl

theorem append_lt_append {a b x y : List Char} (hlength : a.length = b.length) (h : a < b) :
    a ++ x < b ++ y := by
  induction a generalizing b with
  | nil =>
    obtain rfl : b = [] := eq_nil_of_length_eq_zero hlength.symm
    exact absurd h (not_lt_nil [])
  | cons c a ih =>
    cases b with
    | nil => cases hlength
    | cons d b =>
      rw [cons_append, cons_append, cons_lt_cons_iff]
      exact (cons_lt_cons_iff.mp h).imp id fun heq => ⟨heq.1, ih (Nat.succ.inj hlength) heq.2⟩

/-- **Fields in order are texts in order.** -/
theorem write_lt {shape : List (ℕ × String)} {a b : List ℕ} (ha : Fits shape a) (hb : Fits shape b)
    (h : a < b) : write shape a < write shape b := by
  induction shape generalizing a b with
  | nil =>
    cases b with
    | nil => exact absurd h (not_lt_nil a)
    | cons n b => cases hb
  | cons field shape ih =>
    cases a with
    | nil => cases ha
    | cons m a =>
      cases b with
      | nil => cases hb
      | cons n b =>
        obtain ⟨⟨hpos, hm⟩, ha⟩ := ha
        obtain ⟨⟨-, hn⟩, hb⟩ := hb
        rw [write, write]
        rcases cons_lt_cons_iff.mp h with hlt | ⟨rfl, hlt⟩
        · refine append_lt_append ?_ (digits_lt hpos hn hlt)
          rw [length_digits hpos hm, length_digits hpos hn]
        · exact append_left_lt (append_left_lt (ih ha hb hlt))

/-! ### Instants -/

/-- The fields of an instant: its date, and the hour, the minute and the second. -/
def fieldsOf (seconds : ℤ) : List ℕ :=
  let date := Backup.civilFromDays (seconds / 86400)
  let time := (seconds % 86400).toNat
  [date.year.toNat, date.month, date.day, time / 3600, time % 3600 / 60, time % 60]

/-- RFC 3339 in UTC. -/
def rfc3339 : List (ℕ × String) := [(4, "-"), (2, "-"), (2, "T"), (2, ":"), (2, ":"), (2, "Z")]

/-- The format that a signature requires. -/
def compact : List (ℕ × String) := [(4, ""), (2, ""), (2, "T"), (2, ""), (2, ""), (2, "Z")]

/-- A text denotes an instant: its fields are those of a date and of a time of the day, and the instant is
as many seconds from 1970-01-01. -/
def Denotes (shape : List (ℕ × String)) (text : String) (seconds : ℤ) : Prop :=
  ∃ year month day hour minute second : ℕ,
    read shape text.toList = some [year, month, day, hour, minute, second] ∧
      Date.Valid ⟨year, month, day⟩ ∧ hour < 24 ∧ minute < 60 ∧ second < 60 ∧
      seconds = (Date.dayCount ⟨year, month, day⟩ * 24 + hour) * 3600 + minute * 60 + second

/-- An instant from year 0000 to 9999. -/
def InYears (seconds : ℤ) : Prop :=
  0 ≤ (Backup.civilFromDays (seconds / 86400)).year ∧ (Backup.civilFromDays (seconds / 86400)).year ≤ 9999

section Instants

variable {seconds : ℤ} (h : InYears seconds)

include h in
/-- The fields of an instant are in their ranges. -/
theorem fieldsOf_range :
    ∃ year month day hour minute second : ℕ, fieldsOf seconds = [year, month, day, hour, minute, second] ∧
      Backup.civilFromDays (seconds / 86400) = ⟨year, month, day⟩ ∧
      seconds % 86400 = hour * 3600 + minute * 60 + second ∧ year < 10 ^ 4 ∧ month < 10 ^ 2 ∧ day < 10 ^ 2 ∧
      hour < 24 ∧ minute < 60 ∧ second < 60 := by
  have hvalid := (dayCount_civilFromDays (seconds / 86400)).1
  obtain ⟨hlow, hhigh⟩ := h
  rw [fieldsOf]
  generalize Backup.civilFromDays (seconds / 86400) = date at *
  have hday : date.day ≤ 31 := by
    refine hvalid.day_le.trans ?_
    rw [daysInMonth]
    split_ifs <;> omega
  have hmonth := hvalid.month_le
  have hyear : (date.year.toNat : ℤ) = date.year := Int.toNat_of_nonneg hlow
  refine ⟨_, _, _, _, _, _, rfl, ?_, ?_, ?_, ?_, ?_, ?_, ?_, ?_⟩
  · rw [hyear]
  all_goals omega

include h in
theorem fits_rfc3339 : Fits rfc3339 (fieldsOf seconds) := by
  obtain ⟨year, month, day, hour, minute, second, hfields, -, -, hyear, hmonth, hday, hhour, hminute, hsecond⟩ :=
    fieldsOf_range h
  rw [hfields]
  exact ⟨⟨by decide, hyear⟩, ⟨by decide, hmonth⟩, ⟨by decide, hday⟩, ⟨by decide, by omega⟩,
    ⟨by decide, by omega⟩, ⟨by decide, by omega⟩, trivial⟩

include h in
theorem fits_compact : Fits compact (fieldsOf seconds) := fits_rfc3339 h

/-- The texts of the time of a day. -/
theorem zeroPad_time {time : ℤ} (htime : 0 ≤ time) :
    zeroPad 2 (time / 3600) = String.ofList (digits 2 (time.toNat / 3600)) ∧
      zeroPad 2 (time % 3600 / 60) = String.ofList (digits 2 (time.toNat % 3600 / 60)) ∧
      zeroPad 2 (time % 60) = String.ofList (digits 2 (time.toNat % 60)) := by
  obtain ⟨n, rfl⟩ := Int.eq_ofNat_of_zero_le htime
  exact ⟨zeroPad_natCast 2 (n / 3600), zeroPad_natCast 2 (n % 3600 / 60), zeroPad_natCast 2 (n % 60)⟩

include h in
theorem toList_formatRfc3339 : (formatRfc3339 seconds).toList = write rfc3339 (fieldsOf seconds) := by
  have hyear : zeroPad 4 (Backup.civilFromDays (seconds / 86400)).year =
      String.ofList (digits 4 (Backup.civilFromDays (seconds / 86400)).year.toNat) := by
    rw [← zeroPad_natCast, Int.toNat_of_nonneg h.1]
  obtain ⟨hhour, hminute, hsecond⟩ := zeroPad_time (Int.emod_nonneg seconds (by decide : (86400 : ℤ) ≠ 0))
  simp only [formatRfc3339, hyear, hhour, hminute, hsecond, zeroPad_natCast, fieldsOf, rfc3339, write,
    String.toList_append, String.toList_ofList, append_assoc]
  rfl

include h in
theorem toList_formatTimestamp : (formatTimestamp seconds).toList = write compact (fieldsOf seconds) := by
  have hdate : S3.civilFromDays (seconds / 86400) = Backup.civilFromDays (seconds / 86400) := rfl
  have hyear : zeroPad 4 (Backup.civilFromDays (seconds / 86400)).year =
      String.ofList (digits 4 (Backup.civilFromDays (seconds / 86400)).year.toNat) := by
    rw [← zeroPad_natCast, Int.toNat_of_nonneg h.1]
  obtain ⟨hhour, hminute, hsecond⟩ := zeroPad_time (Int.emod_nonneg seconds (by decide : (86400 : ℤ) ≠ 0))
  simp only [formatTimestamp, hdate, hyear, hhour, hminute, hsecond, zeroPad_natCast, fieldsOf, compact, write,
    String.toList_append, String.toList_ofList, append_assoc]
  rfl

include h in
/-- **A text of the fields denotes the instant.** -/
theorem denotes_write {shape : List (ℕ × String)} (hfits : Fits shape (fieldsOf seconds)) {text : String}
    (htext : text.toList = write shape (fieldsOf seconds)) : Denotes shape text seconds := by
  obtain ⟨hvalid, hcount⟩ := dayCount_civilFromDays (seconds / 86400)
  obtain ⟨year, month, day, hour, minute, second, hfields, hdate, htime, -, -, -, hhour, hminute, hsecond⟩ :=
    fieldsOf_range h
  rw [hdate] at hvalid hcount
  refine ⟨year, month, day, hour, minute, second, ?_, hvalid, hhour, hminute, hsecond, ?_⟩
  · rw [htext, read_write hfits, hfields]
  · rw [hcount]
    omega

include h in
/-- **Instants in order have fields in order.** -/
theorem fieldsOf_lt {later : ℤ} (hlater : InYears later) (hlt : seconds < later) :
    fieldsOf seconds < fieldsOf later := by
  obtain ⟨year, month, day, hour, minute, second, hfields, hdate, htime, -, -, -, hhour, hminute, hsecond⟩ :=
    fieldsOf_range h
  obtain ⟨year', month', day', hour', minute', second', hfields', hdate', htime', -, -, -, hhour', hminute',
    hsecond'⟩ := fieldsOf_range hlater
  rw [hfields, hfields']
  simp only [cons_lt_cons_iff, not_lt_nil, and_false, or_false]
  have hle : seconds / 86400 ≤ later / 86400 := by omega
  rcases hle.lt_or_eq with hdays | hdays
  · have hbefore := civilFromDays_before hdays
    rw [hdate, hdate'] at hbefore
    simp only [Date.Before] at hbefore
    omega
  · rw [hdays, hdate', Date.mk.injEq] at hdate
    omega

end Instants

/-- **The timestamps are those of the proleptic Gregorian calendar.** Both copies give each day its date,
which is a bijection onto the dates and keeps their order; the texts of the instants of four-digit years
denote these instants and are in their order. -/
theorem timestamps_are_gregorian :
    (∀ days, S3.civilFromDays days = Backup.civilFromDays days) ∧
    (∀ days, (Backup.civilFromDays days).Valid ∧ (Backup.civilFromDays days).dayCount = days) ∧
    (∀ date : Date, date.Valid → Backup.civilFromDays date.dayCount = date) ∧
    (∀ a b, a < b → (Backup.civilFromDays a).Before (Backup.civilFromDays b)) ∧
    Backup.civilFromDays 0 = ⟨1970, 1, 1⟩ ∧
    (∀ days, Backup.civilFromDays (days + 1) = (Backup.civilFromDays days).next) ∧
    (∀ seconds, InYears seconds → Denotes rfc3339 (formatRfc3339 seconds) seconds ∧
      Denotes compact (formatTimestamp seconds) seconds ∧ (formatTimestamp seconds).toList.length = 16) ∧
    ∀ seconds later, InYears seconds → InYears later → seconds < later →
      formatRfc3339 seconds < formatRfc3339 later ∧ formatTimestamp seconds < formatTimestamp later := by
  refine ⟨fun _ => rfl, dayCount_civilFromDays, fun _ => civilFromDays_dayCount, fun _ _ => civilFromDays_before,
    by decide, civilFromDays_succ, fun seconds h => ?_, fun seconds later h hlater hlt => ?_⟩
  · refine ⟨denotes_write h (fits_rfc3339 h) (toList_formatRfc3339 h),
      denotes_write h (fits_compact h) (toList_formatTimestamp h), ?_⟩
    obtain ⟨year, month, day, hour, minute, second, hfields, -, -, hyear, hmonth, hday, hhour, hminute,
      hsecond⟩ := fieldsOf_range h
    have hfour := length_digits (by decide) hyear
    have htwo {n : ℕ} (hn : n < 10 ^ 2) : (digits 2 n).length = 2 := length_digits (by decide) hn
    rw [toList_formatTimestamp h, hfields]
    simp [compact, write, hfour, htwo hmonth, htwo hday, htwo (by omega : hour < 10 ^ 2),
      htwo (by omega : minute < 10 ^ 2), htwo (by omega : second < 10 ^ 2)]
  · have hfields := fieldsOf_lt h hlater hlt
    rw [String.lt_iff, String.lt_iff, toList_formatRfc3339 h,
      toList_formatRfc3339 hlater, toList_formatTimestamp h, toList_formatTimestamp hlater]
    exact ⟨write_lt (fits_rfc3339 h) (fits_rfc3339 hlater) hfields,
      write_lt (fits_compact h) (fits_compact hlater) hfields⟩

theorem inYears_epoch : InYears 0 ∧ InYears 86399 := by
  constructor <;> constructor <;> decide

/-- The last second of a day. -/
theorem first_day : formatRfc3339 0 < formatRfc3339 86399 ∧ Denotes compact (formatTimestamp 86399) 86399 ∧
    Backup.civilFromDays (Date.dayCount ⟨2000, 2, 29⟩) = ⟨2000, 2, 29⟩ :=
  ⟨(timestamps_are_gregorian.2.2.2.2.2.2.2 0 86399 inYears_epoch.1 inYears_epoch.2 (by decide)).1,
    (timestamps_are_gregorian.2.2.2.2.2.2.1 86399 inYears_epoch.2).2.1,
    timestamps_are_gregorian.2.2.1 ⟨2000, 2, 29⟩ ⟨by decide, by decide, by decide, by decide⟩⟩

end Timestamps

end LazyPock
