import Mathlib.Data.Prod.Lex
import Mathlib.Tactic.IntervalCases

/-!
# The proleptic Gregorian calendar

Dates of any year, their order, and how many days lie between a date and 1970-01-01. The count grows by one
from a date to the next, so that it is a bijection between the dates and the integers.

## Main definitions

* `Machine.Calendar.Date`, with `Machine.Calendar.Date.Valid` and `Machine.Calendar.Date.next`.
* `Machine.Calendar.Date.dayCount`: the days from 1970-01-01.

## Main results

* `Machine.Calendar.dayCount_next`: the count of the next date.
* `Machine.Calendar.dayCount_lt`: dates in order have counts in order.
* `Machine.Calendar.dayCount_march`: the count of a date in a year that starts with March.
* `Machine.Calendar.exists_inEra`, `Machine.Calendar.InEra.year_eq`: the years of an era of 400 years.
-/

namespace Machine.Calendar

/-- A year of 366 days. -/
def isLeap (year : ℤ) : Bool := year % 4 = 0 && (year % 100 ≠ 0 || year % 400 = 0)

/-- The length of a month, of which the first is January. -/
def daysInMonth (year : ℤ) (month : ℕ) : ℕ :=
  if month = 2 then if isLeap year then 29 else 28
  else if month = 4 ∨ month = 6 ∨ month = 9 ∨ month = 11 then 30
  else 31

/-- A year, a month and a day. -/
structure Date where
  year : ℤ
  month : ℕ
  day : ℕ
deriving DecidableEq

/-- The days in a year before a month. -/
def daysBeforeMonth (year : ℤ) (month : ℕ) : ℕ :=
  ((List.range (month - 1)).map fun i => daysInMonth year (i + 1)).sum

/-- The days from 0001-01-01 to a year. -/
def daysBeforeYear (year : ℤ) : ℤ := 365 * (year - 1) + (year - 1) / 4 - (year - 1) / 100 + (year - 1) / 400

namespace Date

/-- A date of the calendar. -/
structure Valid (date : Date) : Prop where
  month_pos : 1 ≤ date.month
  month_le : date.month ≤ 12
  day_pos : 1 ≤ date.day
  day_le : date.day ≤ daysInMonth date.year date.month

/-- The days from 1970-01-01 to a date. -/
def dayCount (date : Date) : ℤ :=
  daysBeforeYear date.year + daysBeforeMonth date.year date.month + date.day - 719163

/-- The date after a date. -/
def next (date : Date) : Date :=
  if date.day < daysInMonth date.year date.month then { date with day := date.day + 1 }
  else if date.month < 12 then ⟨date.year, date.month + 1, 1⟩
  else ⟨date.year + 1, 1, 1⟩

/-- The order of dates. -/
def Before (a b : Date) : Prop :=
  a.year < b.year ∨ (a.year = b.year ∧ (a.month < b.month ∨ (a.month = b.month ∧ a.day < b.day)))

theorem eq_or_before (a b : Date) : a = b ∨ Before a b ∨ Before b a := by
  rcases a with ⟨year, month, day⟩
  rcases b with ⟨year', month', day'⟩
  simp only [Before, Date.mk.injEq]
  omega

end Date

/-! ### Years and months -/

theorem daysBeforeYear_succ (year : ℤ) :
    daysBeforeYear (year + 1) = daysBeforeYear year + if isLeap year then 366 else 365 := by
  have hleap : isLeap year = true ↔ year % 4 = 0 ∧ (year % 100 ≠ 0 ∨ year % 400 = 0) := by simp [isLeap]
  rw [daysBeforeYear, daysBeforeYear]
  split_ifs with h
  · rw [hleap] at h
    omega
  · rw [hleap] at h
    omega

theorem daysBeforeMonth_succ (year : ℤ) {month : ℕ} (h : 1 ≤ month) :
    daysBeforeMonth year (month + 1) = daysBeforeMonth year month + daysInMonth year month := by
  obtain ⟨month, rfl⟩ := Nat.exists_eq_add_of_le' h
  rw [daysBeforeMonth, daysBeforeMonth, Nat.add_sub_cancel, Nat.add_sub_cancel, List.range_succ]
  simp

theorem daysBeforeMonth_le (year : ℤ) {a b : ℕ} (ha : 1 ≤ a) (h : a ≤ b) :
    daysBeforeMonth year a ≤ daysBeforeMonth year b := by
  induction b, h using Nat.le_induction with
  | base => exact Nat.le_refl _
  | succ b hab ih =>
    rw [daysBeforeMonth_succ year (ha.trans hab)]
    omega

theorem daysBeforeMonth_year (year : ℤ) :
    daysBeforeMonth year 13 = if isLeap year then 366 else 365 := by
  cases h : isLeap year <;> simp [daysBeforeMonth, daysInMonth, List.range_succ, h]

theorem daysBeforeYear_le {a b : ℤ} (h : a ≤ b) : daysBeforeYear a ≤ daysBeforeYear b := by
  rw [daysBeforeYear, daysBeforeYear]
  omega

theorem daysInMonth_pos (year : ℤ) (month : ℕ) : 0 < daysInMonth year month := by
  rw [daysInMonth]
  split_ifs <;> omega

/-! ### Days -/

/-- **The count of the next date.** -/
theorem dayCount_next {date : Date} (h : date.Valid) : date.next.dayCount = date.dayCount + 1 := by
  have hmonth := daysBeforeMonth_succ date.year h.month_pos
  have hday := h.day_le
  rw [Date.next]
  split_ifs with hinside hyear
  · simp only [Date.dayCount]
    omega
  · simp only [Date.dayCount, hmonth]
    omega
  · have hlast : date.month = 12 := Nat.le_antisymm h.month_le (Nat.not_lt.mp hyear)
    have hwhole := daysBeforeMonth_year date.year
    have hfirst : daysBeforeMonth (date.year + 1) 1 = 0 := rfl
    have hdecember : daysBeforeMonth date.year 13 =
        daysBeforeMonth date.year 12 + daysInMonth date.year 12 := daysBeforeMonth_succ date.year (by decide)
    rw [hlast] at hday hinside
    simp only [Date.dayCount, daysBeforeYear_succ, hfirst, hlast]
    split_ifs at hwhole ⊢ <;> omega

theorem next_valid {date : Date} (h : date.Valid) : date.next.Valid := by
  rw [Date.next]
  split_ifs with hinside hyear
  · exact ⟨h.month_pos, h.month_le, Nat.succ_pos _, hinside⟩
  · exact ⟨Nat.succ_pos _, hyear, Nat.le_refl 1, daysInMonth_pos _ _⟩
  · exact ⟨Nat.le_refl 1, by simp, Nat.le_refl 1, daysInMonth_pos _ _⟩

/-- **Dates in order have counts in order.** -/
theorem dayCount_lt {a b : Date} (ha : a.Valid) (hb : b.Valid) (h : a.Before b) : a.dayCount < b.dayCount := by
  have hmonth := daysBeforeMonth_succ a.year ha.month_pos
  have hday := ha.day_le
  have hpos := hb.day_pos
  rcases h with hyear | ⟨hyear, hmonths | ⟨hmonths, hdays⟩⟩
  · have hend : daysBeforeMonth a.year (a.month + 1) ≤ daysBeforeMonth a.year 13 :=
      daysBeforeMonth_le a.year (Nat.le_add_left 1 a.month) (Nat.succ_le_succ ha.month_le)
    have hwhole := daysBeforeMonth_year a.year
    have hnext := daysBeforeYear_succ a.year
    have hyears := daysBeforeYear_le (Int.add_one_le_of_lt hyear)
    rw [Date.dayCount, Date.dayCount]
    split_ifs at hwhole hnext <;> omega
  · have hend := daysBeforeMonth_le a.year (Nat.le_add_left 1 a.month) hmonths
    rw [Date.dayCount, Date.dayCount, ← hyear]
    omega
  · rw [Date.dayCount, Date.dayCount, ← hyear, ← hmonths]
    omega

theorem before_of_dayCount {a b : Date} (ha : a.Valid) (hb : b.Valid) (h : a.dayCount < b.dayCount) :
    a.Before b := by
  rcases a.eq_or_before b with rfl | hbefore | hafter
  · exact absurd h (lt_irrefl _)
  · exact hbefore
  · exact absurd (dayCount_lt hb ha hafter) (not_lt_of_gt h)

/-- A date is known by its count. -/
theorem eq_of_dayCount {a b : Date} (ha : a.Valid) (hb : b.Valid) (h : a.dayCount = b.dayCount) : a = b := by
  rcases a.eq_or_before b with heq | hbefore | hafter
  · exact heq
  · exact absurd h (dayCount_lt ha hb hbefore).ne
  · exact absurd h (dayCount_lt hb ha hafter).ne'

/-! ### Years that start with March -/

/-- The date of a day in a year that starts with March: which month it is in, and which day of it. -/
def ofMarch (year : ℤ) (dayOfYear : ℤ) : Date :=
  let month := (5 * dayOfYear + 2) / 153
  ⟨if month < 10 then year else year + 1, (if month < 10 then month + 3 else month - 9).toNat,
    (dayOfYear - (153 * month + 2) / 5 + 1).toNat⟩

/-- The months from March on, counted from the end of the year. -/
theorem daysBeforeMonth_march (year : ℤ) {month : ℕ} (h : month ≤ 10) :
    (daysBeforeMonth year (month + 3) : ℤ) =
      daysBeforeMonth year 13 - 306 + (153 * (month : ℤ) + 2) / 5 := by
  interval_cases month <;> cases h : isLeap year <;>
    simp [daysBeforeMonth, daysInMonth, List.range_succ, h]

/-- **The count of a date in a year that starts with March**, of which only the last day depends on the
year. -/
theorem dayCount_march {year dayOfYear : ℤ} (hpos : 0 ≤ dayOfYear)
    (hlast : dayOfYear ≤ 364 ∨ (dayOfYear = 365 ∧ isLeap (year + 1) = true)) :
    (ofMarch year dayOfYear).Valid ∧
      (ofMarch year dayOfYear).dayCount = daysBeforeYear (year + 1) + dayOfYear - 719468 := by
  have hyear : daysBeforeYear (year + 1) = daysBeforeYear year + daysBeforeMonth year 13 := by
    rw [daysBeforeYear_succ, daysBeforeMonth_year]
    split_ifs <;> rfl
  obtain ⟨month, hmonth⟩ : ∃ month : ℕ, (5 * dayOfYear + 2) / 153 = month :=
    ⟨((5 * dayOfYear + 2) / 153).toNat, (Int.toNat_of_nonneg (by omega)).symm⟩
  obtain ⟨day, hday⟩ : ∃ day : ℕ, dayOfYear - (153 * (month : ℤ) + 2) / 5 + 1 = day :=
    ⟨(dayOfYear - (153 * (month : ℤ) + 2) / 5 + 1).toNat, (Int.toNat_of_nonneg (by omega)).symm⟩
  rw [ofMarch, hmonth, hday, Int.toNat_natCast]
  by_cases hearly : (month : ℤ) < 10
  · have hthis := @daysBeforeMonth_march year month (by omega)
    have hnext := @daysBeforeMonth_march year (month + 1) (by omega)
    rw [Nat.add_right_comm, daysBeforeMonth_succ year (by omega)] at hnext
    have hname : ((month : ℤ) + 3).toNat = month + 3 := by omega
    rw [if_pos hearly, if_pos hearly, hname]
    refine ⟨⟨by simp, by simp; omega, by simp; omega, ?_⟩, ?_⟩
    · simp only
      push_cast at hnext
      omega
    · simp only [Date.dayCount]
      omega
  · rw [if_neg hearly, if_neg hearly]
    have hjanuary : daysBeforeMonth (year + 1) 1 = 0 := rfl
    have hfebruary : daysBeforeMonth (year + 1) 2 = 31 := rfl
    have hlengths : daysInMonth (year + 1) 1 = 31 ∧
        daysInMonth (year + 1) 2 = if isLeap (year + 1) then 29 else 28 := ⟨rfl, rfl⟩
    obtain rfl | rfl : month = 10 ∨ month = 11 := by omega
    · have hname : (((10 : ℕ) : ℤ) - 9).toNat = 1 := rfl
      rw [hname]
      refine ⟨⟨by simp, by simp, by simp; omega, ?_⟩, ?_⟩
      · simp only [hlengths.1]
        omega
      · simp only [Date.dayCount, hjanuary]
        omega
    · have hname : (((11 : ℕ) : ℤ) - 9).toNat = 2 := rfl
      rw [hname]
      refine ⟨⟨by simp, by simp, by simp; omega, ?_⟩, ?_⟩
      · simp only [hlengths.2]
        rcases hlast with hlast | ⟨hlast, hleap⟩
        · split_ifs <;> omega
        · rw [if_pos hleap]
          omega
      · simp only [Date.dayCount, hfebruary]
        omega

/-! ### Eras -/

/-- A day of an era of 400 years that start with March: its century, its four years, the year of these and
the day of the year. -/
structure InEra (dayOfEra century quad year dayOfYear : ℤ) : Prop where
  century_range : 0 ≤ century ∧ century ≤ 3
  quad_range : 0 ≤ quad ∧ quad ≤ 24
  year_range : 0 ≤ year ∧ year ≤ 3
  day_nonneg : 0 ≤ dayOfYear
  /-- Only a year before a leap day is longer. -/
  day_le : dayOfYear ≤ 364 ∨ (dayOfYear = 365 ∧ year = 3 ∧ (quad ≤ 23 ∨ century = 3))
  eq : dayOfEra = 36524 * century + 1461 * quad + 365 * year + dayOfYear

/-- **Every day of an era is in one of its years.** -/
theorem exists_inEra {n : ℤ} (hpos : 0 ≤ n) (hlt : n < 146097) :
    ∃ century quad year dayOfYear, InEra n century quad year dayOfYear := by
  obtain ⟨century, hcentury, hcenturyRange⟩ : ∃ century, century = min (n / 36524) 3 ∧
      0 ≤ century ∧ century ≤ 3 := ⟨_, rfl, by omega, by omega⟩
  obtain ⟨rest, hrest⟩ : ∃ rest, rest = n - 36524 * century := ⟨_, rfl⟩
  have hrestRange : 0 ≤ rest ∧ rest ≤ 36524 ∧ (rest = 36524 → century = 3) := by omega
  obtain ⟨quad, hquad, hquadRange⟩ : ∃ quad, quad = rest / 1461 ∧ 0 ≤ quad ∧ quad ≤ 24 :=
    ⟨_, rfl, by omega, by omega⟩
  obtain ⟨days, hdays⟩ : ∃ days, days = rest - 1461 * quad := ⟨_, rfl⟩
  have hdaysRange : 0 ≤ days ∧ days ≤ 1460 := by omega
  obtain ⟨year, hyear, hyearRange⟩ : ∃ year, year = min (days / 365) 3 ∧ 0 ≤ year ∧ year ≤ 3 :=
    ⟨_, rfl, by omega, by omega⟩
  refine ⟨century, quad, year, days - 365 * year, hcenturyRange, hquadRange, hyearRange, ?_, ?_, ?_⟩
  · omega
  · omega
  · omega

section InEra

variable {n century quad year dayOfYear era : ℤ} (h : InEra n century quad year dayOfYear)

include h in
/-- The years of an era before a day, as quotients of the day. -/
theorem InEra.year_eq :
    (n - n / 1460 + n / 36524 - n / 146096) / 365 = 100 * century + 4 * quad + year := by
  obtain ⟨⟨hc, hc'⟩, ⟨hq, hq'⟩, ⟨hy, hy'⟩, hpos, hday, hn⟩ := h
  -- The last day of an era is in a fifth century and in a second era by the quotients alone.
  have hcenturies : n / 36524 - n / 146096 = century := by
    have hinside : 1461 * quad + 365 * year + dayOfYear ≤ 36523 ∨
        (century = 3 ∧ 1461 * quad + 365 * year + dayOfYear = 36524) := by
      rcases hday with hday | ⟨hday, rfl, hquad | hcentury⟩ <;> omega
    rcases hinside with hinside | ⟨rfl, hinside⟩
    · have hfirst : n / 36524 = century := by omega
      have hera : n / 146096 = 0 := by omega
      rw [hfirst, hera, Int.sub_zero]
    · obtain rfl : n = 146096 := by omega
      rfl
  obtain ⟨early, hquads, hearly⟩ : ∃ early, n / 1460 = 25 * century + quad + early ∧
      (early = 0 ∧ 24 * century + quad + (365 * year + dayOfYear) < 1460 ∨
        early = 1 ∧ 1460 ≤ 24 * century + quad + (365 * year + dayOfYear)) :=
    ⟨n / 1460 - (25 * century + quad), by omega, by omega⟩
  have hsum : n - n / 1460 + n / 36524 - n / 146096 =
      365 * (100 * century + 4 * quad + year) + (dayOfYear - early) := by omega
  rw [hsum]
  omega

include h in
/-- The days of an era before the year of a day. -/
theorem InEra.days_eq :
    n - (365 * (100 * century + 4 * quad + year) + (100 * century + 4 * quad + year) / 4 -
      (100 * century + 4 * quad + year) / 100) = dayOfYear := by
  obtain ⟨⟨hc, hc'⟩, ⟨hq, hq'⟩, ⟨hy, hy'⟩, hpos, hday, hn⟩ := h
  have hquads : (100 * century + 4 * quad + year) / 4 = 25 * century + quad := by omega
  have hcenturies : (100 * century + 4 * quad + year) / 100 = century := by omega
  rw [hquads, hcenturies]
  omega

include h in
/-- The day before March is a leap day. -/
theorem InEra.leap (hday : dayOfYear = 365) : isLeap (100 * century + 4 * quad + year + era * 400 + 1) = true := by
  obtain ⟨⟨hc, hc'⟩, ⟨hq, hq'⟩, ⟨hy, hy'⟩, hpos, hdays, hn⟩ := h
  simp only [isLeap, Bool.and_eq_true, Bool.or_eq_true, decide_eq_true_eq]
  omega

include h in
/-- The days before the year of a day. -/
theorem InEra.daysBeforeYear_eq :
    daysBeforeYear (100 * century + 4 * quad + year + era * 400 + 1) + dayOfYear = era * 146097 + n := by
  obtain ⟨⟨hc, hc'⟩, ⟨hq, hq'⟩, ⟨hy, hy'⟩, hpos, hdays, hn⟩ := h
  have hquads : (100 * century + 4 * quad + year + era * 400) / 4 = 25 * century + quad + 100 * era := by
    omega
  have hcenturies : (100 * century + 4 * quad + year + era * 400) / 100 = century + 4 * era := by omega
  have heras : (100 * century + 4 * quad + year + era * 400) / 400 = era := by omega
  rw [daysBeforeYear, Int.add_sub_cancel, hquads, hcenturies, heras]
  omega

end InEra

end Machine.Calendar
