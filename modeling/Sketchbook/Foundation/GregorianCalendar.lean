import Sketchbook.Foundation.Blocks

/-!
# The calendar

A `Date` is a day of the Gregorian calendar and a `Moment` a second of such a day with the day of
the week. `next` is the day or the second that follows. `Date.number` counts the days from the
beginning of a year on, in blocks of years and months, and `Moment.seconds` the seconds: both go up
by one with every step (`Date.number_next`, `Moment.seconds_next`).
-/

set_option autoImplicit false
set_option relaxedAutoImplicit false

namespace Sketchbook.Foundation.GregorianCalendar

open Blocks

/-! ### Years and months -/

def isLeap (year : ℕ) : Bool := year % 4 == 0 && (year % 100 != 0 || year % 400 == 0)

/-- The days of a year. -/
def yearLength (year : ℕ) : ℕ := if isLeap year then 366 else 365

/-- The days of a month, which counts from 1. -/
def monthLength (year month : ℕ) : ℕ :=
  match month with
  | 2 => if isLeap year then 29 else 28
  | 4 | 6 | 9 | 11 => 30
  | _ => 31

theorem monthLength_bounds (year month : ℕ) :
    28 ≤ monthLength year month ∧ monthLength year month ≤ 31 := by
  unfold monthLength
  split <;> (try split) <;> decide

theorem yearLength_bounds (year : ℕ) : 365 ≤ yearLength year ∧ yearLength year ≤ 366 := by
  unfold yearLength
  split <;> decide

/-- The months of a year from the first on. -/
abbrev months (year index : ℕ) : ℕ := monthLength year (index + 1)

/-- The years from one on. -/
abbrev years (first index : ℕ) : ℕ := yearLength (first + index)

theorem start_months (year : ℕ) : start (months year) 12 = yearLength year := by
  simp only [start, months, Finset.sum_range_succ, Finset.sum_range_zero, monthLength, yearLength]
  split <;> rfl

/-! ### Days -/

/-- A day of the calendar. -/
@[ext]
structure Date where
  year : ℕ
  month : ℕ
  day : ℕ
  month_pos : 0 < month
  month_le : month ≤ 12
  day_pos : 0 < day
  day_le : day ≤ monthLength year month

theorem january_le : 1 ≤ 12 := by decide

/-- The day that follows. -/
def Date.next (date : Date) : Date :=
  if hday : date.day < monthLength date.year date.month then
    { date with day := date.day + 1, day_pos := Nat.succ_pos _, day_le := hday }
  else if hmonth : date.month < 12 then
    { year := date.year
      month := date.month + 1
      day := 1
      month_pos := Nat.succ_pos _
      month_le := hmonth
      day_pos := Nat.one_pos
      day_le := (monthLength_bounds _ _).1.trans' (by decide) }
  else
    { year := date.year + 1
      month := 1
      day := 1
      month_pos := Nat.one_pos
      month_le := january_le
      day_pos := Nat.one_pos
      day_le := (monthLength_bounds _ _).1.trans' (by decide) }

/-- The number of days from the beginning of a year to a day. -/
def Date.number (first : ℕ) (date : Date) : ℕ :=
  start (years first) (date.year - first) + start (months date.year) (date.month - 1) +
    (date.day - 1)

variable {first : ℕ} {date : Date}

theorem Date.le_next (h : first ≤ date.year) : first ≤ date.next.year := by
  unfold Date.next
  split
  · exact h
  · split
    · exact h
    · exact Nat.le_succ_of_le h

/-- The number goes up by one. -/
theorem Date.number_next (h : first ≤ date.year) :
    date.next.number first = date.number first + 1 := by
  have hday := date.day_pos
  have hdayLe := date.day_le
  have hmonth := date.month_pos
  have hmonthLe := date.month_le
  obtain ⟨previous, hprevious⟩ := Nat.exists_eq_succ_of_ne_zero (Nat.ne_of_gt hmonth)
  unfold Date.next
  split
  · simp only [Date.number]
    omega
  · next hlast =>
    have hend : date.day = months date.year previous := by
      rw [months, ← Nat.succ_eq_add_one, ← hprevious]
      omega
    split
    · simp only [Date.number, Nat.add_sub_cancel, hprevious, Nat.succ_eq_add_one, start_succ]
      omega
    · have hdecember : date.month = 12 := by omega
      have hyear : date.year + 1 - first = date.year - first + 1 := by omega
      have hlength : years first (date.year - first) = yearLength date.year := by
        rw [years, Nat.add_sub_cancel' h]
      have hmonths := start_months date.year
      have hprevious : previous = 11 := by omega
      rw [start_succ, ← hprevious] at hmonths
      have hindex : date.month - 1 = previous := by omega
      simp only [Date.number, hyear, start_succ, hlength, hindex, Nat.sub_self, start_zero]
      omega

/-- The year of a day is the block that its number lies in. -/
theorem Date.located_year (h : first ≤ date.year) :
    Located (years first) (date.number first) (date.year - first)
      (start (months date.year) (date.month - 1) + (date.day - 1)) := by
  refine ⟨Nat.add_assoc _ _ _, ?_⟩
  have hmonth : date.month - 1 + 1 ≤ 12 := by
    have hpos := date.month_pos
    have hle := date.month_le
    omega
  have hbound := start_mono (months date.year) hmonth
  rw [start_months, start_succ] at hbound
  have hday : date.day - 1 < months date.year (date.month - 1) := by
    rw [months, Nat.sub_add_cancel date.month_pos]
    have hpos := date.day_pos
    have hle := date.day_le
    omega
  rw [years, Nat.add_sub_cancel' h]
  omega

/-- The month of a day is the block that its number within the year lies in. -/
theorem Date.located_month (date : Date) :
    Located (months date.year) (start (months date.year) (date.month - 1) + (date.day - 1))
      (date.month - 1) (date.day - 1) := by
  refine ⟨rfl, ?_⟩
  rw [months, Nat.sub_add_cancel date.month_pos]
  have hpos := date.day_pos
  have hle := date.day_le
  omega

/-! ### Seconds -/

/-- A second of a day. The days of the week count from Sunday. -/
@[ext]
structure Moment where
  date : Date
  weekday : ℕ
  hour : ℕ
  minute : ℕ
  second : ℕ
  weekday_lt : weekday < 7
  hour_lt : hour < 24
  minute_lt : minute < 60
  second_lt : second < 60

theorem midnight_hour_lt : 0 < 24 := by decide

theorem midnight_minute_lt : 0 < 60 := by decide

/-- The second that follows. -/
def Moment.next (moment : Moment) : Moment :=
  if hsecond : moment.second + 1 < 60 then
    { moment with second := moment.second + 1, second_lt := hsecond }
  else if hminute : moment.minute + 1 < 60 then
    { moment with
      minute := moment.minute + 1
      second := 0
      minute_lt := hminute
      second_lt := midnight_minute_lt }
  else if hhour : moment.hour + 1 < 24 then
    { moment with
      hour := moment.hour + 1
      minute := 0
      second := 0
      hour_lt := hhour
      minute_lt := midnight_minute_lt
      second_lt := midnight_minute_lt }
  else
    { date := moment.date.next
      weekday := (moment.weekday + 1) % 7
      hour := 0
      minute := 0
      second := 0
      weekday_lt := Nat.mod_lt _ (by decide)
      hour_lt := midnight_hour_lt
      minute_lt := midnight_minute_lt
      second_lt := midnight_minute_lt }

/-- The number of seconds from the beginning of a year to a moment. -/
def Moment.seconds (first : ℕ) (moment : Moment) : ℕ :=
  ((moment.date.number first * 24 + moment.hour) * 60 + moment.minute) * 60 + moment.second

/-- The day of the week fits the day, when the first day of a year has a given one. -/
def Moment.Fits (first weekday : ℕ) (moment : Moment) : Prop :=
  first ≤ moment.date.year ∧ moment.weekday = (moment.date.number first + weekday) % 7

variable {moment : Moment} {weekday : ℕ}

/-- The seconds go up by one, and the days of the week go on with the days. -/
theorem Moment.seconds_next (h : moment.Fits first weekday) :
    moment.next.seconds first = moment.seconds first + 1 ∧ moment.next.Fits first weekday := by
  obtain ⟨hyear, hweekday⟩ := h
  have hsecond := moment.second_lt
  have hminute := moment.minute_lt
  have hhour := moment.hour_lt
  unfold Moment.next
  split
  · exact ⟨rfl, hyear, hweekday⟩
  · split
    · refine ⟨?_, hyear, hweekday⟩
      simp only [Moment.seconds]
      omega
    · split
      · refine ⟨?_, hyear, hweekday⟩
        simp only [Moment.seconds]
        omega
      · refine ⟨?_, Date.le_next hyear, ?_⟩
        · simp only [Moment.seconds, Date.number_next hyear]
          omega
        · rw [Date.number_next hyear]
          dsimp only
          omega

/-- After a number of seconds the clock shows the moment with that number. -/
theorem Moment.seconds_iterate (h : moment.Fits first weekday) (count : ℕ) :
    (Moment.next^[count] moment).seconds first = moment.seconds first + count ∧
      (Moment.next^[count] moment).Fits first weekday := by
  induction count with
  | zero => exact ⟨rfl, h⟩
  | succ count ih =>
    obtain ⟨hseconds, hfits⟩ := Moment.seconds_next ih.2
    rw [Function.iterate_succ_apply', hseconds, ih.1]
    exact ⟨rfl, hfits⟩

end Sketchbook.Foundation.GregorianCalendar
