import Mathlib.Tactic.IntervalCases
import Mathlib.Tactic.Ring
import Sketchbook.Foundation.GregorianCalendar

/-!
# Breaking time and making time

The Time library counts seconds from 1970 in 32 bits. `breakTime` turns such a number into the
elements of a date and a time of the day, and `makeTime` turns elements into a number. Both walk
over the years and the months, one down from the number of days and one up to the number of
seconds.

The numbers are the seconds of the calendar: `breakTime` gives the elements that a clock shows which
started in 1970 (`breakTime_clock`), `makeTime` takes them back (`makeTime_breakTime`), and elements
of a moment before 2106 come back from the number that is made of them (`breakTime_makeTime`).
-/

set_option autoImplicit false
set_option relaxedAutoImplicit false

namespace Sketchbook.TimeLibrary.TimeElements

open Foundation.Blocks Foundation.GregorianCalendar

/-! ### The functions of the library -/

/-- `tmElements_t`. The year counts from 1970, and Sunday is day 1. -/
structure TmElements where
  second : BitVec 8
  minute : BitVec 8
  hour : BitVec 8
  wday : BitVec 8
  day : BitVec 8
  month : BitVec 8
  year : BitVec 8
deriving DecidableEq

/-- `LEAP_YEAR`. -/
def leapYear (year : ℕ) : Bool :=
  decide (1970 + year > 0) && (1970 + year) % 4 == 0 &&
    ((1970 + year) % 100 != 0 || (1970 + year) % 400 == 0)

/-- `monthDays`. -/
def monthDays : List ℕ := [31, 28, 31, 30, 31, 30, 31, 31, 30, 31, 30, 31]

def secsPerMin : BitVec 32 := 60

def secsPerHour : BitVec 32 := 3600

def secsPerDay : BitVec 32 := secsPerHour * 24

/-- The days that a turn of the first loop of `breakTime` adds. -/
def daysOfYear (year : BitVec 8) : BitVec 32 := if leapYear year.toNat then 366 else 365

/-- The first loop of `breakTime`, `none` while it is still running: `year` and `days`. The sum is
cut to the width of `unsigned` before it is compared. -/
def yearLoop (unsignedWidth : ℕ) (time : BitVec 32) :
    ℕ → BitVec 8 → BitVec 32 → Option (BitVec 8 × BitVec 32)
  | 0, _, _ => none
  | turns + 1, year, days =>
    let days := days + daysOfYear year
    if (days.setWidth unsignedWidth).toNat ≤ time.toNat then
      yearLoop unsignedWidth time turns (year + 1) days
    else some (year, days)

/-- `monthLength` in `breakTime`, for months that count from 0. -/
def lengthOfMonth (year : BitVec 8) (month : ℕ) : ℕ :=
  if month = 1 then
    if leapYear year.toNat then 29 else 28
  else monthDays.getD month 0

/-- The second loop of `breakTime`, with a number of turns to go: `month` and `time`. -/
def monthLoop (year : BitVec 8) : ℕ → ℕ → BitVec 32 → ℕ × BitVec 32
  | 0, month, time => (month, time)
  | turns + 1, month, time =>
    if lengthOfMonth year month ≤ time.toNat then
      monthLoop year turns (month + 1) (time - BitVec.ofNat 32 (lengthOfMonth year month))
    else (month, time)

/-- `breakTime`, when its first loop ends within a number of turns. -/
def breakTime (unsignedWidth turns : ℕ) (timeInput : BitVec 32) : Option TmElements :=
  let minutes := timeInput / 60
  let hours := minutes / 60
  let time := hours / 24
  (yearLoop unsignedWidth time turns 0 0).map fun result ↦
    let time := time - (result.2 - daysOfYear result.1)
    let month := monthLoop result.1 12 0 time
    { second := (timeInput % 60).setWidth 8
      minute := (minutes % 60).setWidth 8
      hour := (hours % 24).setWidth 8
      wday := ((hours / 24 + 4) % 7 + 1).setWidth 8
      day := (month.2 + 1).setWidth 8
      month := BitVec.ofNat 8 month.1 + 1
      year := result.1 }

/-- The loop of `makeTime` over the years. -/
def addLeapDays (year : BitVec 8) (seconds : BitVec 32) : BitVec 32 :=
  (List.range year.toNat).foldl (fun seconds i ↦
    if leapYear i then seconds + secsPerDay else seconds) seconds

/-- The loop of `makeTime` over the months. -/
def addMonths (year month : BitVec 8) (seconds : BitVec 32) : BitVec 32 :=
  (List.range' 1 (month.toNat - 1)).foldl (fun seconds i ↦
    if i = 2 ∧ leapYear year.toNat then seconds + secsPerDay * 29
    else seconds + secsPerDay * BitVec.ofNat 32 (monthDays.getD (i - 1) 0)) seconds

/-- `makeTime`. -/
def makeTime (tm : TmElements) : BitVec 32 :=
  let seconds := tm.year.setWidth 32 * (secsPerDay * 365)
  let seconds := addMonths tm.year tm.month (addLeapDays tm.year seconds)
  let seconds := seconds + (tm.day.setWidth 32 - 1) * secsPerDay
  let seconds := seconds + tm.hour.setWidth 32 * secsPerHour
  let seconds := seconds + tm.minute.setWidth 32 * secsPerMin
  seconds + tm.second.setWidth 32

/-! ### The loops and the calendar -/

theorem leapYear_eq (year : ℕ) : leapYear year = isLeap (1970 + year) := by
  rw [leapYear, decide_eq_true (Nat.add_pos_left (by decide) year), Bool.true_and, isLeap]

theorem toNat_daysOfYear (year : BitVec 8) : (daysOfYear year).toNat = years 1970 year.toNat := by
  rw [daysOfYear, leapYear_eq, years, yearLength]
  split <;> rfl

theorem lengthOfMonth_eq (year : BitVec 8) {month : ℕ} (hmonth : month < 12) :
    lengthOfMonth year month = months (1970 + year.toNat) month := by
  rw [lengthOfMonth, leapYear_eq]
  interval_cases month <;> rfl

theorem le_start_years (first count : ℕ) : 365 * count ≤ start (years first) count := by
  induction count with
  | zero => exact Nat.zero_le _
  | succ count ih =>
    have hlength : 365 ≤ years first count := (yearLength_bounds (first + count)).1
    rw [start_succ]
    omega

/-- The days up to the end of a year that begins before a day of 32 bits of seconds. -/
theorem start_years_succ_lt {days year left : ℕ} (h : Located (years 1970) days year left)
    (hdays : days < 49711) : year < 137 ∧ start (years 1970) (year + 1) < 2 ^ 16 := by
  have hlower := (le_start_years 1970 year).trans h.start_le
  have hlength : years 1970 year ≤ 366 := (yearLength_bounds (1970 + year)).2
  have hstart := h.start_le
  rw [start_succ]
  omega

/-- A turn of the first loop adds the length of its year. -/
theorem ofNat_start_succ {year : ℕ} (hyear : year < 256) :
    BitVec.ofNat 32 (start (years 1970) (year + 1)) =
      BitVec.ofNat 32 (start (years 1970) year) + daysOfYear (BitVec.ofNat 8 year) := by
  have hdays := toNat_daysOfYear (BitVec.ofNat 8 year)
  rw [BitVec.toNat_ofNat, Nat.mod_eq_of_lt hyear] at hdays
  rw [start_succ, ← hdays, BitVec.ofNat_add, BitVec.ofNat_toNat, BitVec.setWidth_eq]

/-- The first loop ends at the year of the day. -/
theorem yearLoop_eq {unsignedWidth : ℕ} (hwidth : 16 ≤ unsignedWidth) {time : BitVec 32}
    {year left : ℕ} (h : Located (years 1970) time.toNat year left) (htime : time.toNat < 49711)
    {turns first : ℕ} (hfirst : first ≤ year) (hturns : year < first + turns) :
    yearLoop unsignedWidth time turns (BitVec.ofNat 8 first)
        (BitVec.ofNat 32 (start (years 1970) first)) =
      some (BitVec.ofNat 8 year, BitVec.ofNat 32 (start (years 1970) (year + 1))) := by
  obtain ⟨hyear, hend⟩ := start_years_succ_lt h htime
  induction turns generalizing first with
  | zero => exact absurd hfirst (Nat.not_le.mpr hturns)
  | succ turns ih =>
    have hle : start (years 1970) (first + 1) < 2 ^ 16 :=
      (start_mono (years 1970) (Nat.succ_le_succ hfirst)).trans_lt hend
    have hcut : ((BitVec.ofNat 32 (start (years 1970) (first + 1))).setWidth unsignedWidth).toNat =
        start (years 1970) (first + 1) := by
      have hpow : 2 ^ 16 ≤ 2 ^ unsignedWidth := Nat.pow_le_pow_right (by decide) hwidth
      rw [BitVec.toNat_setWidth, BitVec.toNat_ofNat, Nat.mod_eq_of_lt (by omega),
        Nat.mod_eq_of_lt (by omega)]
    rw [yearLoop, ← ofNat_start_succ (by omega), hcut]
    rcases Nat.eq_or_lt_of_le hfirst with rfl | hlt
    · rw [if_neg (Nat.not_le.mpr h.lt_start_succ)]
    · have hnext : BitVec.ofNat 8 first + 1 = BitVec.ofNat 8 (first + 1) :=
        (BitVec.ofNat_add first 1).symm
      rw [if_pos (h.start_succ_le hlt), hnext]
      exact ih hlt (by omega)

/-- The second loop skips months. -/
theorem monthLoop_eq (year : BitVec 8) {turns month : ℕ} (hturns : month + turns ≤ 12)
    (time : BitVec 32) :
    monthLoop year turns month time =
      ((skip (months (1970 + year.toNat)) turns month time.toNat).1,
        BitVec.ofNat 32 (skip (months (1970 + year.toNat)) turns month time.toNat).2) := by
  induction turns generalizing month time with
  | zero => rw [monthLoop, skip, BitVec.ofNat_toNat, BitVec.setWidth_eq]
  | succ turns ih =>
    have hlength := lengthOfMonth_eq year (show month < 12 by omega)
    have hbound := (monthLength_bounds (1970 + year.toNat) (month + 1)).2
    rw [monthLoop, skip, hlength]
    split
    · next hle =>
      have hleft : (time - BitVec.ofNat 32 (months (1970 + year.toNat) month)).toNat =
          time.toNat - months (1970 + year.toNat) month := by
        have hsmall : (BitVec.ofNat 32 (months (1970 + year.toNat) month)).toNat =
            months (1970 + year.toNat) month := by
          rw [BitVec.toNat_ofNat, Nat.mod_eq_of_lt (by omega)]
        rw [BitVec.toNat_sub_of_le (by rw [BitVec.le_def, hsmall]; exact hle), hsmall]
      rw [ih (by omega), hleft]
    · rw [BitVec.ofNat_toNat, BitVec.setWidth_eq]

/-- A loop that adds amounts adds their sum. -/
theorem foldl_add (amount : ℕ → ℕ) {items : List ℕ} {step : BitVec 32 → ℕ → BitVec 32}
    (hstep : ∀ i ∈ items, ∀ seconds, step seconds i = seconds + BitVec.ofNat 32 (amount i))
    (seconds : BitVec 32) :
    items.foldl step seconds = seconds + BitVec.ofNat 32 (items.map amount).sum := by
  induction items generalizing seconds with
  | nil => exact (BitVec.add_zero seconds).symm
  | cons i rest ih =>
    obtain ⟨hfirst, hrest⟩ := List.forall_mem_cons.mp hstep
    rw [List.foldl_cons, ih hrest, hfirst, List.map_cons, List.sum_cons, BitVec.ofNat_add,
      BitVec.add_assoc]

/-- The seconds that the loop over the years adds for a year. -/
def leapSeconds (year : ℕ) : ℕ := if leapYear year then 86400 else 0

theorem start_leapSeconds (count : ℕ) :
    count * 31536000 + start leapSeconds count = start (years 1970) count * 86400 := by
  induction count with
  | zero => rw [start_zero, start_zero, Nat.zero_mul]
  | succ count ih =>
    have hlength : 31536000 + leapSeconds count = years 1970 count * 86400 := by
      rw [leapSeconds, leapYear_eq, years, yearLength]
      split <;> rfl
    rw [start_succ, start_succ, Nat.add_mul _ (years 1970 count), ← ih, ← hlength]
    ring

/-- The loop over the years adds the days that leap years have more. -/
theorem addLeapDays_eq (year : BitVec 8) :
    addLeapDays year (year.setWidth 32 * (secsPerDay * 365)) =
      BitVec.ofNat 32 (start (years 1970) year.toNat * 86400) := by
  have hfirst : year.setWidth 32 * (secsPerDay * 365) =
      BitVec.ofNat 32 (year.toNat * 31536000) := by
    rw [BitVec.ofNat_mul, BitVec.ofNat_toNat]
    rfl
  rw [addLeapDays, foldl_add leapSeconds, sum_map_range, hfirst, ← BitVec.ofNat_add,
    start_leapSeconds]
  intro i _ seconds
  rw [leapSeconds]
  split
  · rfl
  · exact (BitVec.add_zero seconds).symm

/-- The seconds that the loop over the months adds for a month. -/
def monthSeconds (year month : ℕ) : ℕ := months year (month - 1) * 86400

theorem sum_monthSeconds (year count : ℕ) :
    ((List.range' 1 count).map (monthSeconds year)).sum = start (months year) count * 86400 := by
  induction count with
  | zero => rw [start_zero, Nat.zero_mul, List.range'_zero, List.map_nil, List.sum_nil]
  | succ count ih =>
    rw [List.range'_1_concat, List.map_append, List.sum_append, ih, start_succ, Nat.add_mul,
      List.map_singleton, List.sum_singleton, monthSeconds, Nat.add_sub_cancel_left]

/-- The loop over the months adds their days. -/
theorem addMonths_eq {year month : BitVec 8} (hmonth : month.toNat ≤ 13) (seconds : BitVec 32) :
    addMonths year month seconds = seconds +
      BitVec.ofNat 32 (start (months (1970 + year.toNat)) (month.toNat - 1) * 86400) := by
  rw [addMonths, foldl_add (monthSeconds (1970 + year.toNat)), sum_monthSeconds]
  intro i hi seconds
  have hrange := List.mem_range'_1.mp hi
  have hlength := lengthOfMonth_eq year (show i - 1 < 12 by omega)
  have hday : secsPerDay = BitVec.ofNat 32 86400 := rfl
  rw [monthSeconds, ← hlength, lengthOfMonth, BitVec.ofNat_mul, BitVec.mul_comm, hday]
  by_cases hfebruary : i = 2
  · rw [if_pos (congrArg (· - 1) hfebruary)]
    by_cases hleap : leapYear year.toNat = true
    · rw [if_pos ⟨hfebruary, hleap⟩, if_pos hleap]
      rfl
    · rw [if_neg fun h ↦ hleap h.2, if_neg hleap, hfebruary]
      rfl
  · rw [if_neg fun h ↦ hfebruary h.1, if_neg (by omega), BitVec.mul_comm]

/-! ### Elements and moments -/

/-- Elements of a date and a time of the day. The day of the week is left open. -/
structure TmElements.Valid (tm : TmElements) : Prop where
  second_lt : tm.second.toNat < 60
  minute_lt : tm.minute.toNat < 60
  hour_lt : tm.hour.toNat < 24
  month_pos : 0 < tm.month.toNat
  month_le : tm.month.toNat ≤ 12
  day_pos : 0 < tm.day.toNat
  day_le : tm.day.toNat ≤ monthLength (1970 + tm.year.toNat) tm.month.toNat

/-- The days from 1970 to the date of elements. -/
def TmElements.number (tm : TmElements) : ℕ :=
  start (years 1970) tm.year.toNat + start (months (1970 + tm.year.toNat)) (tm.month.toNat - 1) +
    (tm.day.toNat - 1)

/-- The seconds from 1970 to elements. -/
def TmElements.total (tm : TmElements) : ℕ :=
  ((tm.number * 24 + tm.hour.toNat) * 60 + tm.minute.toNat) * 60 + tm.second.toNat

/-- The elements that a clock shows at a moment. -/
def elementsOf (moment : Moment) : TmElements where
  second := BitVec.ofNat 8 moment.second
  minute := BitVec.ofNat 8 moment.minute
  hour := BitVec.ofNat 8 moment.hour
  wday := BitVec.ofNat 8 (moment.weekday + 1)
  day := BitVec.ofNat 8 moment.date.day
  month := BitVec.ofNat 8 moment.date.month
  year := BitVec.ofNat 8 (moment.date.year - 1970)

/-- The day of the week of elements, Sunday being 0. -/
def TmElements.weekday (tm : TmElements) : ℕ := (tm.number + 4) % 7

variable {tm : TmElements} {moment : Moment}

/-- `makeTime` counts the seconds from 1970. -/
theorem makeTime_eq (h : tm.Valid) : makeTime tm = BitVec.ofNat 32 tm.total := by
  have hday : tm.day.setWidth 32 - 1 = BitVec.ofNat 32 (tm.day.toNat - 1) := by
    rw [← BitVec.ofNat_toNat]
    exact BitVec.ofNat_sub_ofNat_of_le tm.day.toNat 1 (by decide) h.day_pos
  have hunits (amount : BitVec 8) (unit : ℕ) : amount.setWidth 32 * BitVec.ofNat 32 unit =
      BitVec.ofNat 32 (amount.toNat * unit) := by
    rw [← BitVec.ofNat_toNat, BitVec.ofNat_mul]
  have htotal : tm.total = start (years 1970) tm.year.toNat * 86400 +
      start (months (1970 + tm.year.toNat)) (tm.month.toNat - 1) * 86400 +
        (tm.day.toNat - 1) * 86400 + tm.hour.toNat * 3600 + tm.minute.toNat * 60 +
          tm.second.toNat := by
    rw [TmElements.total, TmElements.number]
    ring
  have hsecsPerDay : secsPerDay = BitVec.ofNat 32 86400 := rfl
  rw [makeTime, addLeapDays_eq, addMonths_eq (h.month_le.trans (by decide)), hday, htotal,
    BitVec.ofNat_add, BitVec.ofNat_add, BitVec.ofNat_add, BitVec.ofNat_add, BitVec.ofNat_add,
    ← hunits tm.hour, ← hunits tm.minute, BitVec.ofNat_mul (tm.day.toNat - 1), hsecsPerDay,
    ← BitVec.ofNat_toNat 32 tm.second]
  rfl

/-- Valid elements are those of a moment, up to the day of the week. -/
theorem TmElements.Valid.exists_moment (h : tm.Valid) :
    ∃ moment : Moment, moment.Fits 1970 4 ∧ moment.seconds 1970 = tm.total ∧
      elementsOf moment = { tm with wday := BitVec.ofNat 8 (tm.weekday + 1) } := by
  have hnumber : (⟨1970 + tm.year.toNat, tm.month.toNat, tm.day.toNat, h.month_pos, h.month_le,
      h.day_pos, h.day_le⟩ : Date).number 1970 = tm.number := by
    rw [Date.number, TmElements.number, Nat.add_sub_cancel_left]
  refine ⟨{
    date := ⟨1970 + tm.year.toNat, tm.month.toNat, tm.day.toNat, h.month_pos, h.month_le,
      h.day_pos, h.day_le⟩
    weekday := tm.weekday
    hour := tm.hour.toNat
    minute := tm.minute.toNat
    second := tm.second.toNat
    weekday_lt := Nat.mod_lt _ (by decide)
    hour_lt := h.hour_lt
    minute_lt := h.minute_lt
    second_lt := h.second_lt }, ⟨Nat.le_add_right _ _, ?_⟩, ?_, ?_⟩
  · rw [hnumber]
    rfl
  · rw [Moment.seconds, hnumber]
    rfl
  · simp only [elementsOf, Nat.add_sub_cancel_left, BitVec.ofNat_toNat, BitVec.setWidth_eq]

/-- Elements that have the numbers of a moment. -/
structure Shows (tm : TmElements) (moment : Moment) : Prop where
  second : tm.second.toNat = moment.second
  minute : tm.minute.toNat = moment.minute
  hour : tm.hour.toNat = moment.hour
  day : tm.day.toNat = moment.date.day
  month : tm.month.toNat = moment.date.month
  year : 1970 + tm.year.toNat = moment.date.year

/-- Before the 22nd century nothing is lost when the elements are cut to eight bits. -/
theorem shows_elementsOf (hfits : moment.Fits 1970 4) (hsmall : moment.seconds 1970 < 2 ^ 32) :
    Shows (elementsOf moment) moment := by
  obtain ⟨hyear, -⟩ := hfits
  have hnumber : moment.date.number 1970 < 49711 := by
    rw [Moment.seconds] at hsmall
    omega
  obtain ⟨hcentury, -⟩ := start_years_succ_lt (Date.located_year hyear) hnumber
  have hday := moment.date.day_le.trans (monthLength_bounds _ _).2
  have hbyte {value bound : ℕ} (hvalue : value < bound) (hbound : bound ≤ 256) :
      (BitVec.ofNat 8 value).toNat = value := by
    rw [BitVec.toNat_ofNat, Nat.mod_eq_of_lt (hvalue.trans_le hbound)]
  refine ⟨hbyte moment.second_lt (by decide), hbyte moment.minute_lt (by decide),
    hbyte moment.hour_lt (by decide), hbyte (Nat.lt_succ_of_le hday) (by decide),
    hbyte (Nat.lt_succ_of_le moment.date.month_le) (by decide), ?_⟩
  rw [elementsOf, hbyte hcentury (by decide), Nat.add_sub_cancel' hyear]

theorem Shows.valid (h : Shows tm moment) : tm.Valid where
  second_lt := h.second ▸ moment.second_lt
  minute_lt := h.minute ▸ moment.minute_lt
  hour_lt := h.hour ▸ moment.hour_lt
  month_pos := h.month ▸ moment.date.month_pos
  month_le := h.month ▸ moment.date.month_le
  day_pos := h.day ▸ moment.date.day_pos
  day_le := by
    rw [h.day, h.month, h.year]
    exact moment.date.day_le

theorem Shows.total (h : Shows tm moment) : tm.total = moment.seconds 1970 := by
  have hyear : moment.date.year - 1970 = tm.year.toNat := by
    rw [← h.year, Nat.add_sub_cancel_left]
  rw [TmElements.total, TmElements.number, Moment.seconds, Date.number, h.second, h.minute, h.hour,
    h.day, h.month, hyear, h.year]

/-! ### The round trips -/

variable {unsignedWidth turns : ℕ}

/-- The divisions of `breakTime` take the seconds, the minutes and the hours of the day apart. -/
structure Divided (time : BitVec 32) (days hour minute second : ℕ) : Prop where
  seconds : (time % 60).toNat = second
  minutes : (time / 60 % 60).toNat = minute
  hours : (time / 60 / 60 % 24).toNat = hour
  days : (time / 60 / 60 / 24).toNat = days

theorem divided {time : BitVec 32} {days hour minute second : ℕ} (hhour : hour < 24)
    (hminute : minute < 60) (hsecond : second < 60)
    (htime : time.toNat = ((days * 24 + hour) * 60 + minute) * 60 + second) :
    Divided time days hour minute second := by
  have hminutes : (time / 60).toNat = (days * 24 + hour) * 60 + minute := by
    rw [BitVec.toNat_udiv, htime]
    change (_ : ℕ) / 60 = _
    omega
  have hhours : (time / 60 / 60).toNat = days * 24 + hour := by
    rw [BitVec.toNat_udiv, hminutes]
    change (_ : ℕ) / 60 = _
    omega
  refine ⟨?_, ?_, ?_, ?_⟩
  · rw [BitVec.toNat_umod, htime]
    change (_ : ℕ) % 60 = _
    omega
  · rw [BitVec.toNat_umod, hminutes]
    change (_ : ℕ) % 60 = _
    omega
  · rw [BitVec.toNat_umod, hhours]
    change (_ : ℕ) % 24 = _
    omega
  · rw [BitVec.toNat_udiv, hhours]
    change (_ : ℕ) / 24 = _
    omega

/-- The two loops find the date of a day. -/
theorem loops_eq (hwidth : 16 ≤ unsignedWidth) (hturns : 137 ≤ turns) {date : Date}
    (hyear : 1970 ≤ date.year) {time : BitVec 32} (htime : time.toNat = date.number 1970)
    (hsmall : time.toNat < 49711) :
    ∃ days, yearLoop unsignedWidth time turns 0 0 =
        some (BitVec.ofNat 8 (date.year - 1970), days) ∧
      monthLoop (BitVec.ofNat 8 (date.year - 1970)) 12 0
          (time - (days - daysOfYear (BitVec.ofNat 8 (date.year - 1970)))) =
        (date.month - 1, BitVec.ofNat 32 (date.day - 1)) := by
  have hlocated := Date.located_year hyear
  rw [← htime] at hlocated
  obtain ⟨hcentury, -⟩ := start_years_succ_lt hlocated hsmall
  have hmonth := date.month_le
  have hyears := yearLoop_eq hwidth hlocated hsmall (Nat.zero_le _)
    (show date.year - 1970 < 0 + turns by omega)
  have hmonths := skip_eq date.located_month (Nat.zero_le _)
    (show date.month - 1 < 0 + 12 by omega)
  have hbyte : 1970 + (BitVec.ofNat 8 (date.year - 1970)).toNat = date.year := by
    rw [BitVec.toNat_ofNat, Nat.mod_eq_of_lt (by omega), Nat.add_sub_cancel' hyear]
  have hleft : (time - BitVec.ofNat 32 (start (years 1970) (date.year - 1970))).toNat =
      start (months date.year) (date.month - 1) + (date.day - 1) := by
    have hle := hlocated.start_le
    have hcut : (BitVec.ofNat 32 (start (years 1970) (date.year - 1970))).toNat =
        start (years 1970) (date.year - 1970) := by
      rw [BitVec.toNat_ofNat, Nat.mod_eq_of_lt (by omega)]
    rw [BitVec.toNat_sub_of_le (by rw [BitVec.le_def, hcut]; exact hle), hcut, hlocated.eq,
      Nat.add_sub_cancel_left]
  rw [start_zero] at hyears
  rw [start_zero, Nat.sub_zero] at hmonths
  refine ⟨_, hyears, ?_⟩
  rw [ofNat_start_succ (by omega), BitVec.add_sub_cancel, monthLoop_eq _ (by decide), hbyte, hleft,
    hmonths]

/-- `breakTime` gives the elements of the moment with the number of seconds. -/
theorem breakTime_eq (hwidth : 16 ≤ unsignedWidth) (hturns : 137 ≤ turns)
    (hfits : moment.Fits 1970 4) (hsmall : moment.seconds 1970 < 2 ^ 32) :
    breakTime unsignedWidth turns (BitVec.ofNat 32 (moment.seconds 1970)) =
      some (elementsOf moment) := by
  obtain ⟨hyear, hweekday⟩ := hfits
  generalize htime : BitVec.ofNat 32 (moment.seconds 1970) = time
  have hseconds : time.toNat = moment.seconds 1970 := by
    rw [← htime, BitVec.toNat_ofNat, Nat.mod_eq_of_lt hsmall]
  have hdivided := divided moment.hour_lt moment.minute_lt moment.second_lt hseconds
  have hnumber : moment.date.number 1970 < 49711 := by
    rw [Moment.seconds] at hsmall
    omega
  obtain ⟨days, hyears, hmonths⟩ :=
    loops_eq hwidth hturns hyear hdivided.days (hdivided.days ▸ hnumber)
  have hfield {value : BitVec 32} {number : ℕ} (h : value.toNat = number) :
      value.setWidth 8 = BitVec.ofNat 8 number := by
    rw [← h, BitVec.ofNat_toNat]
  have hwday : ((time / 60 / 60 / 24 + 4) % 7 + 1).toNat = moment.weekday + 1 := by
    rw [BitVec.toNat_add, BitVec.toNat_umod, BitVec.toNat_add, hdivided.days, hweekday]
    change ((_ + 4) % 4294967296 % 7 + 1) % 4294967296 = _
    omega
  have hday : (BitVec.ofNat 32 (moment.date.day - 1) + 1).toNat = moment.date.day := by
    have hpos := moment.date.day_pos
    have hle := moment.date.day_le.trans (monthLength_bounds _ _).2
    rw [BitVec.toNat_add, BitVec.toNat_ofNat]
    change ((_ - 1) % 4294967296 + 1) % 4294967296 = _
    omega
  have hmonth : BitVec.ofNat 8 (moment.date.month - 1) + 1 =
      BitVec.ofNat 8 moment.date.month := by
    have hsum := BitVec.ofNat_add (n := 8) (moment.date.month - 1) 1
    rw [Nat.sub_add_cancel moment.date.month_pos] at hsum
    exact hsum.symm
  rw [breakTime]
  dsimp only
  rw [hyears, Option.map_some]
  dsimp only
  rw [hmonths, hfield hdivided.seconds, hfield hdivided.minutes, hfield hdivided.hours,
    hfield hwday, hfield hday, hmonth]
  rfl

/-- 1 January 1970, a Thursday. -/
def epoch : Moment where
  date := ⟨1970, 1, 1, Nat.one_pos, january_le, Nat.one_pos, by decide⟩
  weekday := 4
  hour := 0
  minute := 0
  second := 0
  weekday_lt := by decide
  hour_lt := midnight_hour_lt
  minute_lt := midnight_minute_lt
  second_lt := midnight_minute_lt

/-- What a clock shows that started at the epoch. -/
def clock (count : ℕ) : Moment := Moment.next^[count] epoch

theorem seconds_clock (count : ℕ) :
    (clock count).seconds 1970 = count ∧ (clock count).Fits 1970 4 := by
  have hfits : epoch.Fits 1970 4 := ⟨le_rfl, rfl⟩
  obtain ⟨hseconds, hlater⟩ := Moment.seconds_iterate hfits count
  have hzero : epoch.seconds 1970 = 0 := rfl
  rw [hzero, Nat.zero_add] at hseconds
  exact ⟨hseconds, hlater⟩

theorem shows_clock {count : ℕ} (hsmall : count < 2 ^ 32) :
    Shows (elementsOf (clock count)) (clock count) := by
  obtain ⟨hseconds, hfits⟩ := seconds_clock count
  exact shows_elementsOf hfits (by rw [hseconds]; exact hsmall)

/-- `breakTime` ends for every number of 32 bits, with what a clock shows after as many seconds. -/
theorem breakTime_clock (hwidth : 16 ≤ unsignedWidth) (hturns : 137 ≤ turns) (time : BitVec 32) :
    breakTime unsignedWidth turns time = some (elementsOf (clock time.toNat)) := by
  obtain ⟨hseconds, hfits⟩ := seconds_clock time.toNat
  have hbreak := breakTime_eq hwidth hturns hfits (by rw [hseconds]; exact time.isLt)
  rwa [hseconds, BitVec.ofNat_toNat, BitVec.setWidth_eq] at hbreak

theorem breakTime_clock_lastSecond :
    breakTime 16 137 0xFFFFFFFF = some (elementsOf (clock (0xFFFFFFFF : BitVec 32).toNat)) :=
  breakTime_clock (by decide) (by decide) 0xFFFFFFFF

/-- `makeTime` takes back what `breakTime` gives. -/
theorem makeTime_breakTime (hwidth : 16 ≤ unsignedWidth) (hturns : 137 ≤ turns)
    (time : BitVec 32) :
    ∃ tm, breakTime unsignedWidth turns time = some tm ∧ tm.Valid ∧ makeTime tm = time := by
  have hshows := shows_clock time.isLt
  refine ⟨_, breakTime_clock hwidth hturns time, hshows.valid, ?_⟩
  rw [makeTime_eq hshows.valid, hshows.total, (seconds_clock time.toNat).1, BitVec.ofNat_toNat,
    BitVec.setWidth_eq]

theorem makeTime_breakTime_lastSecond :
    ∃ tm, breakTime 32 256 0xFFFFFFFF = some tm ∧ tm.Valid ∧ makeTime tm = 0xFFFFFFFF :=
  makeTime_breakTime (by decide) (by decide) 0xFFFFFFFF

/-- Valid elements come back from the number that is made of them, with their day of the week, if
and only if the seconds fit in 32 bits. -/
theorem breakTime_makeTime (hwidth : 16 ≤ unsignedWidth) (hturns : 137 ≤ turns) (h : tm.Valid) :
    breakTime unsignedWidth turns (makeTime tm) =
        some { tm with wday := BitVec.ofNat 8 (tm.weekday + 1) } ↔ tm.total < 2 ^ 32 := by
  constructor
  · intro hbreak
    have hshows := shows_clock (makeTime tm).isLt
    rw [breakTime_clock hwidth hturns] at hbreak
    rw [Option.some.inj hbreak] at hshows
    have htotal : tm.total = (makeTime tm).toNat :=
      hshows.total.trans (seconds_clock (makeTime tm).toNat).1
    rw [htotal]
    exact (makeTime tm).isLt
  · intro hsmall
    obtain ⟨moment, hfits, hseconds, helements⟩ := h.exists_moment
    have hbreak := breakTime_eq hwidth hturns hfits (by rw [hseconds]; exact hsmall)
    rwa [helements, hseconds, ← makeTime_eq h] at hbreak

/-- Noon on 29 February 2016, with the day of the week not set. -/
def leapDay : TmElements where
  second := 0
  minute := 0
  hour := 12
  wday := 0
  day := 29
  month := 2
  year := 46

theorem breakTime_makeTime_leapDay :
    breakTime 16 137 (makeTime leapDay) = some { leapDay with wday := 2 } :=
  (breakTime_makeTime (by decide) (by decide)
    ⟨by decide, by decide, by decide, by decide, by decide, by decide, by decide⟩).mpr (by decide)

end Sketchbook.TimeLibrary.TimeElements
