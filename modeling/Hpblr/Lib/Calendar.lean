import Mathlib.Algebra.BigOperators.Intervals
import Mathlib.Algebra.Order.BigOperators.Group.Finset
import Mathlib.Tactic.IntervalCases

/-!
# The Gregorian calendar

Dates from the year 0 on, with the rule of leap years extended to all years, and the numbers of their
days. Later dates have larger numbers.
-/

namespace Calendar

open Finset

/-- A leap year has a 29 February. -/
def IsLeap (year : ℕ) : Prop := year % 4 = 0 ∧ (year % 100 ≠ 0 ∨ year % 400 = 0)

instance : DecidablePred IsLeap := fun year =>
  inferInstanceAs (Decidable (year % 4 = 0 ∧ (year % 100 ≠ 0 ∨ year % 400 = 0)))

def daysOfYear (year : ℕ) : ℕ := if IsLeap year then 366 else 365

def daysOfMonth (year : ℕ) : ℕ → ℕ
  | 2 => if IsLeap year then 29 else 28
  | 4 | 6 | 9 | 11 => 30
  | _ => 31

/-- The days of the years before a year. -/
def daysBeforeYear (year : ℕ) : ℕ := ∑ y ∈ range year, daysOfYear y

/-- The days of a year before a month. -/
def daysBeforeMonth (year month : ℕ) : ℕ := ∑ m ∈ Ico 1 month, daysOfMonth year m

/-- A day of the calendar. -/
structure Date where
  year : ℕ
  month : ℕ
  day : ℕ
  month_bounds : 1 ≤ month ∧ month ≤ 12
  day_bounds : 1 ≤ day ∧ day ≤ daysOfMonth year month

/-- The number of a day, from 1 January of the year 0 on. -/
def Date.dayNumber (date : Date) : ℕ :=
  daysBeforeYear date.year + daysBeforeMonth date.year date.month + (date.day - 1)

/-! ## Years -/

theorem daysBeforeYear_succ (year : ℕ) :
    daysBeforeYear (year + 1) = daysBeforeYear year + daysOfYear year :=
  sum_range_succ ..

/-- The days before a year, with the leap years counted. -/
theorem daysBeforeYear_eq (year : ℕ) : daysBeforeYear year + (year + 99) / 100 =
    365 * year + (year + 3) / 4 + (year + 399) / 400 := by
  induction year with
  | zero => rfl
  | succ year ih =>
    rw [daysBeforeYear_succ, daysOfYear]
    by_cases hleap : IsLeap year
    · rw [if_pos hleap]
      unfold IsLeap at hleap
      omega
    · rw [if_neg hleap]
      unfold IsLeap at hleap
      omega

theorem daysBeforeYear_mono : Monotone daysBeforeYear :=
  monotone_nat_of_le_succ fun year => by
    rw [daysBeforeYear_succ]
    omega

/-! ## Months -/

theorem daysBeforeMonth_succ {year month : ℕ} (h : 1 ≤ month) :
    daysBeforeMonth year (month + 1) = daysBeforeMonth year month + daysOfMonth year month :=
  sum_Ico_succ_top h _

@[simp] theorem daysBeforeMonth_one (year : ℕ) : daysBeforeMonth year 1 = 0 := rfl

theorem daysBeforeMonth_mono (year : ℕ) : Monotone (daysBeforeMonth year) := fun _ _ h =>
  sum_le_sum_of_subset (Ico_subset_Ico_right h)

/-- The days before the months, from the length of February on. -/
theorem daysBeforeMonth_eq {year month : ℕ} (h : 1 ≤ month ∧ month ≤ 13) :
    daysBeforeMonth year month =
      if month = 1 then 0 else if month = 2 then 31
      else 31 + daysOfMonth year 2 + (153 * (month - 3) + 2) / 5 := by
  obtain ⟨hlow, hhigh⟩ := h
  interval_cases month <;> simp [daysBeforeMonth, sum_Ico_succ_top, daysOfMonth]

@[simp] theorem daysBeforeMonth_three (year : ℕ) :
    daysBeforeMonth year 3 = 31 + daysOfMonth year 2 :=
  daysBeforeMonth_eq (by omega)

/-- A year is made of its months. -/
theorem daysBeforeMonth_end (year : ℕ) : daysBeforeMonth year 13 = daysOfYear year := by
  rw [daysBeforeMonth_eq (by omega), daysOfYear]
  by_cases hleap : IsLeap year <;> simp [daysOfMonth, hleap]

/-! ## Dates -/

theorem Date.day_lt (date : Date) : date.day < 32 := by
  have hday := date.day_bounds.2
  have hlength : daysOfMonth date.year date.month ≤ 31 := by
    unfold daysOfMonth
    split
    · split <;> omega
    all_goals omega
  omega

/-- The day before the end of its month, and so of its year. -/
theorem Date.dayNumber_lt_month (date : Date) : date.dayNumber <
    daysBeforeYear date.year + daysBeforeMonth date.year (date.month + 1) := by
  have hday := date.day_bounds
  rw [daysBeforeMonth_succ date.month_bounds.1, Date.dayNumber]
  omega

theorem Date.dayNumber_lt_year (date : Date) : date.dayNumber < daysBeforeYear (date.year + 1) := by
  have hmonth := date.month_bounds
  have hlast := daysBeforeMonth_mono date.year (show date.month + 1 ≤ 13 by omega)
  rw [daysBeforeMonth_end] at hlast
  have hbefore := date.dayNumber_lt_month
  rw [daysBeforeYear_succ]
  omega

theorem Date.le_dayNumber (date : Date) : daysBeforeYear date.year ≤ date.dayNumber := by
  rw [Date.dayNumber]
  omega

/-- Dates from left to right: the year, the month, the day. -/
def Date.Before (date other : Date) : Prop :=
  date.year < other.year ∨ date.year = other.year ∧
    (date.month < other.month ∨ date.month = other.month ∧ date.day < other.day)

/-- An earlier date has a smaller number. -/
theorem Date.Before.dayNumber_lt {date other : Date} (h : date.Before other) :
    date.dayNumber < other.dayNumber := by
  rcases h with hyear | ⟨hyear, hmonth | ⟨hmonth, hday⟩⟩
  · calc
      date.dayNumber < daysBeforeYear (date.year + 1) := date.dayNumber_lt_year
      _ ≤ daysBeforeYear other.year := daysBeforeYear_mono hyear
      _ ≤ other.dayNumber := other.le_dayNumber
  · have hbefore := date.dayNumber_lt_month
    have hmonths := daysBeforeMonth_mono other.year (show date.month + 1 ≤ other.month from hmonth)
    rw [hyear] at hbefore
    have hother : other.dayNumber = daysBeforeYear other.year +
      daysBeforeMonth other.year other.month + (other.day - 1) := rfl
    omega
  · have hfirst := date.day_bounds
    rw [Date.dayNumber, Date.dayNumber, hyear, hmonth]
    omega

/-! ## Years that begin in March -/

/-- The number of 1 March. The leap days before it are those of the years up to this one. -/
theorem march_eq (year : ℕ) : daysBeforeYear year + daysBeforeMonth year 3 + year / 100 =
    365 * year + year / 4 + year / 400 + 60 := by
  have hyears := daysBeforeYear_eq year
  rw [daysBeforeMonth_three]
  by_cases hleap : IsLeap year
  · simp only [daysOfMonth, if_pos hleap]
    unfold IsLeap at hleap
    omega
  · simp only [daysOfMonth, if_neg hleap]
    unfold IsLeap at hleap
    omega

/-- A day of a year that begins in March. In such a year the months of 31 and 30 days follow one another
as the multiples of 153 fifths, and the leap day is the last day. -/
theorem exists_date {year x : ℕ} (hx : x < 365 ∨ x = 365 ∧ IsLeap (year + 1)) :
    let monthFromMarch := (5 * x + 2) / 153
    ∃ date : Date,
      date.year = (if monthFromMarch < 10 then year else year + 1) ∧
      date.month = (if monthFromMarch < 10 then monthFromMarch + 3 else monthFromMarch - 9) ∧
      date.day = x - (153 * monthFromMarch + 2) / 5 + 1 ∧
      date.dayNumber = daysBeforeYear year + daysBeforeMonth year 3 + x := by
  intro m
  have hm : m = (5 * x + 2) / 153 := rfl
  clear_value m
  by_cases hspring : m < 10
  · simp only [if_pos hspring]
    have hday : x - (153 * m + 2) / 5 + 1 ≤ daysOfMonth year (m + 3) := by
      interval_cases m <;> simp [daysOfMonth] <;> omega
    refine ⟨⟨year, m + 3, x - (153 * m + 2) / 5 + 1, by omega, ⟨by omega, hday⟩⟩, rfl, rfl, rfl, ?_⟩
    rw [Date.dayNumber, daysBeforeMonth_three,
      daysBeforeMonth_eq (show 1 ≤ m + 3 ∧ m + 3 ≤ 13 by omega), if_neg (by omega),
      if_neg (by omega)]
    dsimp only
    omega
  · simp only [if_neg hspring]
    have hwinter : m = 10 ∨ m = 11 := by omega
    have hday : x - (153 * m + 2) / 5 + 1 ≤ daysOfMonth (year + 1) (m - 9) := by
      rcases hwinter with rfl | rfl
      · simp only [daysOfMonth]
        omega
      · simp only [daysOfMonth]
        rcases hx with hx | ⟨rfl, hleap⟩
        · split <;> omega
        · rw [if_pos hleap]
    refine ⟨⟨year + 1, m - 9, x - (153 * m + 2) / 5 + 1, by omega, ⟨by omega, hday⟩⟩, rfl, rfl,
      rfl, ?_⟩
    have hyear : daysOfYear year = 31 + daysOfMonth year 2 + 306 := by
      rw [← daysBeforeMonth_end, daysBeforeMonth_eq (by omega)]
      rfl
    have hmonth : daysBeforeMonth (year + 1) (m - 9) + 306 = (153 * m + 2) / 5 := by
      rcases hwinter with rfl | rfl
      · rfl
      · rw [daysBeforeMonth_eq (by omega)]
        rfl
    rw [Date.dayNumber, daysBeforeYear_succ, daysBeforeMonth_three, hyear]
    dsimp only
    omega

/-! ## Moments -/

/-- A day and a time of it, down to the nanosecond. -/
structure Moment where
  date : Date
  hour : ℕ
  minute : ℕ
  second : ℕ
  nanosecond : ℕ
  time_bounds : hour < 24 ∧ minute < 60 ∧ second < 60 ∧ nanosecond < 1000000000

namespace Moment

/-- The nanoseconds since the beginning of the year 0, with days of 86400 seconds. -/
def count (m : Moment) : ℕ :=
  (86400 * m.date.dayNumber + 3600 * m.hour + 60 * m.minute + m.second) * 1000000000 + m.nanosecond

/-- Moments from left to right, from the year down to the nanosecond. -/
def Before (m m' : Moment) : Prop :=
  m.date.year < m'.date.year ∨ m.date.year = m'.date.year ∧
  (m.date.month < m'.date.month ∨ m.date.month = m'.date.month ∧
  (m.date.day < m'.date.day ∨ m.date.day = m'.date.day ∧
  (m.hour < m'.hour ∨ m.hour = m'.hour ∧
  (m.minute < m'.minute ∨ m.minute = m'.minute ∧
  (m.second < m'.second ∨ m.second = m'.second ∧ m.nanosecond < m'.nanosecond)))))

/-- The date comes first. -/
theorem before_iff {m m' : Moment} : m.Before m' ↔ m.date.Before m'.date ∨
    (m.date.year = m'.date.year ∧ m.date.month = m'.date.month ∧ m.date.day = m'.date.day) ∧
    (m.hour < m'.hour ∨ m.hour = m'.hour ∧
    (m.minute < m'.minute ∨ m.minute = m'.minute ∧
    (m.second < m'.second ∨ m.second = m'.second ∧ m.nanosecond < m'.nanosecond))) := by
  unfold Before Date.Before
  tauto

theorem Before.count_lt {m m' : Moment} (h : m.Before m') : m.count < m'.count := by
  have htime := m.time_bounds
  unfold count
  rcases before_iff.mp h with hdate | ⟨⟨hyear, hmonth, hday⟩, hlater⟩
  · have hnumber := hdate.dayNumber_lt
    omega
  · have hnumber : m.date.dayNumber = m'.date.dayNumber := by
      rw [Date.dayNumber, Date.dayNumber, hyear, hmonth, hday]
    have htime' := m'.time_bounds
    omega

/-- The order of the moments is the order of their counts. -/
theorem count_lt_iff {m m' : Moment} : m.count < m'.count ↔ m.Before m' := by
  refine ⟨fun hlt => ?_, Before.count_lt⟩
  by_contra hnot
  by_cases hafter : m'.Before m
  · exact absurd hafter.count_lt (by omega)
  · have hsame : (m.date.year = m'.date.year ∧ m.date.month = m'.date.month ∧
        m.date.day = m'.date.day) ∧ m.hour = m'.hour ∧ m.minute = m'.minute ∧
        m.second = m'.second ∧ m.nanosecond = m'.nanosecond := by
      unfold Before at hnot hafter
      omega
    obtain ⟨⟨hyear, hmonth, hday⟩, hhour, hminute, hsecond, hnanosecond⟩ := hsame
    have hnumber : m.date.dayNumber = m'.date.dayNumber := by
      rw [Date.dayNumber, Date.dayNumber, hyear, hmonth, hday]
    unfold count at hlt
    omega

end Moment

end Calendar
