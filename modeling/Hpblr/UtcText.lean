import Hpblr.Lib.Calendar
import Hpblr.Lib.FixedWidth
import Hpblr.TimeUtils
import Mathlib.Data.Char

/-!
# Timestamps as text

The text of a timestamp is its date in the Gregorian calendar and its time of day, in fields of fixed
widths. So the order of the texts is the order of the timestamps.
-/

namespace Hpblr

open Calendar

/-! ## Digits -/

/-- The digits of a number, with zeros in front up to a width. -/
def digits (width n : ℕ) : Text := FixedWidth.word Nat.digitChar 10 width n

theorem increasing_digitChar : FixedWidth.Increasing Nat.digitChar 10 := by
  have hall : ∀ b < 10, ∀ a < b, Nat.digitChar a < Nat.digitChar b := by decide
  exact fun a b hab hb => hall b hb a hab

/-- A number that fits a width is written with this width. -/
theorem setw_decimal {width n : ℕ} (hwidth : 1 ≤ width) (hn : n < 10 ^ width) :
    setw width (decimal n) = digits width n := by
  induction width, hwidth using Nat.le_induction generalizing n with
  | base =>
    have hsmall : n < 10 := hn
    rw [setw, decimal, Nat.toDigits_of_lt_base hsmall, digits, FixedWidth.word, FixedWidth.word,
      Nat.mod_eq_of_lt hsmall]
    rfl
  | succ width hwidth ih =>
    have hdiv : n / 10 < 10 ^ width := by
      rw [pow_succ'] at hn
      exact Nat.div_lt_of_lt_mul hn
    rw [digits, FixedWidth.word, ← digits, ← ih hdiv]
    by_cases hsmall : n < 10
    · rw [Nat.div_eq_of_lt hsmall, Nat.mod_eq_of_lt hsmall, decimal, decimal,
        Nat.toDigits_of_lt_base hsmall, Nat.toDigits_of_lt_base (by omega)]
      obtain ⟨k, rfl⟩ := Nat.exists_eq_add_of_le' hwidth
      simp [setw, List.leftpad, List.replicate_succ']
    · rw [decimal, Nat.toDigits_of_base_le (by omega) (by omega), ← decimal]
      simp [setw, List.leftpad]

/-- A number of exactly so many digits needs no zeros. -/
theorem decimal_eq_digits {n : ℕ} (h : 1000 ≤ n ∧ n < 10000) : decimal n = digits 4 n := by
  have hlength : 4 ≤ (decimal n).length := by
    rw [decimal, Nat.toDigits_of_base_le (by omega) (by omega),
      Nat.toDigits_of_base_le (by omega) (by omega), Nat.toDigits_of_base_le (by omega) (by omega),
      Nat.toDigits_of_lt_base (by omega)]
    simp
  rw [← setw_decimal (by omega) (by omega), setw, List.leftpad, Nat.sub_eq_zero_of_le hlength]
  rfl

/-! ## The calendar -/

/-- A day of a cycle of 400 years that begin in March: its century, its four years, its year and the
day of this year. -/
theorem exists_cycle {d : ℕ} (hd : d < 146097) : ∃ b e q x, b < 4 ∧ e < 25 ∧ q < 4 ∧
    d = 36524 * b + 1461 * e + 365 * q + x ∧ x ≤ 365 ∧ (x = 365 → q = 3 ∧ (e = 24 → b = 3)) := by
  by_cases hlast : d = 146096
  · exact ⟨3, 24, 3, 365, by omega⟩
  · by_cases hleap : d % 36524 % 1461 = 1460
    · exact ⟨d / 36524, d % 36524 / 1461, 3, 365, by omega⟩
    · exact ⟨d / 36524, d % 36524 / 1461, d % 36524 % 1461 / 365, d % 36524 % 1461 % 365, by omega⟩

/-- The year of such a day. What is taken from the days are the leap days before it. -/
theorem yearOfCycle_eq {b e q x d : ℕ} (hb : b < 4) (he : e < 25) (hq : q < 4)
    (hd : d = 36524 * b + 1461 * e + 365 * q + x) (hx : x ≤ 365)
    (hleap : x = 365 → q = 3 ∧ (e = 24 → b = 3)) :
    (d - d / 1460 + d / 36524 - d / 146096) / 365 = 100 * b + 4 * e + q := by
  by_cases hlast : d = 146096
  · have hfields : d / 1460 = 100 ∧ d / 36524 = 4 ∧ d / 146096 = 1 := by omega
    obtain ⟨hfour, hcentury, hcycle⟩ := hfields
    rw [hfour, hcentury, hcycle]
    omega
  · have hcentury : d / 36524 = b := by omega
    have hcycle : d / 146096 = 0 := by omega
    rw [hcentury, hcycle]
    by_cases hcarry : 24 * b + e + 365 * q + x < 1460
    · have hfour : d / 1460 = 25 * b + e := by omega
      rw [hfour]
      omega
    · have hfour : d / 1460 = 25 * b + e + 1 := by omega
      rw [hfour]
      omega

theorem dayOfYear_eq {b e q x d : ℕ} (he : e < 25) (hq : q < 4)
    (hd : d = 36524 * b + 1461 * e + 365 * q + x) :
    d - (365 * (100 * b + 4 * e + q) + (100 * b + 4 * e + q) / 4 - (100 * b + 4 * e + q) / 100) =
      x := by
  omega

/-- The number of 1 March of a year of a cycle. -/
theorem march_of_cycle {b e q c : ℕ} (hb : b < 4) (he : e < 25) (hq : q < 4) :
    daysBeforeYear (100 * b + 4 * e + q + 400 * c) +
        daysBeforeMonth (100 * b + 4 * e + q + 400 * c) 3 =
      146097 * c + 36524 * b + 1461 * e + 365 * q + 60 := by
  have hmarch := march_eq (100 * b + 4 * e + q + 400 * c)
  omega

/-- The moment from which on timestamps count. -/
def epoch : Moment :=
  { date := ⟨1970, 1, 1, by omega, by decide⟩, hour := 0, minute := 0, second := 0, nanosecond := 0
    time_bounds := by omega }

theorem dayNumber_epoch : epoch.date.dayNumber = 719528 := by
  have hyears := daysBeforeYear_eq 1970
  have hmonths := daysBeforeMonth_one 1970
  simp only [Date.dayNumber, epoch]
  omega

/-- `gmtime_r` returns the date of the day. -/
theorem gmtime_date (seconds : ℕ) : ∃ date : Date, (gmtime seconds).year = date.year ∧
    (gmtime seconds).month = date.month ∧ (gmtime seconds).day = date.day ∧
    date.dayNumber = epoch.date.dayNumber + seconds / 86400 := by
  let days := seconds / 86400 + 719468
  obtain ⟨b, e, q, x, hb, he, hq, hd, hx, hleap⟩ :=
    exists_cycle (d := days % 146097) (Nat.mod_lt _ (by omega))
  have hlast : x < 365 ∨ x = 365 ∧ IsLeap (100 * b + 4 * e + q + 400 * (days / 146097) + 1) := by
    by_cases hleapDay : x = 365
    · have hfour := hleap hleapDay
      refine Or.inr ⟨hleapDay, ?_⟩
      unfold IsLeap
      omega
    · exact Or.inl (by omega)
  obtain ⟨date, hdateYear, hdateMonth, hdateDay, hnumber⟩ := exists_date hlast
  have hyear := yearOfCycle_eq hb he hq hd hx hleap
  have hday := dayOfYear_eq he hq hd
  have hmonth : (5 * x + 2) / 153 ≤ 11 := by omega
  refine ⟨date, ?_, ?_, ?_, ?_⟩
  · simp only [gmtime]
    rw [hdateYear, hyear, hday]
    generalize (5 * x + 2) / 153 = month at hmonth
    split <;> split <;> first | rfl | omega
  · simp only [gmtime]
    rw [hdateMonth, hyear, hday]
  · simp only [gmtime]
    rw [hdateDay, hyear, hday]
  · have hsplit := Nat.div_add_mod days 146097
    rw [hnumber, march_of_cycle hb he hq, dayNumber_epoch]
    clear hyear hday hleap hlast hnumber
    omega

/-! ## The text -/

/-- The fields of a moment, from the year to the nanosecond. -/
def momentText (m : Moment) : Text :=
  digits 4 m.date.year ++ ('-' :: (digits 2 m.date.month ++ ('-' :: (digits 2 m.date.day ++
    ('T' :: (digits 2 m.hour ++ (':' :: (digits 2 m.minute ++ (':' :: (digits 2 m.second ++
      ('.' :: (digits 9 m.nanosecond ++ ['Z']))))))))))))

theorem digits_lt_iff {width a b : ℕ} (ha : a < 10 ^ width) (hb : b < 10 ^ width) :
    digits width a < digits width b ↔ a < b :=
  FixedWidth.word_lt_iff increasing_digitChar ha hb

theorem digits_eq_iff {width a b : ℕ} (ha : a < 10 ^ width) (hb : b < 10 ^ width) :
    digits width a = digits width b ↔ a = b :=
  FixedWidth.word_eq_iff increasing_digitChar ha hb

/-- Texts that begin with a field are ordered by this field first. -/
theorem field_lt_iff {width a b : ℕ} (ha : a < 10 ^ width) (hb : b < 10 ^ width) (c : Char)
    (x y : Text) :
    digits width a ++ (c :: x) < digits width b ++ (c :: y) ↔ a < b ∨ a = b ∧ x < y := by
  rw [FixedWidth.append_lt_append_iff (by simp [digits]), digits_lt_iff ha hb, digits_eq_iff ha hb,
    List.cons_lt_cons_iff]
  simp

/-- Texts of moments are ordered as the moments. -/
theorem momentText_lt_iff {m m' : Moment} (hm : m.date.year < 10000) (hm' : m'.date.year < 10000) :
    momentText m < momentText m' ↔ m.Before m' := by
  have hmonth := m.date.month_bounds
  have hmonth' := m'.date.month_bounds
  have hday := m.date.day_lt
  have hday' := m'.date.day_lt
  have htime := m.time_bounds
  have htime' := m'.time_bounds
  rw [momentText, momentText, field_lt_iff (by omega) (by omega), field_lt_iff (by omega) (by omega),
    field_lt_iff (by omega) (by omega), field_lt_iff (by omega) (by omega),
    field_lt_iff (by omega) (by omega), field_lt_iff (by omega) (by omega),
    field_lt_iff (by omega) (by omega), Moment.Before]
  simp

/-- The days that timestamps reach are in years of four digits. -/
theorem year_bounds {date : Date} (hlow : 719528 ≤ date.dayNumber)
    (hhigh : date.dayNumber < 1000000) : 1000 ≤ date.year ∧ date.year < 10000 := by
  have hfirst := date.le_dayNumber
  have hlast := date.dayNumber_lt_year
  have hyear := daysBeforeYear_eq date.year
  have hnext := daysBeforeYear_eq (date.year + 1)
  omega

/-- The text of a timestamp is that of its moment. -/
theorem exists_moment (timestampNs : UInt64) : ∃ m : Moment,
    formatUnixNsUtc timestampNs = momentText m ∧ m.count = epoch.count + timestampNs.toNat ∧
    m.date.year < 10000 := by
  have hsize : timestampNs.toNat < 2 ^ 64 := timestampNs.toNat_lt
  have hseconds : (timestampNs / 1000000000).toNat = timestampNs.toNat / 1000000000 := by
    rw [UInt64.toNat_div]
    rfl
  have hnanos : (timestampNs % 1000000000).toNat = timestampNs.toNat % 1000000000 := by
    rw [UInt64.toNat_mod]
    rfl
  have htotal := Nat.div_add_mod timestampNs.toNat 1000000000
  generalize timestampNs.toNat / 1000000000 = seconds at hseconds htotal
  generalize hns : timestampNs.toNat % 1000000000 = nanos at hnanos htotal
  obtain ⟨date, hyear, hmonth, hday, hnumber⟩ := gmtime_date seconds
  rw [dayNumber_epoch] at hnumber
  have hbounds : 1000 ≤ date.year ∧ date.year < 10000 := year_bounds (by omega) (by omega)
  have hmonthBounds := date.month_bounds
  have hdayBounds := date.day_lt
  refine ⟨⟨date, seconds % 86400 / 3600, seconds % 3600 / 60, seconds % 60, nanos, by omega⟩, ?_, ?_,
    hbounds.2⟩
  · simp only [formatUnixNsUtc, putTime, hseconds, hnanos, hyear, hmonth, hday]
    rw [decimal_eq_digits hbounds, setw_decimal (by omega) (by omega),
      setw_decimal (by omega) (by omega), setw_decimal (by omega) (by simp only [gmtime]; omega),
      setw_decimal (by omega) (by simp only [gmtime]; omega),
      setw_decimal (by omega) (by simp only [gmtime]; omega), setw_decimal (by omega) (by omega)]
    simp [momentText, gmtime]
  · simp only [Moment.count, hnumber, dayNumber_epoch]
    simp only [epoch]
    omega

/-- **Timestamps as text.** The text of a timestamp is the date and the time of day that are so many
nanoseconds behind the epoch, in the Gregorian calendar and without leap seconds. The order of the
texts, character by character, is the order of the timestamps. -/
theorem formatUnixNsUtc_calendar :
    (∀ timestampNs, ∃ m : Moment, formatUnixNsUtc timestampNs = momentText m ∧
      m.count = epoch.count + timestampNs.toNat) ∧
    ∀ a b, formatUnixNsUtc a < formatUnixNsUtc b ↔ a < b := by
  refine ⟨fun timestampNs => ?_, fun a b => ?_⟩
  · obtain ⟨m, htext, hcount, _⟩ := exists_moment timestampNs
    exact ⟨m, htext, hcount⟩
  · obtain ⟨m, htext, hcount, hyear⟩ := exists_moment a
    obtain ⟨m', htext', hcount', hyear'⟩ := exists_moment b
    rw [htext, htext', momentText_lt_iff hyear hyear', ← Moment.count_lt_iff, hcount, hcount',
      UInt64.lt_iff_toNat_lt]
    omega

end Hpblr
