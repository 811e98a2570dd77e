import Hpblr.Text

/-!
# Formatting timestamps

`format_unix_ns_utc`: a timestamp in nanoseconds since the epoch as a calendar date and time.
-/

namespace Hpblr

/-- The fields of `std::tm` that the format uses, with the month from one and the full year. -/
structure Tm where
  year : ℕ
  month : ℕ
  day : ℕ
  hour : ℕ
  minute : ℕ
  second : ℕ
  deriving DecidableEq

/-- `gmtime_r`, for times from the epoch on. The days are counted from 1 March of the year 0, so that
a leap day is the last day of its year, and in cycles of 400 years. -/
def gmtime (seconds : ℕ) : Tm :=
  let days := seconds / 86400 + 719468
  let cycle := days / 146097
  let dayOfCycle := days % 146097
  let yearOfCycle :=
    (dayOfCycle - dayOfCycle / 1460 + dayOfCycle / 36524 - dayOfCycle / 146096) / 365
  let dayOfYear := dayOfCycle - (365 * yearOfCycle + yearOfCycle / 4 - yearOfCycle / 100)
  let monthFromMarch := (5 * dayOfYear + 2) / 153
  let month := if monthFromMarch < 10 then monthFromMarch + 3 else monthFromMarch - 9
  let year := yearOfCycle + 400 * cycle
  { year := if month ≤ 2 then year + 1 else year
    month := month
    day := dayOfYear - (153 * monthFromMarch + 2) / 5 + 1
    hour := seconds % 86400 / 3600
    minute := seconds % 3600 / 60
    second := seconds % 60 }

/-- `std::put_time` with the format `%Y-%m-%dT%H:%M:%S`. -/
def putTime (tm : Tm) : Text :=
  decimal tm.year ++ ['-'] ++ setw 2 (decimal tm.month) ++ ['-'] ++ setw 2 (decimal tm.day) ++
    ['T'] ++ setw 2 (decimal tm.hour) ++ [':'] ++ setw 2 (decimal tm.minute) ++ [':'] ++
      setw 2 (decimal tm.second)

/-- `format_unix_ns_utc`. -/
def formatUnixNsUtc (timestampNs : UInt64) : Text :=
  let seconds := timestampNs / 1000000000
  let nanos := timestampNs % 1000000000
  putTime (gmtime seconds.toNat) ++ ['.'] ++ setw 9 (decimal nanos.toNat) ++ ['Z']

example : formatUnixNsUtc 951782400000000001 = "2000-02-29T00:00:00.000000001Z".toList := by
  decide +kernel

/-- A padded number has only digits. -/
theorem isDigit_of_mem_setw {width n : ℕ} {c : Char} (hc : c ∈ setw width (decimal n)) :
    c.isDigit = true := by
  unfold setw List.leftpad at hc
  rcases List.mem_append.mp hc with hfill | hdigit
  · obtain rfl := List.eq_of_mem_replicate hfill
    rfl
  · exact isDigit_of_mem_decimal hdigit

/-- A formatted timestamp has only digits and five other characters. -/
theorem mem_formatUnixNsUtc {timestampNs : UInt64} {c : Char}
    (hc : c ∈ formatUnixNsUtc timestampNs) :
    c.isDigit = true ∨ c ∈ ['-', 'T', ':', '.', 'Z'] := by
  simp only [formatUnixNsUtc, putTime, List.mem_append] at hc
  grind [isDigit_of_mem_setw, isDigit_of_mem_decimal]

end Hpblr
