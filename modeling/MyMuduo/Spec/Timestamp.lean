import MyMuduo.Lib.Numerals
import MyMuduo.Spec.HttpResponse
import MyMuduo.Spec.Timer

/-!
# The texts of a time (`Timer/timestamp.h`)

Here a time point is a number of nanoseconds since the epoch, not negative. `gmtime` counts
days in the Gregorian calendar, without leap seconds.
-/

namespace MyMuduo

open Lib

/-! ## The calendar -/

def isLeap (year : ℕ) : Bool := year % 4 = 0 && (year % 100 ≠ 0 || year % 400 = 0)

/-- The days of the year `1970 + i`. -/
def yearDays (i : ℕ) : ℕ := if isLeap (1970 + i) then 366 else 365

/-- The days of month `mon`, from 0, of the year `1970 + i`. -/
def monthDays (i mon : ℕ) : ℕ :=
  [31, if isLeap (1970 + i) then 29 else 28, 31, 30, 31, 30, 31, 31, 30, 31, 30, 31].getD mon 31

/-- `struct tm`: years from 1900, months from 0 and days from 1. -/
structure Tm where
  tm_year : ℕ
  tm_mon : ℕ
  tm_mday : ℕ
  tm_hour : ℕ
  tm_min : ℕ
  tm_sec : ℕ
  deriving DecidableEq, Repr

def gmtime (time : ℕ) : Tm :=
  let year := locate yearDays (time / 86400 + 1) 0 (time / 86400)
  let month := locate (monthDays year.1) (year.2 + 1) 0 year.2
  { tm_year := 70 + year.1
    tm_mon := month.1
    tm_mday := month.2 + 1
    tm_hour := time % 86400 / 3600
    tm_min := time % 3600 / 60
    tm_sec := time % 60 }

/-- Up to the year 9999. -/
def InRange (time : ℕ) : Prop := (gmtime time).tm_year + 1900 ≤ 9999

instance (time : ℕ) : Decidable (InRange time) := inferInstanceAs (Decidable (_ ≤ _))

/-! ## `snprintf` -/

/-- A number in a field of a width, filled on the left. -/
def field (fill : UInt8) (width n : ℕ) : Bytes :=
  List.replicate (width - (to_string n).length) fill ++ to_string n

/-- `char buf[size] = {0}` after `snprintf(buf, size, …)` of a text. -/
def snprintf (size : ℕ) (text : Bytes) : Bytes :=
  text.take (size - 1) ++ List.replicate (size - (text.take (size - 1)).length) 0

namespace Timestamp

/-- The text of `"%4d%02d%02d %02d:%02d:%02d.%06ld"`. -/
def format (tm : Tm) (microseconds_part : ℕ) : Bytes :=
  field 32 4 (tm.tm_year + 1900) ++ field 48 2 (tm.tm_mon + 1) ++ field 48 2 tm.tm_mday ++
    ascii " " ++ field 48 2 tm.tm_hour ++ ascii ":" ++ field 48 2 tm.tm_min ++ ascii ":" ++
    field 48 2 tm.tm_sec ++ ascii "." ++ field 48 6 microseconds_part

/-- `buf` in both functions. -/
def buf (m_time_point : ℕ) : Bytes :=
  let seconds := m_time_point / 10 ^ 9
  let microseconds := m_time_point / 1000
  snprintf 32 (format (gmtime seconds) (microseconds - seconds * 10 ^ 6))

def toString (m_time_point : ℕ) : Bytes := (buf m_time_point).takeWhile (· ≠ 0)

def toDefaultLogString (m_time_point : ℕ) : Bytes := (buf m_time_point).take 17

def microsecondsSinceEpoch (m_time_point : ℕ) : ℕ := m_time_point / 1000

/-- The second of a time point, and the microseconds in it. -/
abbrev secondOf (m_time_point : ℕ) : ℕ := m_time_point / 10 ^ 9

abbrev microOf (m_time_point : ℕ) : ℕ := m_time_point / 1000 % 10 ^ 6

end Timestamp

end MyMuduo
