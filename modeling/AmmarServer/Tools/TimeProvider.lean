import AmmarServer.Lib.Calendar
import AmmarServer.Lib.CString
import AmmarServer.Lib.Scanf

/-! The dates of `tools/time_provider.c`. `gmtime_r` is the conversion to the proleptic Gregorian
calendar, and times are at or after the epoch where they are printed. -/

namespace AmmarServer.Tools
open Bytes CString TextFile Calendar

def days : List (List UInt8) :=
  [ascii "Sun", ascii "Mon", ascii "Tue", ascii "Wed", ascii "Thu", ascii "Fri", ascii "Sat"]

def months : List (List UInt8) :=
  [ascii "Jan", ascii "Feb", ascii "Mar", ascii "Apr", ascii "May", ascii "Jun", ascii "Jul",
    ascii "Aug", ascii "Sep", ascii "Oct", ascii "Nov", ascii "Dec"]

/-! Printing. -/

/-- `struct tm`, with the year of the calendar and the month from 0. -/
structure Tm where
  tm_wday : ℕ
  tm_mday : ℕ
  tm_mon : ℕ
  year : ℕ
  tm_hour : ℕ
  tm_min : ℕ
  tm_sec : ℕ
deriving DecidableEq, Repr

/-- 1 January 1970 was a Thursday. -/
def gmtime (time : ℕ) : Tm :=
  let date := dateAt (time / 86400)
  { tm_wday := (4 + time / 86400) % 7
    tm_mday := date.day
    tm_mon := date.month - 1
    year := date.year.toNat
    tm_hour := time % 86400 / 3600
    tm_min := time % 3600 / 60
    tm_sec := time % 60 }

/-- `"%s, %u %s %u %02u:%02u:%02u GMT"`. -/
def dateValue (dayofweek day month year hour minute second : ℕ) : List UInt8 :=
  days.getD dayofweek [] ++ ascii ", " ++ decimal day ++ [32] ++ months.getD month [] ++ [32] ++
    decimal year ++ [32] ++ paddedDecimal 2 hour ++ [58] ++ paddedDecimal 2 minute ++ [58] ++
    paddedDecimal 2 second ++ ascii " GMT"

/-- `GetDateString` without `now`, as far as the buffer takes it. -/
def getDateString (maxOutput : ℕ) (label : Option (List UInt8))
    (dayofweek day month year hour minute second : ℕ) : List UInt8 :=
  let value := dateValue dayofweek day month year hour minute second ++ [LF]
  let text :=
    match label with
    | none => value
    | some label => label ++ ascii ": " ++ value
  text.take (maxOutput - 1)

def getDateStringFromTimeT (maxOutput : ℕ) (label : Option (List UInt8)) (time : ℕ) : List UInt8 :=
  let tmv := gmtime time
  getDateString maxOutput label tmv.tm_wday tmv.tm_mday tmv.tm_mon tmv.year tmv.tm_hour tmv.tm_min
    tmv.tm_sec

/-! Parsing. -/

def daysFromCivil (y : ℤ) (m d : ℕ) : ℤ :=
  let y := y - (if m ≤ 2 then 1 else 0)
  let era := Int.tdiv (if 0 ≤ y then y else y - 399) 400
  let yoe := (y - era * 400).toNat
  let doy := (153 * (if 2 < m then m - 3 else m + 9) + 2) / 5 + d - 1
  let doe := yoe * 365 + yoe / 4 - yoe / 100 + doy
  era * 146097 + doe - 719468

def toupper (c : UInt8) : UInt8 := if 97 ≤ c ∧ c ≤ 122 then c - 32 else c

/-- The first three characters, where the buffer behind a shorter name is 0. -/
def parseMonthName (threeChars : List UInt8) : Option ℕ :=
  let name := (threeChars ++ [0, 0, 0]).take 3
  months.findIdx? fun month => name.map toupper = month.map toupper

structure DateFields where
  day : ℕ
  monthName : List UInt8
  year : ℕ
  hour : ℕ
  minute : ℕ
  second : ℕ
deriving DecidableEq, Repr

/-- `"%u:%u:%u"`. -/
def scanTime (s : List UInt8) : Option (ℕ × ℕ × ℕ) :=
  (scanUnsigned s).bind fun (hour, s) =>
    (scanLiteral 58 s).bind fun s =>
      (scanUnsigned s).bind fun (minute, s) =>
        (scanLiteral 58 s).bind fun s =>
          (scanUnsigned s).map fun (second, _) => (hour, minute, second)

/-- All six fields of `sscanf(text,"%u %3s %u %u:%u:%u",..)`. -/
def scanFixdate (text : List UInt8) : Option DateFields :=
  (scanUnsigned text).bind fun (day, s) =>
    (scanWord 3 s).bind fun (monthName, s) =>
      (scanUnsigned s).bind fun (year, s) =>
        (scanTime s).map fun (hour, minute, second) =>
          { day, monthName, year, hour, minute, second }

/-- All six fields of `sscanf(text,"%u-%3s-%u %u:%u:%u",..)`. -/
def scanRfc850 (text : List UInt8) : Option DateFields :=
  (scanUnsigned text).bind fun (day, s) =>
    (scanLiteral 45 s).bind fun s =>
      (scanWord 3 s).bind fun (monthName, s) =>
        (scanLiteral 45 s).bind fun s =>
          (scanUnsigned s).bind fun (year, s) =>
            (scanTime s).map fun (hour, minute, second) =>
              { day, monthName, year, hour, minute, second }

/-- The fields of a date in one form or the other. -/
def scanDate (text : List UInt8) : Option DateFields :=
  match scanFixdate text with
  | some fields => some fields
  | none =>
    (scanRfc850 text).map fun fields =>
      if fields.year < 100 then
        { fields with year := fields.year + if fields.year < 70 then 2000 else 1900 }
      else fields

/-- The ranges that are checked, and the time. -/
def dateTime (fields : DateFields) : Option ℤ :=
  match parseMonthName fields.monthName with
  | none => none
  | some month =>
    if fields.day < 1 ∨ 31 < fields.day ∨ fields.year < 1900 ∨ 9999 < fields.year ∨
        23 < fields.hour ∨ 59 < fields.minute ∨ 60 < fields.second then none
    else
      some (daysFromCivil fields.year (month + 1) fields.day * 86400 + fields.hour * 3600 +
        fields.minute * 60 + fields.second)

def isBlank (c : UInt8) : Bool := c == 32 || c == 9

/-- What is left of a value between its blanks, and behind the first comma. -/
def dateText (value : List UInt8) : List UInt8 :=
  let text := ((cstring value).dropWhile isBlank).rdropWhile fun c => isBlank c || isNewline c
  match text.dropWhile (· ≠ 44) with
  | [] => text
  | _ :: behind => behind.dropWhile (· = 32)

def parseHTTPDate (value : List UInt8) : Option ℤ :=
  if 64 ≤ value.length then none else (scanDate (dateText value)).bind dateTime

end AmmarServer.Tools
