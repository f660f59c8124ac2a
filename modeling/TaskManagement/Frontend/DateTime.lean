import TaskManagement.Gregorian
import TaskManagement.TimeZone

/-!
# Local date-times of the task detail

`utcToLocalDateTime` and `localDateTimeToUtc` of `task-detail/dateTime.ts`, in the time zone
`APP_TIMEZONE` given by its history in milliseconds.

The UTC text of a date, which `toISOString` writes and `new Date` reads, is the time value that it
names.  A `RangeError` is thrown for a date without a time value.
-/

namespace DateTime

open Gregorian

/-! ### Dates -/

/-- The time values of dates, up to 100,000,000 days from the epoch. -/
@[ext]
structure TimeValue where
  time : ℤ
  inRange : -8640000000000000 ≤ time ∧ time ≤ 8640000000000000
deriving DecidableEq, Repr

/-- The time value of a number; `none` is `NaN`. -/
def timeClip (t : ℤ) : Option TimeValue :=
  if h : -8640000000000000 ≤ t ∧ t ≤ 8640000000000000 then some ⟨t, h⟩ else none

/-- `Date.UTC`: months count from zero, and two-digit years are those of the 20th century. -/
def dateUTC (year month day hour minute : ℤ) : Option TimeValue :=
  timeClip (makeTime
    { year := if 0 ≤ year ∧ year ≤ 99 then 1900 + year else year
      month := month + 1
      day := day
      hour := hour
      minute := minute })

inductive JsError : Type where
  | rangeError
deriving DecidableEq, Repr

def toISOString (date : Option TimeValue) : Except JsError TimeValue :=
  date.elim (.error .rangeError) .ok

/-! ### `Intl.DateTimeFormat` -/

/-- A time zone: its offsets from UTC are of full minutes and less than a day. -/
structure Zone extends TimeZone.History where
  fullMinutes : initial % 60000 = 0 ∧ ∀ t ∈ transitions, t.offset % 60000 = 0
  bounded : toHistory.Bounded 86400000

structure Parts where
  year : String
  month : String
  day : String
  hour : String
  minute : String
deriving DecidableEq, Repr

/-- The `numeric` style. -/
def numeric (n : ℤ) : String := toString n.toNat

/-- The `2-digit` style. -/
def twoDigit (n : ℤ) : String := if n < 10 then "0" ++ toString n.toNat else toString n.toNat

/-- The year within its era. -/
def eraYear (y : ℤ) : ℤ := if y ≤ 0 then 1 - y else y

def partsOf (f : Fields) : Parts where
  year := numeric (eraYear f.year)
  month := twoDigit f.month
  day := twoDigit f.day
  hour := twoDigit f.hour
  minute := twoDigit f.minute

def formatToParts (z : Zone) (date : Option TimeValue) : Except JsError Parts :=
  date.elim (.error .rangeError) fun t => .ok (partsOf (fieldsOf (z.localTime t.time)))

/-! ### Texts -/

/-- `Number` of a text of digits. -/
def number (cs : List Char) : ℤ := Nat.ofDigitChars 10 cs 0

/-- `(\d{n})` -/
def takeDigits (n : ℕ) (cs : List Char) : Option (ℤ × List Char) :=
  if (cs.take n).length = n ∧ (cs.take n).all Char.isDigit then
    some (number (cs.take n), cs.drop n)
  else none

def takeChar (c : Char) : List Char → Option (List Char)
  | [] => none
  | d :: cs => if d = c then some cs else none

/-- The groups of `/^(\d{4})-(\d{2})-(\d{2})T(\d{2}):(\d{2})$/` as numbers. -/
def readLocal (value : String) : Option Fields := do
  let (year, cs) ← takeDigits 4 value.toList
  let cs ← takeChar '-' cs
  let (month, cs) ← takeDigits 2 cs
  let cs ← takeChar '-' cs
  let (day, cs) ← takeDigits 2 cs
  let cs ← takeChar 'T' cs
  let (hour, cs) ← takeDigits 2 cs
  let cs ← takeChar ':' cs
  let (minute, cs) ← takeDigits 2 cs
  if cs.isEmpty then some ⟨year, month, day, hour, minute⟩ else none

def Parts.text (parts : Parts) : String :=
  parts.year ++ "-" ++ parts.month ++ "-" ++ parts.day ++ "T" ++ parts.hour ++ ":" ++ parts.minute

/-! ### The conversions -/

/-- `none` is `null`, and for `value` also an empty text or one that names no date. -/
def utcToLocalDateTime (z : Zone) (value : Option TimeValue) : Except JsError (Option String) :=
  match value with
  | none => return none
  | some date => do
    let parts ← formatToParts z (some date)
    return some parts.text

def localDateTimeToUtc (z : Zone) (value : Option String) : Except JsError (Option TimeValue) :=
  match value.bind readLocal with
  | none => return none
  | some f => do
    let localAsUtc := dateUTC f.year (f.month - 1) f.day f.hour f.minute
    let zonedParts ← formatToParts z localAsUtc
    let zonedAsUtc := dateUTC (number zonedParts.year.toList) (number zonedParts.month.toList - 1)
      (number zonedParts.day.toList) (number zonedParts.hour.toList)
      (number zonedParts.minute.toList)
    let date ← toISOString <| localAsUtc.bind fun localAsUtc => zonedAsUtc.bind fun zonedAsUtc =>
      timeClip (localAsUtc.time - (zonedAsUtc.time - localAsUtc.time))
    return some date

/-- Asia/Tokyo. -/
def tokyo : Zone where
  initial := 32400000
  transitions := []
  sorted := TimeZone.noTransitions_sorted
  fullMinutes := ⟨by decide, fun t ht => absurd ht List.not_mem_nil⟩
  bounded := ⟨by decide, fun t ht => absurd ht List.not_mem_nil⟩

example : (localDateTimeToUtc tokyo (some "2026-09-10T00:00")).bind (utcToLocalDateTime tokyo) =
    .ok (some "2026-09-10T00:00") := by
  decide

end DateTime
