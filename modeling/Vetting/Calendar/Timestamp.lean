import Vetting.Calendar.Day
import Vetting.Number

/-!
# Points in time

A timestamp is a local date and time with an offset from universal time, both in microseconds.
Its instant counts the microseconds of universal time since the beginning of year 1.
-/

namespace Vetting.Calendar

def microsPerSecond : Nat := 1000000
def secondsPerDay : Nat := 86400
def microsPerDay : Nat := secondsPerDay * microsPerSecond

/-- The parts of a local time. -/
structure Clock where
  hour : Nat
  minute : Nat
  second : Nat
  micro : Nat
deriving DecidableEq

def Clock.midnight : Clock := ⟨0, 0, 0, 0⟩

def Clock.micros (c : Clock) : Nat :=
  ((c.hour * 60 + c.minute) * 60 + c.second) * microsPerSecond + c.micro

def Clock.ofMicros (micros : Nat) : Clock :=
  let seconds := micros / microsPerSecond
  ⟨seconds / 3600, seconds / 60 % 60, seconds % 60, micros % microsPerSecond⟩

/-- The written form of a time of day; a fraction of a second has six digits. -/
def Clock.toText (c : Clock) : Text :=
  let two := Text.padNat 2
  two c.hour ++ ":" ++ two c.minute ++ ":" ++ two c.second
    ++ (if c.micro = 0 then Text.empty else "." ++ Text.padNat 6 c.micro)

structure Timestamp where
  localMicros : Int
  offset : Int
deriving DecidableEq

namespace Timestamp

def instant (t : Timestamp) : Int := t.localMicros - t.offset

def startOfDay (number : Int) : Int := (number - 1) * microsPerDay

def firstYear : Int := 1
def lastYear : Int := 9999

/-- Why a date and time is not in the calendar; the year is looked at first. -/
def dateFault? (d : Date) (c : Clock) : Option DateFault :=
  if d.year < firstYear ∨ lastYear < d.year then some (.yearOutOfRange d.year)
  else if d.month < 1 ∨ 12 < d.month then some .month
  else if d.day < 1 ∨ monthLength d.year d.month < d.day then some .day
  else if 23 < c.hour then some .hour
  else if 59 < c.minute then some .minute
  else if 59 < c.second then some .second
  else none

/-- The timestamp of a date and time, which must be in the calendar, at an offset. -/
def ofParts (d : Date) (c : Clock) (offset : Int) : Except DateFault Timestamp :=
  match dateFault? d c with
  | some fault => .error fault
  | none => .ok ⟨startOfDay d.number + c.micros, offset⟩

def dateOf (instant : Int) : Date := Date.ofNumber (instant / microsPerDay + 1)

/-- The date of a timestamp in universal time, which must be in the calendar. A timestamp that
already is in universal time is. -/
def universalDate (t : Timestamp) : Except DateFault Date :=
  let date := dateOf t.instant
  if date.year < firstYear ∨ lastYear < date.year then .error .beyondCalendar else .ok date

/-! ## Seconds since 1970 -/

def epochDay : Int := (Date.mk 1970 1 1).number

/-- The nearest integer to a finite binary64 number, the even one of two. -/
def nearestEven (x : Binary64) : Int :=
  match x.units? with
  | none => 0
  | some units =>
    Binary64.signed (units < 0) (Binary64.roundHalfEven units.natAbs Binary64.unitsPerOne)

def million : Binary64 := Binary64.ofInt microsPerSecond

/-- The whole seconds toward zero and the microseconds after them. The fraction is multiplied as
a binary64 number and then rounded. -/
def secondsAndMicros (x : Binary64) : Option (Int × Int) :=
  match (if x.isNegative then x.ceil? else x.floor?) with
  | none => none
  | some whole =>
    let micros := nearestEven (Binary64.mul (Binary64.sub x (Binary64.ofInt whole)) million)
    some (whole + micros / microsPerSecond, micros % microsPerSecond)

/-- The greatest count of seconds that the clock can hold. -/
def clockLimit : Int := Nat.pow 2 63

/-- The years whose distance from 1900 the calendar can count. -/
def countableYears (year : Int) : Bool :=
  -(Nat.pow 2 31 : Int) ≤ year - 1900 && year - 1900 < Nat.pow 2 31

def ofSeconds (x : Binary64) : Except DateFault Timestamp :=
  match secondsAndMicros x with
  | none => .error (if x.isNaN then .notANumber else .beyondClock)
  | some (seconds, micros) =>
    if seconds < -clockLimit ∨ clockLimit ≤ seconds then .error .beyondClock
    else
      let number := seconds / secondsPerDay + epochDay
      let date := Date.ofNumber number
      if !countableYears date.year then .error .uncountableYear
      else if date.year < firstYear ∨ lastYear < date.year then .error (.yearOutOfRange date.year)
      else .ok ⟨startOfDay number + (seconds % secondsPerDay) * microsPerSecond + micros, 0⟩

/-! ## Writing -/

def clockOf (instant : Int) : Clock := Clock.ofMicros (instant % microsPerDay).toNat

def textOf (instant : Int) : Text :=
  (dateOf instant).toText ++ "T" ++ (clockOf instant).toText ++ "+00:00"

end Timestamp
end Vetting.Calendar
