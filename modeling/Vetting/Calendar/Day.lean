import Vetting.Text.Basic

/-!
# Days

The Gregorian calendar, extended in both directions. Day number 1 is the first of January of
year 1; four hundred years always have the same number of days.
-/

namespace Vetting.Calendar

def isLeap (year : Int) : Bool := year % 4 == 0 && (year % 100 != 0 || year % 400 == 0)

def monthLengths (leap : Bool) : List Nat :=
  [31, if leap then 29 else 28, 31, 30, 31, 30, 31, 31, 30, 31, 30, 31]

def monthLength (year : Int) (month : Nat) : Nat := (monthLengths (isLeap year)).getD (month - 1) 0

def daysBeforeMonth (year : Int) (month : Nat) : Nat :=
  ((monthLengths (isLeap year)).take (month - 1)).foldl (· + ·) 0

def daysBeforeYear (year : Int) : Int :=
  (year - 1) * 365 + (year - 1) / 4 - (year - 1) / 100 + (year - 1) / 400

/-- A date; whether its parts are in range is asked separately. -/
structure Date where
  year : Int
  month : Nat
  day : Nat
deriving DecidableEq

/-- The written form of a date, `YYYY-MM-DD`. -/
def Date.toText (d : Date) : Text :=
  Text.padNat 4 d.year.toNat ++ "-" ++ Text.padNat 2 d.month ++ "-" ++ Text.padNat 2 d.day

def Date.number (d : Date) : Int := daysBeforeYear d.year + daysBeforeMonth d.year d.month + d.day

/-- The month and the day of the month of the day that follows `days` days of a year. -/
def monthAndDay : Nat → List Nat → Nat → Nat × Nat
  | month, length :: lengths, days =>
    if days < length ∨ lengths = [] then (month, days + 1)
    else monthAndDay (month + 1) lengths (days - length)
  | month, [], days => (month, days + 1)

def daysOfFourHundredYears : Int := 146097
def daysOfCentury : Nat := 36524
def daysOfFourYears : Nat := 1461

def Date.ofNumber (number : Int) : Date :=
  let cycle := (number - 1) / daysOfFourHundredYears
  let rest := ((number - 1) % daysOfFourHundredYears).toNat
  let century := min (rest / daysOfCentury) 3
  let rest := rest - century * daysOfCentury
  let four := rest / daysOfFourYears
  let rest := rest % daysOfFourYears
  let single := min (rest / 365) 3
  let rest := rest - single * 365
  let year := 400 * cycle + (100 * century + 4 * four + single + 1 : Nat)
  let (month, day) := monthAndDay 1 (monthLengths (isLeap year)) rest
  ⟨year, month, day⟩

/-- The days since the last Monday, for a day number. -/
def weekday (number : Int) : Nat := ((number + 6) % 7).toNat

/-- The number of the Monday of the first week of a year, the week that holds its first
Thursday. -/
def firstMonday (year : Int) : Int :=
  let first := (Date.mk year 1 1).number
  let back := weekday first
  if back ≤ 3 then first - back else first - back + 7

/-- Whether a year has 53 weeks. -/
def isLongYear (year : Int) : Bool :=
  let first := weekday (Date.mk year 1 1).number
  first == 3 || (first == 2 && isLeap year)

end Vetting.Calendar
