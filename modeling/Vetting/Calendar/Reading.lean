import Vetting.Calendar.Timestamp
import Vetting.Text.Blank

/-!
# Reading dates and times

A date is written `YYYY-MM-DD`, `YYYYMMDD`, or by week as `YYYY-Www-D`, `YYYYWwwD`, the day of the
week being optional. A time may follow any one code point: `HH`, `HH:MM` or `HH:MM:SS`, the colons
being optional together, and a fraction after a point or a comma. An offset from universal time
follows a sign. The digits are those of ASCII.
-/

namespace Vetting.Calendar

open Text

/-- The number that the first `n` code points write, and the rest; all must be digits. -/
def takeNumber (n : Nat) (points : List CodePoint) : Option (Nat × List CodePoint) :=
  let digits := points.take n
  if digits.length = n && digits.all isAsciiDigit then
    some (natOfDigits digits, points.drop n)
  else none

def hyphen : CodePoint := 45
def colon : CodePoint := 58
def weekMark : CodePoint := 87

/-! ## Where the date ends -/

/-- The length of the date at the front of a text. A week date needs a look ahead: with hyphens, a
digit after the second one belongs to the time; without, the digits of the time come in pairs. -/
def dateLength (points : List CodePoint) : Nat :=
  let size := points.length
  if size = 7 then 7
  else if points[4]? = some hyphen then
    if points[5]? = some weekMark then
      if points[8]? = some hyphen then
        if (points[10]?.map isAsciiDigit).getD false then 8 else 10
      else 8
    else 10
  else if points[4]? = some weekMark then
    let stop := 7 + ((points.drop 7).takeWhile isAsciiDigit).length
    if stop < 9 then stop else if stop % 2 = 0 then 7 else 8
  else 8

/-! ## Dates -/

/-- A date outside the calendar, before the first month of year 1. -/
def beforeCalendar : Date := ⟨1, 0, 1⟩

/-- The date of a day of a week of a year; the year counts by its weeks. The weeks of year 0 lie
before the calendar. -/
def dateOfWeek (year week day : Nat) : Option Date :=
  if week = 0 ∨ 53 < week ∨ (week = 53 ∧ !isLongYear year) then none
  else if day = 0 ∨ 7 < day then none
  else if year = 0 then some beforeCalendar
  else some (Date.ofNumber (firstMonday year + (week - 1 : Nat) * 7 + (day - 1 : Nat)))

def readDate (points : List CodePoint) (length : Nat) : Option Date := do
  let (year, rest) ← takeNumber 4 points
  let hyphens := rest.head? == some hyphen
  let rest := if hyphens then rest.drop 1 else rest
  let skipHyphen (rest : List CodePoint) : Option (List CodePoint) :=
    if !hyphens then some rest
    else if rest.head? = some hyphen then some (rest.drop 1) else none
  if rest.head? = some weekMark then
    let (week, rest) ← takeNumber 2 (rest.drop 1)
    if points.length - rest.length < length then
      let rest ← skipHyphen rest
      let (day, _) ← takeNumber 1 rest
      dateOfWeek year week day
    else dateOfWeek year week 1
  else
    let (month, rest) ← takeNumber 2 rest
    let rest ← skipHyphen rest
    let (day, _) ← takeNumber 2 rest
    return ⟨year, month, day⟩

/-! ## Times -/

def byteSize (c : CodePoint) : Nat :=
  if c < 0x80 then 1 else if c < 0x800 then 2 else if c < 0x10000 then 3 else 4

/-- The length of a part of a time, which counts bytes. -/
def byteLength (points : List CodePoint) : Nat := points.foldl (fun size c => size + byteSize c) 0

/-- Whether a text goes on; a NUL ends it. -/
def goesOn (points : List CodePoint) : Bool := points.headD 0 != 0

/-- The microseconds that the digits of a fraction count, at most six of them. -/
def fractionMicros (digits : List CodePoint) : Nat :=
  natOfDigits digits * Nat.pow 10 (6 - digits.length)

/-- The fraction of a second at the front of a text whose first `length` bytes belong to the
time. The result says whether something other than the end of the text follows. -/
def readFraction (points : List CodePoint) (length : Nat) : Option (Nat × Bool) := do
  let count := min length 6
  let (_, rest) ← takeNumber count points
  return (fractionMicros (points.take count), goesOn (rest.dropWhile isAsciiDigit))

/-- The hour, minute and second at the front of a text whose first `length` bytes belong to the
time, then a fraction. `parts` are those read so far and `colons` says whether they are
separated. The flag of the result says whether anything follows. -/
def readClockFrom (points : List CodePoint) (length : Nat) (parts : List Nat) (colons : Bool) :
    Nat → Option (List Nat × Nat × Bool)
  | 0 => do
    let (micro, more) ← readFraction points length
    return (parts, micro, more)
  | left + 1 => do
    let (part, rest) ← takeNumber 2 points
    let parts := parts ++ [part]
    let colons := if parts.length = 1 then rest.head? == some colon else colons
    if length ≤ 3 then return (parts, 0, goesOn rest)
    let mark := rest.headD 0
    if colons && mark = colon then readClockFrom (rest.drop 1) (length - 3) parts colons left
    else if mark = 46 || mark = 44 then
      let (micro, more) ← readFraction (rest.drop 1) (length - 3)
      return (parts, micro, more)
    else if !colons then readClockFrom rest (length - 2) parts colons left
    else none

def readClock (points : List CodePoint) (length : Nat) : Option (Clock × Bool) := do
  let (parts, micro, more) ← readClockFrom points length [] false 3
  return (⟨parts.getD 0 0, parts.getD 1 0, parts.getD 2 0, micro⟩, more)

def startsOffset (c : CodePoint) : Bool := c = 43 || c = hyphen || c = 90

def readTime (points : List CodePoint) : Option (Clock × Option Int) := do
  let own := points.takeWhile fun c => !startsOffset c
  let (clock, more) ← readClock points (byteLength own)
  match points.drop own.length with
  | [] => if more then none else return (clock, none)
  | sign :: rest =>
    if sign = 90 then
      if goesOn rest then none else return (clock, some 0)
    else
      let (distance, more) ← readClock rest (byteLength rest)
      if more then none
      else return (clock, some (if sign = hyphen then -(distance.micros : Int) else distance.micros))

/-! ## Timestamps -/

/-- A lone surrogate can be no part of a date or a time, but separates them as well as any other
code point. -/
def isSurrogate (c : CodePoint) : Bool := 0xD800 ≤ c && c ≤ 0xDFFF

/-- The date, time and offset of a text, before their ranges are checked. -/
def readParts (points : List CodePoint) : Option (Date × Clock × Option Int) := do
  let length := dateLength points
  let date ← readDate points length
  match points.drop length with
  | [] => return (date, Clock.midnight, none)
  | _ :: rest =>
    if rest.any isSurrogate then none
    let (clock, offset) ← readTime rest
    return (date, clock, offset)

/-- An offset is shorter than a day. -/
def checkOffset (offset : Int) : Except DateFault Unit :=
  if offset.natAbs < microsPerDay then .ok () else .error (.offset offset)

/-- The timestamp that a text denotes; without an offset it is in universal time. -/
def Timestamp.ofText (text : Text) : Except DateFault Timestamp :=
  match readParts text.points with
  | none => .error (.malformed text)
  | some (date, clock, offset) => do
    checkOffset (offset.getD 0)
    Timestamp.ofParts date clock (offset.getD 0)

/-- A trailing `Z` in either case stands for the offset zero. -/
def expandZulu (text : Text) : Text :=
  match text.points.getLast? with
  | some c => if c = 90 || c = 122 then ⟨text.points.dropLast⟩ ++ ("+00:00" : Text) else text
  | none => text

/-- The timestamp of a text with blanks around it, where `Z` may stand for universal time. -/
def Timestamp.ofLooseText (text : Text) : Except DateFault Timestamp :=
  Timestamp.ofText (expandZulu text.trim)

end Vetting.Calendar
