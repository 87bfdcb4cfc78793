import Vetting.Document.Mark
import Vetting.Value.Foreign

/-!
# Dates and moments in documents

A date has four digits for the year and two for month and day. A moment is a date, here with one
digit for month and day if there is no need of two, and a time of day after a letter `T` or blanks.
Its zone is the letter `Z` or an offset in hours and minutes; without a zone it has no offset.
-/

namespace Vetting.Document

open Calendar (Clock Date)

/-- A time of day as written, with its offset in minutes if there is one. -/
structure WrittenTime where
  clock : Clock
  zone : Option Int

/-- A date or a moment as written. -/
structure WrittenMoment where
  date : Date
  /-- Whether month and day have two digits each. -/
  isWide : Bool
  time : Option WrittenTime

/-- The digits at the front, at least `least` and at most `most` of them, and the rest. -/
def takeDigits? (least most : Nat) (points : List CodePoint) :
    Option (List CodePoint × List CodePoint) :=
  let digits := (points.take most).takeWhile Text.isAsciiDigit
  if digits.length < least then none else some (digits, points.drop digits.length)

def after? (c : CodePoint) : List CodePoint → Option (List CodePoint)
  | d :: rest => if d = c then some rest else none
  | [] => none

def writtenOffset? (points : List CodePoint) : Option Int := do
  let (hours, rest) ← takeDigits? 1 2 points
  match rest with
  | [] => some (Text.natOfDigits hours * 60)
  | _ => do
    let (minutes, last) ← takeDigits? 2 2 (← after? 58 rest)
    if last.isEmpty then some (Text.natOfDigits hours * 60 + Text.natOfDigits minutes) else none

/-- The zone that is written, or none if nothing is. -/
def writtenZone? (points : List CodePoint) : Option (Option Int) :=
  match points, points.dropWhile isSpaceOrTab with
  | [], _ => some none
  | _, [90] => some (some 0)
  | _, 43 :: rest => (writtenOffset? rest).map some
  | _, 45 :: rest => (writtenOffset? rest).map fun offset => some (-offset)
  | _, _ => none

/-- The fraction of a second after its point, in microseconds, and the rest. Further digits do not
count. -/
def takeFraction (points : List CodePoint) : Nat × List CodePoint :=
  let digits := points.takeWhile Text.isAsciiDigit
  (Text.natOfDigits ((digits ++ List.replicate 6 48).take 6), points.drop digits.length)

def writtenTime? (points : List CodePoint) : Option WrittenTime := do
  let (hour, rest) ← takeDigits? 1 2 points
  let (minute, rest) ← takeDigits? 2 2 (← after? 58 rest)
  let (second, rest) ← takeDigits? 2 2 (← after? 58 rest)
  let (micro, rest) := match after? 46 rest with
    | some fraction => takeFraction fraction
    | none => (0, rest)
  let zone ← writtenZone? rest
  let number := Text.natOfDigits
  return ⟨⟨number hour, number minute, number second, micro⟩, zone⟩

/-- What follows the letter or the blanks in front of a time of day. -/
def afterDate? : List CodePoint → Option (List CodePoint)
  | 84 :: rest | 116 :: rest => some rest
  | points => if points.head?.any isSpaceOrTab then some (points.dropWhile isSpaceOrTab) else none

def writtenMoment? (points : List CodePoint) : Option WrittenMoment := do
  let (year, rest) ← takeDigits? 4 4 points
  let (month, rest) ← takeDigits? 1 2 (← after? hyphen rest)
  let (day, rest) ← takeDigits? 1 2 (← after? hyphen rest)
  let number := Text.natOfDigits
  let date : Date := ⟨number year, number month, number day⟩
  let isWide := month.length = 2 && day.length = 2
  if rest.isEmpty then return ⟨date, isWide, none⟩
  else
    let time ← writtenTime? (← afterDate? rest)
    return ⟨date, isWide, some time⟩

/-- A line break at the end of a scalar does not count. -/
def withoutFinalBreak (points : List CodePoint) : List CodePoint :=
  if points.getLast? = some lineFeed then points.dropLast else points

def isMomentForm (points : List CodePoint) : Bool :=
  (writtenMoment? points).any fun m => m.isWide || m.time.isSome

def microsPerMinute : Int := 60 * Calendar.microsPerSecond

/-- An offset of so many minutes, which must be shorter than a day. -/
def checkedOffset (minutes : Int) : Except DateFault Int :=
  let micros := minutes * microsPerMinute
  if micros.natAbs < Calendar.microsPerDay then .ok micros else .error (.offset micros)

/-- The date or moment, which must be in the calendar. -/
def WrittenMoment.value (m : WrittenMoment) : Except DateFault Foreign := do
  match m.time with
  | none => return .day (← m.date.checked)
  | some t =>
    let offset ← t.zone.mapM checkedOffset
    return .moment (← Calendar.Moment.ofParts m.date t.clock offset)

def momentOf (points : List CodePoint) : Except Fault Foreign :=
  match writtenMoment? (withoutFinalBreak points) with
  | none => .error .missingAttribute
  | some m => m.value.mapError .date

end Vetting.Document
