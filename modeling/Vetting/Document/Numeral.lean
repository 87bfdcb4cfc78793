import Vetting.Number
import Vetting.Text.Blank
import Vetting.Text.Case
import Vetting.Text.Numeral

/-!
# Numerals in documents

An integer may be binary, octal, hexadecimal, or in base sixty with colons between its digits. A
number with a point is a binary64 number; its exponent needs a sign, and its whole part may be in
base sixty. Underscores do not count.

Whether a scalar has the form of a number and which number it writes are two questions: a tag can
ask for the number of a scalar that does not look like one.
-/

namespace Vetting.Document

def underscore : CodePoint := 95

/-- What stands between the digits of a numeral in base sixty. -/
def sixtySeparator : CodePoint := 58

def signOf : List CodePoint → Bool × List CodePoint
  | 45 :: rest => (true, rest)
  | 43 :: rest => (false, rest)
  | points => (false, points)

/-! ## Forms -/

def areDigits (base : Nat) (points : List CodePoint) : Bool :=
  points.all fun c => c = underscore || (Text.hexValue? c).any (· < base)

/-- Whether decimal digits and underscores are written that begin with a digit. -/
def isDecimalRun (points : List CodePoint) : Bool :=
  points.head?.any Text.isAsciiDigit && areDigits 10 points

/-- Whether one or two digits stand for less than sixty. -/
def isSixtieth (points : List CodePoint) : Bool :=
  points.all Text.isAsciiDigit && (points.length = 1
    || (points.length = 2 && Text.natOfDigits points < 60))

/-- Whether a numeral in base sixty is written, with two digits at least. -/
def isSixtyForm (points : List CodePoint) : Bool :=
  match Text.splitPoints sixtySeparator points with
  | first :: second :: others => isDecimalRun first && (second :: others).all isSixtieth
  | _ => false

def isIntegerForm (points : List CodePoint) : Bool :=
  match (signOf points).2 with
  | [48] => true
  | 48 :: 98 :: digits => !digits.isEmpty && areDigits 2 digits
  | 48 :: 120 :: digits => !digits.isEmpty && areDigits 16 digits
  | 48 :: digits => areDigits 8 digits
  | magnitude => isDecimalRun magnitude || isSixtyForm magnitude

/-- Whether nothing is written, or an exponent with its sign. -/
def isExponentForm : List CodePoint → Bool
  | [] => true
  | e :: sign :: digits =>
    (e = 101 || e = 69) && (sign = 43 || sign = 45) && !digits.isEmpty
      && digits.all Text.isAsciiDigit
  | _ => false

def infinityForms : List Text := [".inf", ".Inf", ".INF"]
def notANumberForms : List Text := [".nan", ".NaN", ".NAN"]

/-- Whether a numeral with a point is written. Without a digit before the point it has no sign. -/
def isPointForm (points : List CodePoint) : Bool :=
  let magnitude := (signOf points).2
  let whole := magnitude.takeWhile (· != 46)
  match magnitude.dropWhile (· != 46) with
  | [] => false
  | _ :: rest =>
    let inFraction (c : CodePoint) : Bool := Text.isAsciiDigit c || c = underscore
    let fraction := rest.takeWhile inFraction
    let exponent := rest.dropWhile inFraction
    let startsAtPoint := points.head? = some 46 && isDecimalRun fraction
    ((isDecimalRun whole || startsAtPoint) && isExponentForm exponent)
      || (isSixtyForm whole && exponent.isEmpty)

def isFloatForm (points : List CodePoint) : Bool :=
  isPointForm points || decide (Text.mk (signOf points).2 ∈ infinityForms)
    || decide (Text.mk points ∈ notANumberForms)

/-! ## Integers -/

/-- The letter that may stand behind a zero in front of the digits of a base. -/
def baseLetter? (base : Nat) : Option CodePoint :=
  [(2, 98), (8, 111), (16, 120)].lookup base

/-- The digits of a base without the zero and the letter that may stand in front of them. -/
def withoutBase (base : Nat) : List CodePoint → List CodePoint
  | 48 :: letter :: digits =>
    if (baseLetter? base).any fun c => letter = c || letter = c - 32 then digits
    else 48 :: letter :: digits
  | points => points

/-- The value of a digit of a base. Decimal digits may be those of any script. -/
def digitIn? (base : Nat) (c : CodePoint) : Option Nat :=
  ((CodePoint.decimalValue? c).orElse fun _ => Text.hexValue? c).filter (· < base)

/-- The number that digits of a base write. Only decimal digits can be too many. -/
def naturalIn (base : Nat) (points : List CodePoint) (whole : Text) : Except Fault Nat :=
  let count := (points.takeWhile fun c => (digitIn? base c).isSome).length
  if base = 10 ∧ Fault.digitLimit < count then .error (.tooManyDigitsToRead count)
  else
    match points.mapM (digitIn? base) with
    | none | some [] => .error (.notAnInteger base whole)
    | some digits => .ok (digits.foldl (fun n d => n * base + d) 0)

/-- The integer that a text writes in a base, with blanks around it. -/
def integerIn (base : Nat) (points : List CodePoint) : Except Fault Int := do
  let (negative, magnitude) := signOf (Text.trimPoints CodePoint.isBlank points)
  let n ← naturalIn base (withoutBase base magnitude) ⟨points⟩
  return if negative then -(n : Int) else n

/-- The number that the digits of a numeral in base sixty make, the first one counting most. -/
def sixtyInteger (digits : List Int) : Int := digits.foldl (fun n d => n * 60 + d) 0

def magnitudeOf : List CodePoint → Except Fault Int
  | [] => .error .emptyNumeral
  | [48] => .ok 0
  | 48 :: 98 :: digits => integerIn 2 digits
  | 48 :: 120 :: digits => integerIn 16 digits
  | 48 :: digits => integerIn 8 (48 :: digits)
  | points => do
    if points.contains sixtySeparator then
      let digits ← (Text.splitPoints sixtySeparator points).mapM (integerIn 10)
      return sixtyInteger digits
    else integerIn 10 points

/-- The sign of a numeral without underscores, and its magnitude. There must be something. -/
def signAndMagnitude (points : List CodePoint) : Except Fault (Bool × List CodePoint) :=
  match points.filter (· != underscore) with
  | [] => .error .emptyNumeral
  | points => .ok (signOf points)

def integerOf (points : List CodePoint) : Except Fault Int := do
  let (negative, magnitude) ← signAndMagnitude points
  let n ← magnitudeOf magnitude
  return if negative then -n else n

/-! ## Binary64 numbers -/

/-- A decimal digit of any script as one of ASCII. -/
def asciiDigit (c : CodePoint) : CodePoint := ((CodePoint.decimalValue? c).map (48 + ·)).getD c

/-- The exponent at the end of a decimal numeral, if there is no other code point. -/
def exponentOf? : List CodePoint → Option Int
  | [] => some 0
  | 101 :: rest =>
    let (negative, digits) := signOf rest
    if digits.isEmpty || !digits.all Text.isAsciiDigit then none
    else some (if negative then -(Text.natOfDigits digits : Int) else Text.natOfDigits digits)
  | _ => none

/-- The number that a decimal numeral in small letters writes. -/
def decimalOf? (points : List CodePoint) : Option Binary64 :=
  let whole := points.takeWhile Text.isAsciiDigit
  let rest := points.dropWhile Text.isAsciiDigit
  let (fraction, rest) := match rest with
    | 46 :: rest => (rest.takeWhile Text.isAsciiDigit, rest.dropWhile Text.isAsciiDigit)
    | rest => ([], rest)
  let digits := whole ++ fraction
  if digits.isEmpty then none
  else (exponentOf? rest).map fun e =>
    Binary64.ofDecimal false (Text.natOfDigits digits) (e - fraction.length)

/-- The number that a text in small letters writes, with blanks around it. -/
def floatIn (points : List CodePoint) : Except Fault Binary64 :=
  let (negative, magnitude) :=
    signOf ((Text.trimPoints CodePoint.isBlank points).map asciiDigit)
  let number :=
    if Text.mk magnitude ∈ (["inf", "infinity"] : List Text) then some (.infinite false)
    else if Text.mk magnitude = "nan" then some .nan
    else decimalOf? magnitude
  match number with
  | some x => .ok (if negative then x.neg else x)
  | none => .error (.notAFloat ⟨points⟩)

/-- The sum of the digits of a numeral in base sixty, the last one first, each times its weight. -/
def sixtyFloat (weight : Nat) (sum : Binary64) : List Binary64 → Except Fault Binary64
  | [] => .ok sum
  | x :: more => do
    let w ← (Number.integer weight).toFloat
    sixtyFloat (weight * 60) (sum.add (x.mul w)) more

def floatOf (points : List CodePoint) : Except Fault Binary64 := do
  let (negative, magnitude) ← signAndMagnitude (Text.toLower ⟨points⟩).points
  let x ←
    if Text.mk magnitude = ".inf" then pure (.infinite false)
    else if Text.mk magnitude = ".nan" then pure .nan
    else if magnitude.contains sixtySeparator then
      let digits ← (Text.splitPoints sixtySeparator magnitude).mapM floatIn
      sixtyFloat 1 (Binary64.zero false) digits.reverse
    else floatIn magnitude
  return if negative then x.neg else x

end Vetting.Document
