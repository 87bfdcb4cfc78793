import Vetting.Rule.Basic
import Vetting.Text.Blank
import Vetting.Text.Case
import Vetting.Text.Numeral
import Vetting.Value.Literal

/-!
# Coercion

Before a value is checked it is converted toward what the rules of its criterion ask for. A
criterion with a rule for numbers, texts or booleans converts strictly: only well-formed text
becomes a number or a boolean. Any other criterion converts texts that look like a number or a
boolean and leaves the rest alone. Null is never converted.
-/

namespace Vetting.Coercion

/-- What strict coercion converts to; `other` keeps the text. -/
inductive Target where
  | number | boolean | other
deriving DecidableEq

/-- The first number, string or boolean rule. -/
def targetType (rules : List Rule) : Option TypeRule :=
  rules.findSome? fun rule =>
    match rule with
    | .ofType .array => none
    | .ofType type => some type
    | _ => none

def Target.ofType : TypeRule → Target
  | .number => number
  | .boolean => boolean
  | _ => other

/-! ## Numerals -/

/-- A numeral: its sign, its digits before the point, and those after it if there is a point. -/
structure Numeral where
  negative : Bool
  whole : List Nat
  fraction : Option (List Nat)

def numberOfDigits (digits : List Nat) : Nat := digits.foldl (fun n d => n * 10 + d) 0

/-- The number that a numeral writes. An integer may have too many digits to be read. -/
def Numeral.number (n : Numeral) : Except Fault Number :=
  match n.fraction with
  | some fraction =>
    .ok (.float (Binary64.ofDecimal n.negative (numberOfDigits (n.whole ++ fraction))
      (-(fraction.length : Int))))
  | none =>
    if Fault.digitLimit < n.whole.length then .error (.tooManyDigitsToRead n.whole.length)
    else
      let magnitude : Int := numberOfDigits n.whole
      .ok (.integer (if n.negative then -magnitude else magnitude))

def takeDigits (valueOf : CodePoint → Option Nat) (points : List CodePoint) :
    List Nat × List CodePoint :=
  ((points.takeWhile fun c => (valueOf c).isSome).filterMap valueOf,
    points.dropWhile fun c => (valueOf c).isSome)

def takeSign (points : List CodePoint) : Bool × List CodePoint :=
  match points with
  | 45 :: rest => (true, rest)
  | points => (false, points)

/-- The numeral that a text is as a whole: a minus sign if any, digits of any script, and digits
after a point if any. One line feed may follow. -/
def strictNumeral? (text : Text) : Option Numeral :=
  let (negative, points) := takeSign text.points
  let (whole, rest) := takeDigits CodePoint.decimalValue? points
  if whole.isEmpty then none
  else
    match rest with
    | [] | [10] => some ⟨negative, whole, none⟩
    | 46 :: rest =>
      let (fraction, rest) := takeDigits CodePoint.decimalValue? rest
      if fraction.isEmpty ∨ (rest ≠ [] ∧ rest ≠ [10]) then none
      else some ⟨negative, whole, some fraction⟩
    | _ => none

/-! ## Strict coercion -/

/-- The boolean that a text names in any case, blanks aside. -/
def booleanNamed? (text : Text) : Option Bool :=
  let name := text.trim.toLower
  if name = "true" then some true
  else if name = "false" then some false
  else none

/-- Converts the canonical text of a value; what is not well-formed stays as it is. -/
def strict (v : Value) (target : Target) : Except Fault Value :=
  match v with
  | .null => .ok .null
  | v => do
    let text ← v.toText
    match target with
    | .number =>
      match strictNumeral? text with
      | some numeral =>
        let n ← numeral.number
        return .number n
      | none => return v
    | .boolean =>
      match booleanNamed? text with
      | some b => return .boolean b
      | none => return v
    | .other => return .text text

/-! ## Flexible coercion -/

def asciiDigit? (c : CodePoint) : Option Nat :=
  if Text.isAsciiDigit c then some (c - 48) else none

def isNumeralPoint (c : CodePoint) : Bool := Text.isAsciiDigit c || c = 46 || c = 45

/-- The numeral of digits, points and minus signs, where the digits on one side of the point may
be missing. -/
def looseNumeral? (points : List CodePoint) : Option Numeral :=
  let (negative, points) := takeSign points
  let (whole, rest) := takeDigits asciiDigit? points
  match rest with
  | [] => if whole.isEmpty then none else some ⟨negative, whole, none⟩
  | 46 :: rest =>
    let (fraction, rest) := takeDigits asciiDigit? rest
    if rest ≠ [] ∨ (whole.isEmpty ∧ fraction.isEmpty) then none
    else some ⟨negative, whole, some fraction⟩
  | _ => none

/-- The number of a loose numeral. One without a point that is too large for a binary64 number is
infinite. -/
def looseNumber (n : Numeral) : Except Fault Number :=
  match n.fraction with
  | some _ => n.number
  | none =>
    let x := Binary64.ofDecimal n.negative (numberOfDigits n.whole) 0
    if x.isInfinite then .ok (.float x) else n.number

/-- Converts a text that looks like a number or a boolean. What cannot stand in a numeral is left
out before the text is read as a number. -/
def flexible (v : Value) : Except Fault Value :=
  match v with
  | .text text =>
    match looseNumeral? (text.points.filter isNumeralPoint) with
    | some numeral => do
      let n ← looseNumber numeral
      return .number n
    | none =>
      match booleanNamed? text with
      | some b => .ok (.boolean b)
      | none => .ok v
  | v => .ok v

def coerce (v : Value) (rules : List Rule) : Except Fault Value :=
  match v with
  | .null => .ok .null
  | v =>
    match targetType rules with
    | none => flexible v
    | some type => strict v (Target.ofType type)

end Vetting.Coercion
