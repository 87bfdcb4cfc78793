import Vetting.Binary64.Basic

/-!
# Decimal numerals of binary64 numbers

Reading rounds the exact decimal value once. Writing finds the fewest digits that read back as
the number; among numerals with that many digits it takes the nearest one.
-/

namespace Vetting

namespace Binary64

def digitCount (n : Nat) : Nat := (Text.digitsOfNat n).length

/-- The number nearest to `digits * 10^exponent`. Exponents far outside the range are decided
without computing the power. -/
def ofDecimal (negative : Bool) (digits : Nat) (exponent : Int) : Binary64 :=
  if digits = 0 then zero negative
  else
    let size := (digitCount digits : Int) + exponent
    if size > 310 then .infinite negative
    else if size < -330 then zero negative
    else if 0 ≤ exponent then
      ofQuotient negative (digits * Nat.pow 10 exponent.toNat * unitsPerOne) 1
    else ofQuotient negative (digits * unitsPerOne) (Nat.pow 10 (-exponent).toNat)

/-- The exponent of the leading decimal digit of `a / unitsPerOne`, for `a` positive. -/
def leadingExponent (a : Nat) : Int :=
  if unitsPerOne ≤ a then (digitCount (a / unitsPerOne) : Int) - 1
  else
    let size := digitCount (unitsPerOne / a)
    if unitsPerOne ≤ a * Nat.pow 10 (size - 1) then -((size : Int) - 1) else -(size : Int)

/-- A decimal numeral: digits, most significant first, and the exponent of the first digit. -/
structure Numeral where
  digits : List Nat
  exponent : Int

/-- `a / unitsPerOne` divided by `10^scale`, as a quotient of natural numbers. -/
def scaled (a : Nat) (scale : Int) : Nat × Nat :=
  if 0 ≤ scale then (a, unitsPerOne * Nat.pow 10 scale.toNat)
  else (a * Nat.pow 10 (-scale).toNat, unitsPerOne)

/-- Of the two integers next to the magnitude on the grid of `10^scale`, the nearest that reads
back as `x`. -/
def nearestOnGrid (x : Binary64) (a : Nat) (scale : Int) : Option Nat :=
  let (numerator, denominator) := scaled a scale
  let low := numerator / denominator
  let rest := numerator % denominator
  let lowHits := 0 < low && ofDecimal false low scale = x
  let highHits := ofDecimal false (low + 1) scale = x
  if lowHits && highHits then
    if 2 * rest < denominator then some low
    else if denominator < 2 * rest then some (low + 1)
    else if low % 2 = 0 then some low else some (low + 1)
  else if lowHits then some low
  else if highHits then some (low + 1)
  else none

def trimZeros (digits : List Nat) : List Nat :=
  (digits.reverse.dropWhile (· == 0)).reverse

/-- The shortest numeral of a positive number, searched from `used` digits on; every digit of
the number is the last resort. -/
def shortestFrom (x : Binary64) (a : Nat) (leading : Int) (used : Nat) : Nat → Numeral
  | 0 =>
    let digits := Text.digitsOfNat (a * Nat.pow 10 1074 / unitsPerOne)
    ⟨trimZeros digits, digits.length - 1 - 1074⟩
  | left + 1 =>
    match nearestOnGrid x a (leading - used + 1) with
    | some n =>
      let digits := Text.digitsOfNat n
      ⟨trimZeros digits, leading - used + digits.length⟩
    | none => shortestFrom x a leading (used + 1) left

/-- The fewest digits that read back as the magnitude of a number. -/
def shortest (significand exponent : Nat) (canonical : Canonical significand exponent) : Numeral :=
  let a := magnitudeUnits significand exponent
  if a = 0 then ⟨[0], 0⟩
  else shortestFrom (.finite false significand exponent canonical) a (leadingExponent a) 1 17

/-! ## Written forms -/

/-- How a number is written: the leading exponents that are written positionally, and the texts
of NaN and infinity. -/
structure Layout where
  leastPositional : Int
  greatestPositional : Int
  exponentDigits : Nat
  nan : Text
  infinity : Text

/-- Numbers from `10^-4` to below `10^16` are written positionally and keep a fraction; the
others have a signed exponent of two digits or more. -/
def plainLayout : Layout := ⟨-4, 15, 2, "nan", "inf"⟩

def digitsText (digits : List Nat) : Text := ⟨digits.map Text.digitPoint⟩

def zerosText (n : Nat) : Text := ⟨List.replicate n 48⟩

def Layout.numeral (layout : Layout) (n : Numeral) : Text :=
  if layout.leastPositional ≤ n.exponent && n.exponent ≤ layout.greatestPositional then
    if n.exponent < 0 then
      "0." ++ zerosText ((-n.exponent).toNat - 1) ++ digitsText n.digits
    else
      let whole := n.exponent.toNat + 1
      if n.digits.length ≤ whole then
        digitsText n.digits ++ zerosText (whole - n.digits.length) ++ ".0"
      else digitsText (n.digits.take whole) ++ "." ++ digitsText (n.digits.drop whole)
  else
    let mantissa := match n.digits with
      | [d] => digitsText [d]
      | d :: rest => digitsText [d] ++ "." ++ digitsText rest
      | [] => "0"
    mantissa ++ "e" ++ (if n.exponent < 0 then "-" else "+")
      ++ Text.padNat layout.exponentDigits n.exponent.natAbs

def signText (negative : Bool) : Text := if negative then "-" else ""

def Layout.write (layout : Layout) : Binary64 → Text
  | .nan => layout.nan
  | .infinite negative => signText negative ++ layout.infinity
  | .finite negative m p h =>
    signText negative ++ layout.numeral (shortest m p h)

def toText (x : Binary64) : Text := plainLayout.write x

end Binary64
end Vetting
