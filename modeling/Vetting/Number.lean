import Vetting.Binary64.Decimal
import Vetting.Fault

/-!
# Numbers

A number is an integer of any size or a binary64 number. Integers are compared with binary64
numbers exactly; arithmetic between the two first rounds the integer.
-/

namespace Vetting

inductive Number where
  | integer (i : Int)
  | float (x : Binary64)
deriving DecidableEq

namespace Number

instance : Inhabited Number := ⟨.integer 0⟩

/-- The binary64 number nearest to a number, if it is not beyond the largest one. -/
def toFloat : Number → Except Fault Binary64
  | .integer i =>
    let x := Binary64.ofInt i
    if x.isInfinite then .error .integerTooLargeForFloat else .ok x
  | .float x => .ok x

/-- Whether a number is NaN; the test rounds an integer first, and fails where that fails. -/
def testNaN (n : Number) : Except Fault Bool := do
  let x ← n.toFloat
  return x.isNaN

/-- The place of a number on the extended line; NaN has none. -/
def place? : Number → Option Binary64.Place
  | .integer i => some (.at (i * (Binary64.unitsPerOne : Int)))
  | .float x => x.place?

/-- The exact order of two numbers; there is none with NaN. -/
def compare? (a b : Number) : Option Ordering := do
  let p ← a.place?
  let q ← b.place?
  return p.compare q

def equal (a b : Number) : Bool := compare? a b == some .eq

def less (a b : Number) : Bool := compare? a b == some .lt

def lessOrEqual (a b : Number) : Bool := less a b || equal a b

def isZero (n : Number) : Bool := equal n (.integer 0)

/-! ## Arithmetic -/

/-- An operation on integers, and on binary64 numbers as soon as one operand is such a number. -/
def lift (exact : Int → Int → Int) (rounded : Binary64 → Binary64 → Binary64) :
    Number → Number → Except Fault Number
  | .integer i, .integer j => .ok (.integer (exact i j))
  | a, b => do
    let x ← a.toFloat
    let y ← b.toFloat
    return .float (rounded x y)

def add : Number → Number → Except Fault Number := lift (· + ·) Binary64.add

def sub : Number → Number → Except Fault Number := lift (· - ·) Binary64.sub

def mul : Number → Number → Except Fault Number := lift (· * ·) Binary64.mul

/-- The quotient as a binary64 number; two integers are divided exactly before the rounding. -/
def div : Number → Number → Except Fault Number
  | .integer i, .integer j =>
    if j = 0 then .error (.divisionByZero false)
    else
      let x := Binary64.ofIntQuotient i j
      if x.isInfinite then .error .quotientTooLargeForFloat else .ok (.float x)
  | a, b => do
    let x ← a.toFloat
    let y ← b.toFloat
    if (Number.float y).isZero then throw (.divisionByZero true)
    return .float (x.div y)

def neg : Number → Number
  | .integer i => .integer (-i)
  | .float x => .float x.neg

def abs : Number → Number
  | .integer i => .integer i.natAbs
  | .float x => .float x.abs

/-- An integer obtained from a binary64 number, which must be finite. -/
def integral (pick : Binary64 → Option Int) (x : Binary64) : Except Fault Int :=
  match pick x with
  | some i => .ok i
  | none => .error (if x.isNaN then .notANumberToInteger else .infinityToInteger)

def floor : Number → Except Fault Int
  | .integer i => .ok i
  | .float x => integral Binary64.floor? x

def ceil : Number → Except Fault Int
  | .integer i => .ok i
  | .float x => integral Binary64.ceil? x

def half : Binary64 := Binary64.ofDecimal false 5 (-1)

/-- The floor of the number plus one half, the sum being rounded. -/
def round (n : Number) : Except Fault Int := do
  floor (← add n (.float half))

/-! ## Written forms -/

/-- The first integer with too many digits to be written. -/
def unwritable : Nat := Nat.pow 10 Fault.digitLimit

def writeInteger (i : Int) : Except Fault Text :=
  if unwritable ≤ i.natAbs then .error .tooManyDigitsToWrite else .ok (Text.ofInt i)

/-- The written form that keeps integers and binary64 numbers apart. -/
def inspect : Number → Except Fault Text
  | .integer i => writeInteger i
  | .float x => .ok x.toText

def expressionLayout : Binary64.Layout := { Binary64.plainLayout with nan := "NaN", infinity := "Infinity" }

/-- The first magnitude whose integral numbers keep their exponent. -/
def integralLimit : Nat := Nat.pow 10 21

/-- The canonical text of a number: an integral number below `10^21` drops its fraction. -/
def format : Number → Except Fault Text
  | .integer i => writeInteger i
  | .float x =>
    match x.toInt? with
    | some i => if i.natAbs < integralLimit then writeInteger i else .ok (expressionLayout.write x)
    | none => .ok (expressionLayout.write x)

end Number
end Vetting
