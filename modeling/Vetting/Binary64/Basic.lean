import Vetting.Text.Basic

/-!
# Binary64 numbers

A finite number is a significand below `2^53` times a power of two, counted in units of
`2^-1074`. The pair is canonical, so two finite numbers of one sign are equal exactly when their
fields are. Every operation is its exact result followed by one rounding to the nearest number,
a tie going to the even significand; the exact result is a quotient of natural numbers in units.
-/

namespace Vetting

/-- A pair of significand and exponent that is the only one of its magnitude. -/
structure Binary64.Canonical (significand exponent : Nat) : Prop where
  significand_lt : significand < Nat.pow 2 53
  normal : Nat.pow 2 52 ≤ significand ∨ exponent = 0
  exponent_le : exponent ≤ 2045

instance (m p : Nat) : Decidable (Binary64.Canonical m p) :=
  decidable_of_iff (m < Nat.pow 2 53 ∧ (Nat.pow 2 52 ≤ m ∨ p = 0) ∧ p ≤ 2045)
    ⟨fun ⟨a, b, c⟩ => ⟨a, b, c⟩, fun ⟨a, b, c⟩ => ⟨a, b, c⟩⟩

/-- A binary64 number; the two zeros are told apart, and there is one NaN. -/
inductive Binary64 where
  | nan
  | infinite (negative : Bool)
  | finite (negative : Bool) (significand exponent : Nat)
      (canonical : Binary64.Canonical significand exponent)
deriving DecidableEq

namespace Binary64

theorem canonical_zero : Canonical 0 0 := ⟨by decide, .inr rfl, by decide⟩

def zero (negative : Bool) : Binary64 := .finite negative 0 0 canonical_zero

instance : Inhabited Binary64 := ⟨zero false⟩

/-- How many units of `2^-1074` make one. -/
def unitsPerOne : Nat := Nat.pow 2 1074

def magnitudeUnits (significand exponent : Nat) : Nat := significand * Nat.pow 2 exponent

def signed (negative : Bool) (magnitude : Nat) : Int :=
  if negative then -(magnitude : Int) else magnitude

/-- A finite number in units; NaN and the infinities have none. -/
def units? : Binary64 → Option Int
  | .finite negative m p _ => some (signed negative (magnitudeUnits m p))
  | _ => none

def isNaN : Binary64 → Bool
  | .nan => true
  | _ => false

def isInfinite : Binary64 → Bool
  | .infinite _ => true
  | _ => false

def isNegative : Binary64 → Bool
  | .nan => false
  | .infinite negative => negative
  | .finite negative _ _ _ => negative

/-! ## Rounding -/

/-- The integer nearest to `a / d`, the even one of two that are equally near. -/
def roundHalfEven (a d : Nat) : Nat :=
  let quotient := a / d
  let rest := a % d
  if 2 * rest < d then quotient
  else if d < 2 * rest then quotient + 1
  else if quotient % 2 = 0 then quotient else quotient + 1

/-- The least exponent at which `a / d` has a significand below `2^53`. -/
def unitExponent (a d : Nat) : Nat :=
  let guess := a.log2 - (d.log2 + 52)
  if 0 < guess && a < d * Nat.pow 2 (guess + 52) then guess - 1 else guess

/-- The number nearest to `a / d` units; what rounds beyond the largest number is infinite. -/
def ofQuotient (negative : Bool) (a d : Nat) : Binary64 :=
  let p := unitExponent a d
  let rounded := roundHalfEven a (d * Nat.pow 2 p)
  let m := if rounded = Nat.pow 2 53 then Nat.pow 2 52 else rounded
  let q := if rounded = Nat.pow 2 53 then p + 1 else p
  if h : Canonical m q then .finite negative m q h else .infinite negative

def ofInt (i : Int) : Binary64 := ofQuotient (i < 0) (i.natAbs * unitsPerOne) 1

/-- The number nearest to the quotient of two integers, the divisor not being zero. -/
def ofIntQuotient (a b : Int) : Binary64 :=
  ofQuotient ((a < 0) != (b < 0)) (a.natAbs * unitsPerOne) b.natAbs

/-! ## Arithmetic -/

def neg : Binary64 → Binary64
  | .nan => .nan
  | .infinite negative => .infinite !negative
  | .finite negative m p h => .finite (!negative) m p h

def abs : Binary64 → Binary64
  | .nan => .nan
  | .infinite _ => .infinite false
  | .finite _ m p h => .finite false m p h

/-- An exact number of units, rounded; a sum that vanishes takes the sign `zeroSign`. -/
def ofUnits (zeroSign : Bool) (units : Int) : Binary64 :=
  if units = 0 then zero zeroSign else ofQuotient (units < 0) units.natAbs 1

def add : Binary64 → Binary64 → Binary64
  | .nan, _ | _, .nan => .nan
  | .infinite s, .infinite t => if s = t then .infinite s else .nan
  | .infinite s, .finite .. => .infinite s
  | .finite .., .infinite t => .infinite t
  | .finite s m p _, .finite t n q _ =>
    ofUnits (s && t) (signed s (magnitudeUnits m p) + signed t (magnitudeUnits n q))

def sub (x y : Binary64) : Binary64 := add x (neg y)

def mul : Binary64 → Binary64 → Binary64
  | .nan, _ | _, .nan => .nan
  | .infinite s, .infinite t => .infinite (s != t)
  | .infinite s, .finite t n _ _ => if n = 0 then .nan else .infinite (s != t)
  | .finite s m _ _, .infinite t => if m = 0 then .nan else .infinite (s != t)
  | .finite s m p _, .finite t n q _ =>
    ofQuotient (s != t) (magnitudeUnits m p * magnitudeUnits n q) unitsPerOne

/-- The quotient; the caller has excluded a divisor of zero. -/
def div : Binary64 → Binary64 → Binary64
  | .nan, _ | _, .nan => .nan
  | .infinite _, .infinite _ => .nan
  | .infinite s, .finite t _ _ _ => .infinite (s != t)
  | .finite s _ _ _, .infinite t => zero (s != t)
  | .finite s m p _, .finite t n q _ =>
    ofQuotient (s != t) (magnitudeUnits m p * unitsPerOne) (magnitudeUnits n q)

/-! ## Order -/

/-- Where a number lies on the extended line, in units; NaN lies nowhere. -/
inductive Place where
  | belowAll
  | at (units : Int)
  | aboveAll
deriving DecidableEq

def Place.compare : Place → Place → Ordering
  | .belowAll, .belowAll | .aboveAll, .aboveAll => .eq
  | .belowAll, _ | _, .aboveAll => .lt
  | .aboveAll, _ | _, .belowAll => .gt
  | .at a, .at b => Ord.compare a b

def place? : Binary64 → Option Place
  | .nan => none
  | .infinite negative => some (if negative then .belowAll else .aboveAll)
  | .finite negative m p _ => some (.at (signed negative (magnitudeUnits m p)))

/-! ## Integers -/

def floor? (x : Binary64) : Option Int := x.units?.map (· / (unitsPerOne : Int))

def ceil? (x : Binary64) : Option Int := x.units?.map fun u => -((-u) / (unitsPerOne : Int))

def toInt? (x : Binary64) : Option Int :=
  match x.units? with
  | some u => if u % (unitsPerOne : Int) = 0 then some (u / (unitsPerOne : Int)) else none
  | none => none

end Binary64
end Vetting
