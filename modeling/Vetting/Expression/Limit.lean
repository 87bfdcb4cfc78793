import Vetting.Value.Order
import Vetting.Value.Display

/-!
# Limits of expressions

An expression may not be longer or more deeply nested than its limits. A limit is configured as
any value; only a number can be compared with.
-/

namespace Vetting

/-- An upper bound, and how messages write it. Without a bound nothing exceeds the limit. -/
structure Limit where
  bound : Option Int
  label : Text
deriving DecidableEq

namespace Limit

def exceededBy (limit : Limit) (n : Nat) : Bool :=
  match limit.bound with
  | some bound => bound < n
  | none => false

/-- The bound that a number stands for: an integer exceeds a number when it exceeds its floor. -/
def boundOfFloat (x : Binary64) : Option Int :=
  match x.floor? with
  | some i => some i
  | none => if x.isNaN then none else if x.isNegative then some (-1) else none

/-- The limit that a configured value stands for. -/
def ofValue (v : Value) : Except Fault Limit :=
  let label := v.display.toOption.getD ""
  match v with
  | .number (.integer i) => .ok ⟨some i, label⟩
  | .number (.float x) => .ok ⟨boundOfFloat x, label⟩
  | .boolean b => .ok ⟨some (if b then 1 else 0), label⟩
  | v => .error (.unordered ">" "int" v.familyTypeName)

def ofNat (n : Nat) : Limit := ⟨some n, Text.ofNat n⟩

@[simp] theorem exceededBy_ofNat (n m : Nat) : (ofNat n).exceededBy m = decide (n < m) := by
  simp [exceededBy, ofNat]

end Limit

/-- The configured limits of an expression. -/
structure Limits where
  depth : Value
  length : Value

/-- How deep the host can nest: parsing in levels of the grammar, evaluation in nodes and calls. -/
structure Capacity where
  parsing : Nat := 1000
  evaluation : Nat := 450

end Vetting
