import Vetting.Value.Equality

/-!
# Order and truth of values

Only two numbers or two texts are ordered; NaN is ordered with nothing. Null, false, zero, NaN,
the empty text and foreign objects without content are false, every other value is true.
-/

namespace Vetting.Value

/-- The order of two values. The test for NaN looks at the left number first and rounds integers,
so an integer beyond the largest binary64 number fails it. -/
def compare : Value → Value → Except Fault Ordering
  | number a, number b => do
    if ← a.testNaN then throw .incomparableNotANumber
    if ← b.testNaN then throw .incomparableNotANumber
    return (Number.compare? a b).getD .eq
  | text a, text b => .ok (Text.compare a b)
  | a, b => .error (.incomparable a.describe b.describe)

/-- The truth of a value. A number other than zero is tested for NaN. -/
def truthy : Value → Except Fault Bool
  | null => .ok false
  | boolean b => .ok b
  | number n =>
    if n.isZero then .ok false
    else do
      let isNaN ← n.testNaN
      return !isNaN
  | text t => .ok !t.isEmpty
  | array _ | tuple _ | object _ => .ok true
  | foreign thing => .ok thing.hasContent
  | host _ | builtin _ | closure .. => .ok true

/-- The truth of a value in a configuration: empty collections are false too, NaN is true. -/
def isSet : Value → Bool
  | null => false
  | boolean b => b
  | number n => !n.isZero
  | text t => !t.isEmpty
  | array items | tuple items => !items.isEmpty
  | object fields => !fields.isEmpty
  | foreign thing => thing.hasContent
  | host _ | builtin _ | closure .. => true

end Vetting.Value
