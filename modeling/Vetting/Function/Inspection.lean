import Vetting.Function.Argument
import Vetting.Text.Blank

/-!
# Functions that ask what a value is
-/

namespace Vetting.Inspection

/-- Null, blank texts and empty collections are empty. -/
def isEmpty : Value → Bool
  | .null => true
  | .text t => t.trim.isEmpty
  | .array items | .tuple items => items.isEmpty
  | .object fields => fields.isEmpty
  | _ => false

def isNumber : Value → Except Fault Bool
  | .number n => do
    let isNaN ← n.testNaN
    return !isNaN
  | _ => .ok false

def isBoolean : Value → Bool
  | .boolean _ => true
  | _ => false

def isArray (v : Value) : Bool := v.items?.isSome

end Vetting.Inspection
