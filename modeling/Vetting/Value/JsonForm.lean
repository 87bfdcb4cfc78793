import Vetting.Value.Display

/-!
# What JSON keeps of a value

The value that reading a value's JSON text gives back: tuples are arrays, keys are texts, and
what has no JSON form is the text that displays it.
-/

namespace Vetting.Value

mutual

def jsonForm : Value → Except Fault Value
  | null => .ok null
  | boolean b => .ok (boolean b)
  | number n => do
    let _ ← jsonNumber n
    return number n
  | text t => .ok (text t)
  | array items => do
    let items ← jsonFormList items
    return array items
  | tuple items => do
    let items ← jsonFormList items
    return array items
  | object fields => do
    let fields ← jsonFormFields [] fields
    return object fields
  | foreign thing => .ok (text thing.display)
  | host f => (inspect (host f)).map text
  | builtin b => (inspect (builtin b)).map text
  | closure a p x b s => (inspect (closure a p x b s)).map text

def jsonFormList : List Value → Except Fault (List Value)
  | [] => .ok []
  | v :: vs => do
    let first ← jsonForm v
    let rest ← jsonFormList vs
    return first :: rest

/-- The fields after those already converted; of two equal keys the later one counts. -/
def jsonFormFields (done : Fields) : Fields → Except Fault Fields
  | [] => .ok done
  | (k, v) :: rest => do
    let key ← jsonKey k
    let value ← jsonForm v
    jsonFormFields (done.put (text key) value) rest

end

end Vetting.Value
