import Vetting.Value.Equality
import Vetting.Value.Key
import Vetting.Value.Order

/-!
# Values read as mappings

An object is a mapping; so is a sequence of pairs of a key and a value. A sequence is an array, a
tuple, the keys of an object, a text as its code points, or bytes as numbers.
-/

namespace Vetting.Value

def elements : Value → Except Fault (List Value)
  | array items | tuple items => .ok items
  | text t => .ok (t.points.map fun c => text ⟨[c]⟩)
  | object fields => .ok (fields.map (·.1))
  | foreign (.bytes octets) => .ok (octets.map fun (b : Nat) => integer b)
  | v => .error (.notIterable v.familyTypeName)

/-- The two elements of a pair; the index is that of the pair. -/
def pair (index : Nat) (v : Value) : Except Fault (Value × Value) :=
  match v.elements with
  | .ok [k, w] => .ok (k, w)
  | .ok items => .error (.pairLength index items.length)
  | .error _ => .error (.pairExpected index)

/-- The fields after those already read, from pairs. -/
def fieldsOfPairs (index : Nat) (done : Fields) : List Value → Except Fault Fields
  | [] => .ok done
  | item :: rest => do
    let (k, v) ← pair index item
    k.checkKey
    fieldsOfPairs (index + 1) (done.put k v) rest

def asFields : Value → Except Fault Fields
  | object fields => .ok fields
  | v => do
    let items ← v.elements
    fieldsOfPairs 0 [] items

/-- The fields of a mapping; what counts as nothing has none. -/
def asFieldsOrNone (v : Value) : Except Fault Fields :=
  if v.isSet then v.asFields else .ok []

/-- The value under a name of what must be an object. -/
def get (v : Value) (name : Text) : Except Fault Value :=
  match v with
  | object fields => .ok ((Fields.field? fields name).getD null)
  | _ => .error .missingAttribute

end Vetting.Value
