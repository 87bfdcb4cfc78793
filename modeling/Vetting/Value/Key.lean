import Vetting.Value.Basic

/-!
# Keys of objects

Arrays, objects and sets cannot be keys, nor can tuples that hold them.
-/

namespace Vetting.Value

mutual

/-- The type that keeps a value from being a key, if there is one. -/
def unhashable? : Value → Option Text
  | array _ => some "list"
  | object _ => some "dict"
  | tuple items => unhashableIn? items
  | foreign (.set _) => some "set"
  | _ => none

def unhashableIn? : List Value → Option Text
  | [] => none
  | v :: rest => (unhashable? v).orElse fun _ => unhashableIn? rest

end

def checkKey (v : Value) : Except Fault Unit :=
  match unhashable? v with
  | some typeName => .error (.unhashable typeName)
  | none => .ok ()

end Vetting.Value
