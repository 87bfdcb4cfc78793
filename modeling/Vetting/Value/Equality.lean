import Vetting.Value.Basic

/-!
# Equality of values

`Value.equal` is the equality of expressions and rules: kinds never mix, arrays compare element
by element and objects key by key. `Value.sameKey` is the coarser equality of object keys, for
which a boolean is the integer that it counts as.
-/

namespace Vetting.Value

/-- The number that a value counts as when it is a key. -/
def keyNumber? : Value → Option Number
  | boolean b => some (.integer (if b then 1 else 0))
  | number n => some n
  | _ => none

mutual

def sameKey : Value → Value → Bool
  | null, null => true
  | boolean a, v =>
    match v.keyNumber? with
    | some n => Number.equal (.integer (if a then 1 else 0)) n
    | none => false
  | number m, v =>
    match v.keyNumber? with
    | some n => Number.equal m n
    | none => false
  | text a, text b => a == b
  | array a, array b => sameKeyList a b
  | tuple a, tuple b => sameKeyList a b
  | foreign a, foreign b => a.same b
  | host f, host g => f.handle == g.handle
  | builtin f, builtin g => f == g
  | closure a .., closure b .. => a == b
  | _, _ => false

def sameKeyList : List Value → List Value → Bool
  | [], [] => true
  | a :: as, b :: bs => sameKey a b && sameKeyList as bs
  | _, _ => false

end

end Value

namespace Fields

def get? (fields : Fields) (key : Value) : Option Value :=
  match fields with
  | [] => none
  | (k, v) :: rest => if k.sameKey key then some v else get? rest key

def field? (fields : Fields) (name : Text) : Option Value := get? fields (.text name)

def has (fields : Fields) (key : Value) : Bool := (get? fields key).isSome

/-- The fields with one key set; a key that is present keeps its place. -/
def put (fields : Fields) (key value : Value) : Fields :=
  match fields with
  | [] => [(key, value)]
  | (k, v) :: rest => if k.sameKey key then (k, value) :: rest else (k, v) :: put rest key value

/-- The fields of `changes` set over those of `fields`, one after the other. -/
def putAll (fields changes : Fields) : Fields :=
  changes.foldl (fun acc change => put acc change.1 change.2) fields

def ofNamed (named : List (Text × Value)) : Fields :=
  named.map fun field => (.text field.1, field.2)

end Fields

namespace Value

mutual

def equal : Value → Value → Bool
  | null, null => true
  | boolean a, boolean b => a == b
  | number a, number b => Number.equal a b
  | text a, text b => a == b
  | array a, v =>
    match v.items? with
    | some b => equalList a b
    | none => false
  | tuple a, v =>
    match v.items? with
    | some b => equalList a b
    | none => false
  | object a, object b => a.length == b.length && equalFields a b
  | foreign a, foreign b => a.same b
  | host f, host g => f.handle == g.handle
  | builtin f, builtin g => f == g
  | closure a .., closure b .. => a == b
  | _, _ => false

def equalList : List Value → List Value → Bool
  | [], [] => true
  | a :: as, b :: bs => equal a b && equalList as bs
  | _, _ => false

/-- Whether every field has an equal value under its key on the right. -/
def equalFields : Fields → Fields → Bool
  | [], _ => true
  | (k, v) :: rest, right =>
    (match right.get? k with
      | some w => equal v w
      | none => false) && equalFields rest right

end

end Vetting.Value
