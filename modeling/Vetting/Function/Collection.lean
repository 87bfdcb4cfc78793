import Vetting.Function.Argument
import Vetting.Function.Script

/-!
# Functions on arrays

`filter`, `any` and `all` call their predicate on one element after the other; `any` and `all`
stop at the first element that decides.
-/

namespace Vetting.Collection

def count (v : Value) : Except Fault Value := do
  let items ← Argument.array "count" v
  return .integer items.length

/-- The elements after those already kept that equal none kept before them. -/
def distinctAfter (kept : List Value) : List Value → List Value
  | [] => []
  | v :: rest =>
    if kept.any fun seen => Value.equal v seen then distinctAfter kept rest
    else v :: distinctAfter (kept ++ [v]) rest

/-- The first of each group of equal elements. -/
def distinct (items : List Value) : List Value := distinctAfter [] items

def unique (v : Value) : Except Fault Value := do
  let items ← Argument.array "unique" v
  return .array (distinct items)

variable {σ : Type}

def holds (predicate item : Value) : Script σ Bool := do
  let verdict ← Script.apply predicate [item]
  Script.ofResult verdict.truthy

def keep (test : Value → Script σ Bool) : List Value → Script σ (List Value)
  | [] => pure []
  | v :: rest => do
    let kept ← test v
    let others ← keep test rest
    return if kept then v :: others else others

def someOf (test : Value → Script σ Bool) : List Value → Script σ Bool
  | [] => pure false
  | v :: rest => do
    if ← test v then return true else someOf test rest

def everyOf (test : Value → Script σ Bool) : List Value → Script σ Bool
  | [] => pure true
  | v :: rest => do
    if ← test v then everyOf test rest else return false

def filter (v predicate : Value) : Script σ Value := do
  let predicate ← Script.ofResult (Argument.predicate "filter" predicate)
  let items ← Script.ofResult (Argument.array "filter" v)
  let kept ← keep (holds predicate) items
  return .array kept

/-- The test of a predicate; without one an element is tested itself. -/
def testOf (function : Text) (predicate : Value) : Except Fault (Value → Script σ Bool) :=
  match predicate with
  | .null => .ok fun v => Script.ofResult v.truthy
  | predicate => do
    let predicate ← Argument.predicate function predicate
    return holds predicate

def any (v predicate : Value) : Script σ Value := do
  let items ← Script.ofResult (Argument.array "any" v)
  let test ← Script.ofResult (testOf "any" predicate)
  let result ← someOf test items
  return .boolean result

def all (v predicate : Value) : Script σ Value := do
  let items ← Script.ofResult (Argument.array "all" v)
  let test ← Script.ofResult (testOf "all" predicate)
  let result ← everyOf test items
  return .boolean result

end Vetting.Collection
