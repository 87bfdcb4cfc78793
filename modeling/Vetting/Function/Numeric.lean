import Vetting.Function.Argument

/-!
# Functions on numbers
-/

namespace Vetting.Numeric

/-- The sum, from left to right, starting with the integer zero. -/
def total (numbers : List Number) : Except Fault Number :=
  numbers.foldlM Number.add (.integer 0)

def mean (numbers : List Number) : Except Fault Number := do
  let sum ← total numbers
  sum.div (.integer numbers.length)

/-- The first number that no later one is greater than. -/
def largest (first : Number) (rest : List Number) : Number :=
  rest.foldl (fun best n => if Number.less best n then n else best) first

/-- The first number that no later one is less than. -/
def smallest (first : Number) (rest : List Number) : Number :=
  rest.foldl (fun best n => if Number.less n best then n else best) first

def sum (arguments : List Value) : Except Fault Value := do
  let numbers ← Argument.numbers "sum" arguments
  let result ← total numbers
  return .number result

def onNumbers (function : Text) (operation : Number → List Number → Except Fault Number)
    (arguments : List Value) : Except Fault Value := do
  match ← Argument.numbers function arguments with
  | [] => throw (.argument (.noNumbers function))
  | first :: rest =>
    let result ← operation first rest
    return .number result

def avg : List Value → Except Fault Value := onNumbers "avg" fun first rest => mean (first :: rest)

def max : List Value → Except Fault Value := onNumbers "max" fun first rest => .ok (largest first rest)

def min : List Value → Except Fault Value := onNumbers "min" fun first rest => .ok (smallest first rest)

def abs (v : Value) : Except Fault Value := do
  let n ← Argument.number "abs" v
  return .number n.abs

def toInteger (function : Text) (operation : Number → Except Fault Int) (v : Value) :
    Except Fault Value := do
  let n ← Argument.number function v
  let i ← operation n
  return .integer i

def round : Value → Except Fault Value := toInteger "round" Number.round
def ceil : Value → Except Fault Value := toInteger "ceil" Number.ceil
def floor : Value → Except Fault Value := toInteger "floor" Number.floor

end Vetting.Numeric
