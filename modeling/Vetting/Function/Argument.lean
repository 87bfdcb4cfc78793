import Vetting.Error

/-!
# Arguments of built-in functions

What the built-in functions ask of their arguments. A variadic function takes its values one by
one or as a single array.
-/

namespace Vetting.Argument

/-- The values of a variadic call: a single array stands for its elements. -/
def spread : List Value → List Value
  | [.array items] => items
  | [.tuple items] => items
  | arguments => arguments

theorem spread_cons_cons (v w : Value) (rest : List Value) : spread (v :: w :: rest) = v :: w :: rest := by
  cases v <;> rfl

def number (function : Text) : Value → Except Fault Number
  | .number n => .ok n
  | v => .error (.argument (.numberExpected function v.describe))

def numbersOf (function : Text) : List Value → Except Fault (List Number)
  | [] => .ok []
  | .number n :: rest => do
    let others ← numbersOf function rest
    return n :: others
  | v :: _ => .error (.argument (.numbersExpected function v.describe))

def numbers (function : Text) (arguments : List Value) : Except Fault (List Number) :=
  numbersOf function (spread arguments)

def array (function : Text) (v : Value) : Except Fault (List Value) :=
  match v.items? with
  | some items => .ok items
  | none => .error (.argument (.arrayExpected function v.describe))

def text (function : Text) : Value → Except Fault Text
  | .text t => .ok t
  | v => .error (.argument (.textExpected function v.describe))

def predicate (function : Text) (v : Value) : Except Fault Value :=
  if v.isCallable then .ok v else .error (.argument (.predicateExpected function))

end Vetting.Argument
