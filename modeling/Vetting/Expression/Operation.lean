import Vetting.Error
import Vetting.Value.Literal

/-!
# Operators

What the operators make of their operands. A position is that of the operator.
-/

namespace Vetting.Operation

def failAt {α : Type} (position : Nat) (problem : EvaluationProblem) : Except Failure α :=
  .error (.evaluation problem (some position))

/-- `!` negates truth, every other prefix operator negates a number. -/
def unary (position : Nat) (operator : Text) (operand : Value) : Except Failure Value :=
  if operator = "!" then do
    let truth ← ofFault operand.truthy
    return .boolean !truth
  else
    match operand with
    | .number n => .ok (.number n.neg)
    | v => failAt position (.negationOperand v.describe)

def holds (operator : Text) (order : Ordering) : Bool :=
  if operator = ">" then order == .gt
  else if operator = ">=" then order != .lt
  else if operator = "<" then order == .lt
  else order != .gt

/-- A comparison. Values without an order are an error of the evaluation; a number that is too
large to be compared is a fault. -/
def comparison (position : Nat) (operator : Text) (left right : Value) : Except Failure Value :=
  match left.compare right with
  | .ok order => .ok (.boolean (holds operator order))
  | .error f =>
    if f.kind = .type then failAt position (.comparison operator f.message)
    else .error (.fault f)

/-- Two values of which one is a text and the other a text or a number. -/
def isJoinable (left right : Value) : Bool :=
  (left.isText || left.isNumber) && (right.isText || right.isNumber) && (left.isText || right.isText)

def concatenation (position : Nat) (left right : Value) : Except Failure Value :=
  if isJoinable left right then
    match left.toText, right.toText with
    | .ok a, .ok b => .ok (.text (a ++ b))
    | .error f, _ | _, .error f =>
      if f.kind = .value then failAt position (.unwritableOperand f.message)
      else .error (.fault f)
  else failAt position (.concatenation left.describe right.describe)

/-- The operation on numbers that an operator stands for; an unknown operator divides. -/
def compute (operator : Text) (a b : Number) : Except Fault Number :=
  if operator = "+" then a.add b
  else if operator = "-" then a.sub b
  else if operator = "*" then a.mul b
  else a.div b

def isNaN : Number → Bool
  | .integer _ => false
  | .float x => x.isNaN

def arithmetic (position : Nat) (operator : Text) (a b : Number) : Except Failure Value :=
  if operator = "/" ∧ b.isZero then failAt position .divisionByZero
  else
    match compute operator a b with
    | .error f =>
      if f.kind = .overflow ∨ f.kind = .value then
        failAt position (.outOfRange operator f.message)
      else .error (.fault f)
    | .ok n => if isNaN n then failAt position (.producedNaN operator) else .ok (.number n)

def isRelational (operator : Text) : Bool :=
  operator = ">" || operator = ">=" || operator = "<" || operator = "<="

def binary (position : Nat) (operator : Text) (left right : Value) : Except Failure Value :=
  if operator = "==" then .ok (.boolean (left.equal right))
  else if operator = "!=" then .ok (.boolean !(left.equal right))
  else if isRelational operator then comparison position operator left right
  else
    match left, right with
    | .number a, .number b => arithmetic position operator a b
    | left, right =>
      if operator = "+" then concatenation position left right
      else failAt position (.operands operator left.describe right.describe)

end Vetting.Operation
