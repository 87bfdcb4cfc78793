import Vetting.Expression.Operation
import Vetting.Expression.Source
import Vetting.Function.Behaviour
import Vetting.Value.Mapping

/-!
# Evaluation

A tree is evaluated in a scope, which binds lambda parameters and the fields of the record, over
the functions that are known by name. The functions of the host run as scripts; while they run
they may change the state of the host.

How deep an evaluation may nest is given by a budget. Running out of it is a failure of its own,
which no function can catch.
-/

namespace Vetting

/-- The functions of the host, and the instant at which the evaluation takes place. -/
structure Host (σ : Type) where
  behaviour : HostFunction → List Value → Script σ Value
  instant : Int

/-- What changes during an evaluation: the state of the host, and how many closures there are. -/
structure Machine (σ : Type) where
  state : σ
  closures : Nat

/-- A computation that may fail. -/
abbrev Evaluation (σ α : Type) := ExceptT Failure (StateM (Machine σ)) α

namespace Evaluation

variable {σ α : Type}

def ofResult (result : Except Failure α) : Evaluation σ α := ExceptT.mk (pure result)

def attempt (m : Evaluation σ α) : Evaluation σ (Except Failure α) :=
  ExceptT.mk (Except.ok <$> m.run)

def fail (problem : EvaluationProblem) (position : Nat) : Evaluation σ α :=
  throw (.evaluation problem (some position))

end Evaluation

def Script.run {σ α : Type} (call : Value → List Value → Evaluation σ Value) :
    Script σ α → Evaluation σ α
  | .finish result => Evaluation.ofResult result
  | .call callee arguments resume => do
    match ← (call callee arguments).attempt with
    | .error .exhausted => throw .exhausted
    | result => (resume result).run call
  | .read resume => do
    let machine ← get
    (resume machine.state).run call
  | .write state rest => do
    modify fun machine => { machine with state := state }
    rest.run call

/-- What an evaluation is given: the host and the functions known by name. -/
structure Context (σ : Type) where
  host : Host σ
  functions : Scope

namespace Evaluation

variable {σ : Type}

/-- The value of a name: the innermost binding, or else the function of that name. -/
def lookup? (context : Context σ) (scope : Scope) (name : Text) : Option Value :=
  (scope.lookup name).orElse fun _ => context.functions.lookup name

def lookup (context : Context σ) (scope : Scope) (name : Text) (position : Nat) :
    Evaluation σ Value :=
  match lookup? context scope name with
  | some v => pure v
  | none => fail (.unknownIdentifier name) position

def spread (context : Context σ) (scope : Scope) (name : Text) (position : Nat) :
    Evaluation σ (List Value) := do
  let v ← lookup context scope name position
  match v.items? with
  | some items => pure items
  | none => fail (.cannotSpread name v.describe) position

def newClosure (position : Nat) (parameter : Text) (body : Node) (scope : Scope) :
    Evaluation σ Value := do
  let machine ← get
  set { machine with closures := machine.closures + 1 }
  return .closure machine.closures position parameter body scope

/-- What a failure inside a called function becomes: errors of expressions and the end of the
budget stay as they are. -/
def callFailure (name : Text) (position : Nat) : Failure → Failure
  | .exhausted => .exhausted
  | .engine (.expression e) => .engine (.expression e)
  | e => .evaluation (.functionFailed name e.message) (some position)

/-- A tuple that a function returns is an array. -/
def untuple : Value → Value
  | .tuple items => .array items
  | v => v

def callResult (name : Text) (position : Nat) : Except Failure Value → Except Failure Value
  | .error e => .error (callFailure name position e)
  | .ok v =>
    let v := untuple v
    if v.isModel || v.isCallable then .ok v
    else .error (.evaluation (.unsupportedResult name v.describe) (some position))

section Step

variable (context : Context σ) (below : Node → Scope → Evaluation σ Value)
  (call : Value → List Value → Evaluation σ Value)

def items (scope : Scope) : List Node → Evaluation σ (List Value)
  | [] => pure []
  | node :: rest => do
    let first ← below node scope
    let others ← items scope rest
    return first :: others

def arguments (scope : Scope) : List Node → Evaluation σ (List Value)
  | [] => pure []
  | .spread position name :: rest => do
    let first ← spread context scope name position
    let others ← arguments scope rest
    return first ++ others
  | node :: rest => do
    let first ← below node scope
    let others ← arguments scope rest
    return first :: others

/-- The value of a node, where `below` evaluates nodes inside it and `call` calls functions. -/
def step (node : Node) (scope : Scope) : Evaluation σ Value :=
  match node with
  | .literal _ v => pure v
  | .identifier position name => lookup context scope name position
  | .array _ nodes => do
    let values ← items below scope nodes
    return .array values
  | .spread position name => do
    let values ← spread context scope name position
    return .array values
  | .lambda position parameter body => newClosure position parameter body scope
  | .call position name nodes => do
    let callee ← lookup context scope name position
    if !callee.isCallable then fail (.notAFunction name) position
    let values ← arguments context below scope nodes
    let outcome ← (call callee values).attempt
    ofResult (callResult name position outcome)
  | .unary position operator operand => do
    let v ← below operand scope
    ofResult (Operation.unary position operator v)
  | .binary position operator left right => do
    let a ← below left scope
    let b ← below right scope
    ofResult (Operation.binary position operator a b)
  | .logical _ operator left right => do
    let v ← below left scope
    let truth ← ofResult (ofFault v.truthy)
    if truth == (operator == "&&") then below right scope else return v
  | .bare position => fail (.unsupportedNode node.form) position

end Step

mutual

def evaluate (context : Context σ) : Nat → Node → Scope → Evaluation σ Value
  | 0, _, _ => throw .exhausted
  | budget + 1, node, scope => step context (evaluate context budget) (call context budget) node scope

/-- The result of calling a value. A closure takes exactly one argument. -/
def call (context : Context σ) : Nat → Value → List Value → Evaluation σ Value
  | 0, _, _ => throw .exhausted
  | budget + 1, callee, arguments =>
    match callee with
    | .host f => (context.host.behaviour f arguments).run (call context budget)
    | .builtin b => (b.script context.host.instant arguments).run (call context budget)
    | .closure _ position parameter body scope =>
      match arguments with
      | [argument] => evaluate context budget body ((parameter, argument) :: scope)
      | _ => fail (.lambdaArity parameter arguments.length) position
    | v => throw (.fault (.notCallable v.familyTypeName))

end

/-! ## Records -/

def scopeOf (fields : Fields) : Scope :=
  fields.filterMap fun field =>
    match field.1 with
    | .text name => some (name, field.2)
    | _ => none

/-! ## Whole expressions -/

/-- A failure as it leaves the evaluation of a text: errors learn the text. -/
def settle (source : Option Text) : Failure → Failure
  | .exhausted => .engine (.expression { ExpressionError.ofEvaluation .exhausted none with source })
  | .engine (.expression e) => .engine (.expression (e.within source))
  | e => e

/-- The result of an evaluation must be a model value, and is normalised. -/
def conclude (source : Option Text) (v : Value) : Except Failure Value :=
  if v.isModel then ofFault v.normalize
  else
    let e := ExpressionError.ofEvaluation (.unsupportedValue v.describe) none
    .error (.engine (.expression { e with source }))

end Evaluation

namespace Expression

variable {σ : Type}

/-- The value of a tree over a record, with the state of the host before and after, by an evaluation
that nests up to `capacity`. -/
def evaluateTree (capacity : Nat) (context : Context σ) (tree : Node) (record : Value)
    (source : Option Text) (state : σ) : Except Failure Value × σ :=
  match record.asFieldsOrNone with
  | .error f => (.error (.fault f), state)
  | .ok fields =>
    let (outcome, machine) :=
      (Evaluation.evaluate context capacity tree (Evaluation.scopeOf fields)).run ⟨state, 0⟩
    let result := match outcome with
      | .ok v => Evaluation.conclude source v
      | .error e => .error (Evaluation.settle source e)
    (result, machine.state)

end Expression
end Vetting
