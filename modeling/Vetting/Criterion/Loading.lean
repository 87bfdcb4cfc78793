import Vetting.Criterion.Basic
import Vetting.Function.Registry
import Vetting.Session

/-!
# Criteria from documents

A document is a list of criteria, or an object that holds one under `criteria`. A criterion's
custom rules carry expressions over the name `value`. All expressions are parsed here, so that
an error in one is an error of the document.
-/

namespace Vetting.Criterion.Loading

variable {σ : Type}

def expressionFailure (what : Text) (id : Text) (expression : Value) (e : ExpressionError) :
    Failure :=
  .configuration ("Invalid " ++ what ++ " expression for criterion '" ++ id ++ "': " ++ e.message)
    [("criterion_id", .text id), ("expression", expression)]

def parseExpression (what : Text) (id : Text) (expression : Value) : Engine σ Node := do
  match ← Engine.attempt (Engine.parse expression) with
  | .ok tree => return tree
  | .error (.engine (.expression e)) => throw (expressionFailure what id expression e)
  | .error e => throw e

/-! ## Rules -/

def ruleExpression? (data : Value) : Option (Fields × Value) :=
  match data with
  | .object fields =>
    match Fields.field? fields "type", Fields.field? fields "expression" with
    | some (.text kind), some expression =>
      if kind = "custom" then some (fields, expression) else none
    | _, _ => none
  | _ => none

/-- The data of a custom rule without its expression, which describes the rule unless something
else does. -/
def ruleFields (fields : Fields) (expression : Value) : Fields :=
  let fields := fields.filter fun field => !field.1.sameKey (.text "expression")
  if Fields.has fields (.text "description") then fields
  else Fields.put fields (.text "description") expression

/-- Data of a rule whose expression is parsed: the value, or the fields and the validator. -/
inductive RuleData where
  | plain (v : Value)
  | custom (fields : Fields) (validator : Validator)

def RuleData.rule : RuleData → Except Failure Rule
  | plain v => Rule.ofValue v
  | custom fields validator => Rule.ofFields fields (some validator)

/-- Parses the expression of a rule; its validator sees these functions. -/
def ruleData (functions : Scope) (id : Text) (data : Value) : Engine σ RuleData := do
  match ruleExpression? data with
  | none => return .plain data
  | some (fields, expression) =>
    let tree ← parseExpression "custom rule" id expression
    let source := match expression with
      | .text t => t
      | _ => ""
    return .custom (ruleFields fields expression) (.expression source tree (some functions))

def rulesData (functions : Scope) (id : Text) : List Value → Engine σ (List RuleData)
  | [] => pure []
  | data :: rest => do
    let first ← ruleData functions id data
    let others ← rulesData functions id rest
    return first :: others

def rules : List RuleData → Except Failure (List Rule)
  | [] => .ok []
  | data :: rest => do
    let first ← data.rule
    let others ← rules rest
    return first :: others

/-! ## Criteria -/

def knownKeys : List Text := ["id", "name", "derive", "rules"]

def unknownKeys (fields : Fields) : List Value :=
  (fields.map (·.1)).filter fun key =>
    match key with
    | .text name => !decide (name ∈ knownKeys)
    | _ => true

/-- The order of two keys: numbers and booleans by their value, texts by code points, and foreign
objects by their own order. -/
def keyOrder (a b : Value) : Except Fault Ordering :=
  match a, b with
  | .text s, .text t => .ok (Text.compare s t)
  | .foreign x, .foreign y => x.compare y
  | a, b =>
    match a.keyNumber?, b.keyNumber? with
    | some m, some n => .ok ((Number.compare? m n).getD .eq)
    | _, _ => .error (.unordered "<" a.familyTypeName b.familyTypeName)

/-- Fails at the first two neighbours without an order. -/
def checkOrder : List Value → Except Fault Unit
  | a :: b :: rest => do
    let _ ← keyOrder b a
    checkOrder (b :: rest)
  | _ => .ok ()

def keyLeq (a b : Value) : Bool :=
  match keyOrder a b with
  | .ok .gt => false
  | _ => true

/-- The keys in order, if they have one. -/
def sortedKeys (keys : List Value) : Except Fault (List Value) := do
  checkOrder keys
  return keys.mergeSort keyLeq

def checkKeys (id : Text) (fields : Fields) : Except Failure Unit :=
  let unknown := unknownKeys fields
  if unknown.isEmpty then .ok ()
  else do
    let sorted ← ofFault (sortedKeys unknown)
    let shown ← ofFault (Value.array sorted).inspect
    throw (.configuration ("Criterion '" ++ id ++ "' has unknown keys: " ++ shown)
      [("criterion_id", .text id)])

/-- The id of a criterion, which must be a text that is not empty. -/
def idOf (index : Nat) (fields : Fields) : Except Failure Text :=
  match fields.field? "id" with
  | some (.text t) =>
    if t.isEmpty then missing else .ok t
  | _ => missing
where
  missing : Except Failure Text :=
    .error (.configuration ("Criterion #" ++ Text.ofNat index ++ " has no id")
      [("index", .integer index)])

def checkDerivation (id : Text) (derivation : Value) : Engine σ Unit :=
  match derivation with
  | .null => pure ()
  | .text t => do
    let _ ← parseExpression "derive" id (.text t)
  | _ => throw (.configuration
      ("Criterion '" ++ id ++ "': derive must be an expression string")
      [("criterion_id", .text id)])

def ruleList (id : Text) (rules : Value) : Except Failure (List Value) :=
  if !rules.isSet then .ok []
  else
    match rules with
    | .array items => .ok items
    | _ => .error (.configuration ("Criterion '" ++ id ++ "': rules must be a list")
        [("criterion_id", .text id)])

def criterion (functions : Scope) (index : Nat) (data : Value) : Engine σ Criterion :=
  match data with
  | .object fields => do
    let get (name : Text) : Value := (Fields.field? fields name).getD .null
    let id ← Engine.ofResult (idOf index fields)
    Engine.ofResult (checkKeys id fields)
    checkDerivation id (get "derive")
    let list ← Engine.ofResult (ruleList id (get "rules"))
    let parsed ← rulesData functions id list
    let rules ← Engine.ofResult (rules parsed)
    return ⟨.text id, get "name", get "derive", rules⟩
  | v => throw (.configuration
      ("Criterion #" ++ Text.ofNat index ++ " must be a mapping, got " ++ v.typeName)
      [("index", .integer index)])

def criteriaFrom (functions : Scope) (index : Nat) : List Value → Engine σ (List Criterion)
  | [] => pure []
  | data :: rest => do
    let first ← criterion functions index data
    let others ← criteriaFrom functions (index + 1) rest
    return first :: others

end Loading

def loadingRegistry : Text := "config"

/-- The criteria of a document. Its expressions see the built-ins and these functions. -/
def ofDocument {σ : Type} (document : Value) (functions : List (Text × Value)) :
    Engine σ (List Criterion) := do
  let list := match document with
    | .object fields => (Fields.field? fields "criteria").getD .null
    | v => v
  match list with
  | .array items =>
    let registry ← Engine.ofResult ((Registry.builtins loadingRegistry).addAll functions)
    Loading.criteriaFrom registry.functions 0 items
  | _ => throw (.configuration "'criteria' must be a list of criterion definitions" [])

end Vetting.Criterion
