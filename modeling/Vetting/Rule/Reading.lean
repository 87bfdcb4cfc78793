import Vetting.Error
import Vetting.Rule.Basic

/-!
# Rules from data

A rule is read from an object whose field `type` names its kind. Every field of the kind is
checked, then every further field; the message of a rule that cannot be read is the first problem,
and its details count all of them.
-/

namespace Vetting

/-- What can be wrong with the data of a rule. -/
inductive RuleProblem where
  | noType
  | unknownType (shown : Text)
  | missing
  | notInteger
  | notNumber
  | notList
  | notText
  | notCallable
  | unsupportedValue (found : Text)
  | extraField
  | keyNotText
deriving DecidableEq

namespace RuleProblem

def quotedList (names : List Text) : Text :=
  Text.join ", " (names.map fun name => "'" ++ name ++ "'")

def message : RuleProblem → Text
  | noType => "Unable to extract tag using discriminator 'type'"
  | unknownType shown =>
    "Input tag '" ++ shown ++ "' found using 'type' does not match any of the expected tags: "
      ++ quotedList Rule.names
  | missing => "Field required"
  | notInteger => "Input should be a valid integer"
  | notNumber => "Input should be a valid number"
  | notList => "Input should be a valid list"
  | notText => "Input should be a valid string"
  | notCallable => "Input should be callable"
  | unsupportedValue found => "Value error, unsupported value of type " ++ found
  | extraField => "Extra inputs are not permitted"
  | keyNotText => "Keys should be strings"

end RuleProblem

namespace Rule.Reading

/-- A field that was read, or the problems with it. -/
abbrev Field (α : Type) := Except (List RuleProblem) α

def problemsOf {α : Type} : Field α → List RuleProblem
  | .ok _ => []
  | .error problems => problems

def required {α : Type} (read : Value → Field α) (fields : Fields) (name : Text) : Field α :=
  match fields.field? name with
  | some v => read v
  | none => .error [.missing]

/-- A number; anything else is wrong both as an integer and as a float. -/
def number : Value → Field Number
  | .number n => .ok n
  | _ => .error [.notInteger, .notNumber]

/-- The normal form of a model value. -/
def modelValue (v : Value) : Field Value :=
  if v.isModel then
    match v.normalize with
    | .ok normal => .ok normal
    | .error _ => .ok v
  else .error [.unsupportedValue v.describe]

def modelValues : List Value → Field (List Value)
  | [] => .ok []
  | v :: rest => do
    let first ← modelValue v
    let others ← modelValues rest
    return first :: others

def values (v : Value) : Field (List Value) :=
  match v.items? with
  | some items => modelValues items
  | none => .error [.notList]

def text : Value → Field Text
  | .text t => .ok t
  | _ => .error [.notText]

def validator (v : Value) : Field Validator :=
  if v.isCallable then .ok (.function v) else .error [.notCallable]

/-- The problems with fields beyond the type and the given names. -/
def extraProblems (names : List Text) (fields : Fields) : List RuleProblem :=
  fields.filterMap fun field =>
    match field.1 with
    | .text name => if name = "type" ∨ name ∈ names then none else some .extraField
    | _ => some .keyNotText

/-- A rule of one field. -/
def one {α : Type} (field : Field α) (extra : List RuleProblem) (make : α → Rule) : Field Rule :=
  match field, extra with
  | .ok a, [] => .ok (make a)
  | field, extra => .error (problemsOf field ++ extra)

def two {α β : Type} (first : Field α) (second : Field β) (extra : List RuleProblem)
    (make : α → β → Rule) : Field Rule :=
  match first, second, extra with
  | .ok a, .ok b, [] => .ok (make a b)
  | first, second, extra => .error (problemsOf first ++ problemsOf second ++ extra)

def compared (relation : Relation) (fields : Fields) : Field Rule :=
  one (required number fields "value") (extraProblems ["value"] fields) (.compared relation)

def ofType (type : TypeRule) (fields : Fields) : Field Rule :=
  one (.ok ()) (extraProblems [] fields) fun _ => .ofType type

/-- A rule of a kind. A custom rule may bring its validator with it. -/
def ofKind (kind : Text) (fields : Fields) (given : Option Validator) : Field Rule :=
  if kind = "exists" then one (.ok ()) (extraProblems [] fields) fun _ => .exists
  else if kind = "in" then
    one (required values fields "values") (extraProblems ["values"] fields) .oneOf
  else if kind = "includes" then
    one (required values fields "values") (extraProblems ["values"] fields) .includes
  else if kind = "between" then
    two (required number fields "min") (required number fields "max")
      (extraProblems ["min", "max"] fields) .between
  else if kind = "number" then ofType .number fields
  else if kind = "string" then ofType .string fields
  else if kind = "boolean" then ofType .boolean fields
  else if kind = "array" then ofType .array fields
  else if kind = "gt" then compared .greater fields
  else if kind = "gte" then compared .atLeast fields
  else if kind = "lt" then compared .less fields
  else if kind = "lte" then compared .atMost fields
  else if kind = "eq" then
    one (match fields.field? "value" with
        | some v => modelValue v
        | none => .ok .null)
      (extraProblems ["value"] fields) .equals
  else if kind = "custom" then
    two (match given with
        | some v => .ok v
        | none => required validator fields "validator")
      (match fields.field? "description" with
        | some v => text v
        | none => .ok "")
      (extraProblems ["validator", "description"] fields) .custom
  else .error [.unknownType kind]

def ofFields (fields : Fields) (given : Option Validator) : Field Rule :=
  match fields.field? "type" with
  | none => .error [.noType]
  | some (.text kind) => ofKind kind fields given
  | some v => .error [.unknownType (v.display.toOption.getD "")]

/-- The error of rule data with problems. The validator is left out of the details. -/
def failure (fields : Fields) (problems : List RuleProblem) : Failure :=
  match ((fields.field? "type").getD .null).inspect with
  | .error f => .fault f
  | .ok shown =>
    let first := (problems.head?.map RuleProblem.message).getD ""
    .configuration ("Invalid rule " ++ shown ++ ": " ++ first) [
      ("rule", .object (fields.filter fun field => !field.1.sameKey (.text "validator"))),
      ("errors", .integer problems.length)]

end Reading

/-- The rule that fields describe; `given` is the validator of a custom rule that brings one. -/
def ofFields (fields : Fields) (given : Option Validator) : Except Failure Rule :=
  (Reading.ofFields fields given).mapError (Reading.failure fields)

def ofValue : Value → Except Failure Rule
  | .object fields => ofFields fields none
  | v => .error (.configuration ("Rule must be a mapping, got " ++ v.typeName) [])

def ofValues : List Value → Except Failure (List Rule)
  | [] => .ok []
  | v :: rest => do
    let first ← ofValue v
    let others ← ofValues rest
    return first :: others

/-- The rules that a value describes; null describes none. -/
def listOfValue (v : Value) : Except Failure (List Rule) :=
  match v with
  | .null => .ok []
  | v =>
    match v.items? with
    | some items => ofValues items
    | none => .error (.configuration ("Rules must be a list, got " ++ v.typeName) [])

end Rule
end Vetting
