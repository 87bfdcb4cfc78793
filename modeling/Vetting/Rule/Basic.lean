import Vetting.Value.Display
import Vetting.Value.Equality

/-!
# Rules

A rule is a condition on the value of a criterion. Each kind of rule has a name, which rule data
and error maps use, and a key under which catalogs hold its message.
-/

namespace Vetting

/-- The kinds of values that a rule can ask for. -/
inductive TypeRule where
  | number | string | boolean | array
deriving DecidableEq

/-- How a rule compares a number with its own. -/
inductive Relation where
  | greater | atLeast | less | atMost
deriving DecidableEq

/-- What decides a custom rule: a function, or an expression over the name `value`. -/
inductive Validator where
  | function (f : Value)
  /-- An expression with its tree. The functions are those that it was loaded with; without
  them it sees the functions of the resolver that uses it. -/
  | expression (source : Text) (tree : Node) (functions : Option Scope)

inductive Rule where
  | exists
  | oneOf (values : List Value)
  | includes (values : List Value)
  | between (least most : Number)
  | ofType (type : TypeRule)
  | compared (relation : Relation) (bound : Number)
  | equals (value : Value)
  | custom (validator : Validator) (description : Text)
  /-- An object that is no rule. -/
  | unknown (object : Value)

def TypeRule.name : TypeRule → Text
  | number => "number"
  | string => "string"
  | boolean => "boolean"
  | array => "array"

def Relation.name : Relation → Text
  | greater => "gt"
  | atLeast => "gte"
  | less => "lt"
  | atMost => "lte"

namespace Rule

def name : Rule → Text
  | .exists => "exists"
  | oneOf _ => "in"
  | includes _ => "includes"
  | between .. => "between"
  | ofType type => type.name
  | compared relation _ => relation.name
  | equals _ => "eq"
  | custom .. => "custom"
  | unknown _ => ""

/-- The names of all kinds, in the order in which messages list them. -/
def names : List Text :=
  ["exists", "in", "includes", "between", "number", "string", "boolean", "array",
   "gt", "gte", "lt", "lte", "eq", "custom"]

/-- The catalog key of the message of a rule that does not hold. -/
def messageKey : Rule → Text
  | .exists => "errors.criteriaExists"
  | oneOf _ => "errors.criteriaIn"
  | includes _ => "errors.criteriaIncludes"
  | between .. => "errors.betweenRange"
  | ofType .number => "errors.numberType"
  | ofType .string => "errors.stringType"
  | ofType .boolean => "errors.booleanType"
  | ofType .array => "errors.criteriaArray"
  | compared .greater _ => "errors.greaterThan"
  | compared .atLeast _ => "errors.greaterThanEqual"
  | compared .less _ => "errors.lessThan"
  | compared .atMost _ => "errors.lessThanEqual"
  | equals _ => "errors.equalTo"
  | custom .. => "errors.customValidationFailed"
  | unknown _ => "errors.unknown"

/-- The parameters of the message of a rule. Lists of values are written as JSON. -/
def messageParameters (rule : Rule) (criterion : Value) : Except Fault Fields := do
  let own ← match rule with
    | between least most => pure [(("min" : Text), Value.number least), ("max", .number most)]
    | compared _ bound => pure [(("value" : Text), Value.number bound)]
    | equals value => pure [(("value" : Text), value)]
    | oneOf values | includes values => do
      let shown ← (Value.array values).json none
      pure [(("values" : Text), Value.text shown)]
    | _ => pure []
  return Fields.ofNamed (("criterion", criterion) :: own)

end Rule

/-- How messages show an expression validator. -/
def Validator.expressionText (source : Text) : Text := "ExpressionPredicate(" ++ source.quoted ++ ")"

end Vetting
