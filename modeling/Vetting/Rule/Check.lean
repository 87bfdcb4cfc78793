import Vetting.Rule.Basic
import Vetting.Session

/-!
# Checking a value against a rule

Numbers are compared exactly, but a number that cannot be tested for NaN cannot be checked. A
custom rule whose validator fails does not hold.
-/

namespace Vetting

namespace Relation

def holds : Relation → Number → Number → Bool
  | greater, n, bound => Number.less bound n
  | atLeast, n, bound => Number.lessOrEqual bound n
  | less, n, bound => Number.less n bound
  | atMost, n, bound => Number.lessOrEqual n bound

end Relation

namespace Validator

variable {σ : Type}

/-- The result of a validator on a value. `functions` are those of the resolver that checks. -/
def call (functions : Scope) (v : Value) : Validator → Engine σ Value
  | .function f => Engine.call functions f [v]
  | .expression source tree own =>
    Engine.evaluateTree (own.getD functions) tree (.object (Fields.ofNamed [("value", v)]))
      (some source)

/-- Whether a validator accepts a value. Its failure is logged. -/
def accepts (functions : Scope) (validator : Validator) (v : Value) : Engine σ Bool := do
  let outcome ← Engine.attempt do
    let verdict ← validator.call functions v
    Engine.ofFault verdict.truthy
  match outcome with
  | .ok accepted => return accepted
  | .error e =>
    Engine.log (.debug "Custom validator raised"
      [("error_type", .text e.className), ("error", .text e.message)])
    return false

end Validator

namespace Rule

/-- Whether a condition holds of a value that is a number other than NaN. -/
def ofNumber (v : Value) (condition : Number → Bool) : Except Fault Bool :=
  match v with
  | .number n => do
    let isNaN ← n.testNaN
    return !isNaN && condition n
  | _ => .ok false

def isOfType (v : Value) : TypeRule → Except Fault Bool
  | .number => ofNumber v fun _ => true
  | .string => .ok v.isText
  | .boolean => .ok (match v with | .boolean _ => true | _ => false)
  | .array => .ok v.items?.isSome

def isNull : Value → Bool
  | .null => true
  | _ => false

def includesAll (v : Value) (values : List Value) : Bool :=
  match v.items? with
  | some items => values.all fun wanted => items.any fun item => Value.equal item wanted
  | none => false

variable {σ : Type}

def unknownRule (object : Value) : Failure :=
  match object.inspect with
  | .error f => .fault f
  | .ok shown =>
    .engine (.general .validation ("Invalid rule type: " ++ object.typeName)
      (.object (Fields.ofNamed [("rule", .text shown)])))

def check (functions : Scope) (v : Value) (rule : Rule) : Engine σ Bool :=
  match rule with
  | .exists => pure (!isNull v)
  | oneOf values => pure (values.any fun allowed => Value.equal v allowed)
  | includes values => pure (includesAll v values)
  | between least most => Engine.ofFault
      (ofNumber v fun n => Number.lessOrEqual least n && Number.lessOrEqual n most)
  | ofType type => Engine.ofFault (isOfType v type)
  | compared relation bound => Engine.ofFault (ofNumber v fun n => relation.holds n bound)
  | equals value => pure (Value.equal v value)
  | custom validator _ => validator.accepts functions v
  | unknown object => throw (unknownRule object)

end Rule
end Vetting
