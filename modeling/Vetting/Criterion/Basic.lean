import Vetting.Rule.Reading
import Vetting.Value.Mapping

/-!
# Criteria

A criterion is a field of a record, or a value derived from one, with the rules that it has to
satisfy.
-/

namespace Vetting

structure Criterion where
  /-- The id, which is also the field that is read when there is no derivation. -/
  id : Value
  /-- The name in messages, if it is set. -/
  name : Value
  /-- An expression over the record or a function of it; null for none. -/
  derivation : Value
  rules : List Rule

namespace Criterion

/-- What messages call a criterion. -/
def displayName (c : Criterion) : Value := if c.name.isSet then c.name else c.id

/-- A criterion whose rules are given as data. -/
def ofParts (id name derivation rules : Value) : Except Failure Criterion := do
  let rules ← Rule.listOfValue rules
  return ⟨id, name, derivation, rules⟩

/-- The criterion that an object describes; what it leaves out is null. -/
def ofValue (data : Value) : Except Failure Criterion := do
  let id ← ofFault (data.get "id")
  let name ← ofFault (data.get "name")
  let derivation ← ofFault (data.get "derive")
  let rules ← ofFault (data.get "rules")
  ofParts id name derivation (if rules.isSet then rules else .null)

end Criterion
end Vetting
