import Vetting.Catalog.Bundled
import Vetting.Criterion.Basic
import Vetting.Rule.Check

/-!
# Validation

The verdict on a criterion names the rules that its value breaks, each with a message. A summary
collects the verdicts of several criteria.
-/

namespace Vetting

/-- The outcome for one criterion. The errors are messages by the name of the rule. -/
structure Verdict where
  criterion : Value
  success : Bool
  errors : Option Fields

/-- A criterion that failed, with its errors. -/
structure FailedCriterion where
  id : Value
  errors : Fields

/-- The ids of the criteria that passed and those that failed, in the order of their verdicts. -/
structure Summary where
  passed : List Value
  failed : List FailedCriterion

namespace Verdict

/-- The errors, where none and an empty list are the same. -/
def errorFields (v : Verdict) : Fields := v.errors.getD []

def toValue (v : Verdict) : Value :=
  .object (Fields.ofNamed [
    ("criterion", v.criterion), ("success", .boolean v.success),
    ("errors", if v.errorFields.isEmpty then .null else .object v.errorFields)])

end Verdict

namespace Summary

def empty : Summary := ⟨[], []⟩

def add (summary : Summary) (verdict : Verdict) : Summary :=
  if verdict.success then { summary with passed := summary.passed ++ [verdict.criterion] }
  else { summary with failed := summary.failed ++ [⟨verdict.criterion, verdict.errorFields⟩] }

def ofVerdicts (verdicts : List Verdict) : Summary := verdicts.foldl add empty

def overallSuccess (summary : Summary) : Bool := summary.failed.isEmpty

def toValue (summary : Summary) : Value :=
  .object (Fields.ofNamed [
    ("success_fields", .array summary.passed),
    ("failed_fields", .array (summary.failed.map fun failed =>
      .object (Fields.ofNamed [("id", failed.id), ("errors", .object failed.errors)]))),
    ("overall_success", .boolean summary.overallSuccess)])

end Summary

/-- The outcome of validating the criteria of an equation and then evaluating it. -/
structure EquationVerdict where
  summary : Summary
  result : Bool

namespace EquationVerdict

def success (v : EquationVerdict) : Bool := v.summary.overallSuccess && v.result

def toValue (v : EquationVerdict) : Value :=
  .object (Fields.ofNamed [
    ("summary", v.summary.toValue), ("result", .boolean v.result),
    ("success", .boolean v.success)])

end EquationVerdict

namespace Criterion

variable {σ : Type}

def messageFor (catalog : Catalog) (language : Value) (c : Criterion) (rule : Rule) :
    Except Fault Value := do
  let parameters ← rule.messageParameters c.displayName
  catalog.render language (.text rule.messageKey) parameters
    (.text ("Validation failed for rule " ++ rule.name))

/-- The errors of the rules, added to those found before. A later rule of the same name replaces
the message of an earlier one. -/
def errorsOf (functions : Scope) (catalog : Catalog) (language : Value) (c : Criterion) (v : Value)
    (errors : Fields) : List Rule → Engine σ Fields
  | [] => pure errors
  | rule :: rest => do
    if ← rule.check functions v then errorsOf functions catalog language c v errors rest
    else
      let message ← Engine.ofFault (c.messageFor catalog language rule)
      errorsOf functions catalog language c v (errors.put (.text rule.name) message) rest

/-- The verdict on a value that is already resolved. -/
def validate (functions : Scope) (catalog : Catalog) (language : Value) (c : Criterion) (v : Value) :
    Engine σ Verdict := do
  let errors ← errorsOf functions catalog language c v [] c.rules
  return ⟨c.id, errors.isEmpty, if errors.isEmpty then none else some errors⟩

end Criterion
end Vetting
