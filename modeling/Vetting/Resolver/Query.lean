import Vetting.Resolver.Resolution

/-!
# Validating a record

All criteria are resolved and validated in order. A query then resolves them once more, for the
record that it hands out; a record that does not pass is handed back as it is.
-/

namespace Vetting

/-- The record that a query hands out. -/
inductive QueryData where
  /-- The record that the query was about. -/
  | unchanged (record : Value)
  | resolved (fields : Fields)

def QueryData.toValue : QueryData → Value
  | unchanged record => record
  | resolved fields => .object fields

structure QueryResult where
  summary : Summary
  data : QueryData

namespace Resolver

variable {σ : Type}

/-! ## Failures that are no broken rules -/

/-- A failed verdict with one error, whose message is in the catalog. -/
def failedVerdict (r : Resolver) (criterion : Value) (label messageKey : Text)
    (parameters : List (Text × Value)) : Except Fault Verdict := do
  let message ← r.catalog.render r.language (.text messageKey) (Fields.ofNamed parameters)
    (.text messageKey)
  return ⟨criterion, false, some [(.text label, message)]⟩

def derivationVerdict (r : Resolver) (c : Criterion) (cause : Failure) : Engine σ Verdict := do
  Engine.log (.debug "Derivation failed" [("criterion", c.id), ("error", .text cause.message)])
  Engine.ofFault (r.failedVerdict c.id "compute" "errors.computeValueFailed"
    [("criterion", c.displayName)])

/-! ## Validation -/

def verdictOn (r : Resolver) (record : Value) (c : Criterion) : Engine σ Verdict := do
  if !c.id.isSet then throw (.configuration "Criterion id is required" [("name", c.name)])
  let v ← r.resolve c record
  c.validate r.functions r.catalog r.language v

def verdictsOn (r : Resolver) (record : Value) : List Criterion → Engine σ (List Verdict)
  | [] => pure []
  | c :: rest => do
    let first ← r.verdictOn record c
    let others ← r.verdictsOn record rest
    return first :: others

/-- The verdicts on all criteria, summed up. -/
def validateAll (r : Resolver) (record : Value) : Engine σ Summary := do
  let verdicts ← r.verdictsOn record r.criteria
  let summary := Summary.ofVerdicts verdicts
  Engine.log (.debug "Criteria validated" [
    ("passed", .integer summary.passed.length), ("failed", .integer summary.failed.length)])
  return summary

/-! ## Queries -/

/-- Resolves criteria for the record to hand out. A derivation that fails now is a failed
criterion. -/
def collect (r : Resolver) (record : Value) (summary : Summary) (data : Fields) :
    List Criterion → Engine σ (Summary × Fields)
  | [] => pure (summary, data)
  | c :: rest => do
    match ← Engine.attempt (r.resolve c record) with
    | .ok v => r.collect record summary (data.put c.id v) rest
    | .error (.engine (.computation _ _ cause)) =>
      let verdict ← r.derivationVerdict c cause
      r.collect record (summary.add verdict) data rest
    | .error e => throw e

/-- Validates a record and, if it passes, resolves the record to hand out. -/
def processQuery (r : Resolver) (record : Value) : Engine σ QueryResult := do
  let summary ← r.validateAll record
  if !summary.overallSuccess then return ⟨summary, .unchanged record⟩
  let (summary, data) ← r.collect record summary [] r.criteria
  return ⟨summary, .resolved data⟩

end Resolver
end Vetting
