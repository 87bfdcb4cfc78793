import Vetting.Resolver.Query
import Vetting.Template

/-!
# Equations

An equation is a template of an expression: its placeholders stand for values. Evaluating one
fails closed: an equation that cannot be written out, parsed or evaluated is false, and the error
is kept.
-/

namespace Vetting

/-- An evaluated equation. -/
structure ProcessedEquation where
  template : Text
  /-- The expression that was evaluated, or the template if there is none. -/
  expression : Text
  /-- The values that placeholders could stand for. -/
  environment : Fields
  result : Bool
  error : Option Text

def ProcessedEquation.toValue (e : ProcessedEquation) : Value :=
  .object (Fields.ofNamed [
    ("template", .text e.template), ("expression", .text e.expression),
    ("environment", .object e.environment), ("result", .boolean e.result),
    ("error", (e.error.map Value.text).getD .null)])

namespace Resolver

variable {σ : Type}

/-! ## The environment -/

/-- The derived criteria that need no record, over an environment. -/
def deriveAll (r : Resolver) (environment : Fields) : List Criterion → Engine σ Fields
  | [] => pure environment
  | c :: rest =>
    if c.isDerived then do
      match ← Engine.attempt (r.derive c (.object [])) with
      | .ok v => r.deriveAll (environment.put c.id v) rest
      | .error (.engine (.computation _ _ cause)) =>
        Engine.log (.debug "Derivation skipped while building equation environment"
          [("criterion", c.id), ("error", .text cause.message)])
        r.deriveAll environment rest
      | .error e => throw e
    else r.deriveAll environment rest

/-- The sources of values: none, one, or several. -/
def sourceList : Value → Except Fault (List Value)
  | .null => .ok []
  | .object fields => .ok [.object fields]
  | v => v.elements

/-- The environment with the fields of sources over it, one source after the other. -/
def overlay (environment : Fields) : List Value → Except Fault Fields
  | [] => .ok environment
  | source :: rest => do
    let fields ← source.asFields
    overlay (environment.putAll fields) rest

/-- The values that the placeholders of an equation can stand for. -/
def environmentOf (r : Resolver) (sources : Value) : Engine σ Fields := do
  let derived ← r.deriveAll [] r.criteria
  Engine.ofFault do
    let list ← sourceList sources
    overlay derived list

/-! ## Evaluation -/

/-- The expression of an equation, and whether it is true. -/
def run (r : Resolver) (template : Text) (environment : Fields) : Engine σ (Text × Bool) := do
  let expression ← Engine.ofResult (Template.equation template environment)
  let tree ← Engine.parse (.text expression)
  let v ← Engine.evaluateTree r.functions tree (.object []) (some expression)
  let truth ← Engine.ofFault v.truthy
  return (expression, truth)

/-- An equation that failed is false; its expression is the one that the error is about. -/
def failedClosed (template : Text) (environment : Fields) (e : ExpressionError) :
    ProcessedEquation :=
  ⟨template, e.source.getD template, environment, false, some e.message⟩

/-- Evaluates an equation over an environment, failing closed. -/
def evaluateClosed (r : Resolver) (template : Text) (environment : Fields) :
    Engine σ ProcessedEquation := do
  match ← Engine.attempt (r.run template environment) with
  | .ok (expression, result) => return ⟨template, expression, environment, result, none⟩
  | .error (.engine (.expression e)) =>
    Engine.log (.debug "Equation failed closed"
      [("template", .text template), ("error", .text e.message)])
    return failedClosed template environment e
  | .error e => throw e

/-- Evaluates an equation; any value may stand for a template, as the text that displays it. -/
def processEquation (r : Resolver) (template sources : Value) : Engine σ ProcessedEquation := do
  let template ← Engine.ofFault template.display
  let environment ← r.environmentOf sources
  let processed ← r.evaluateClosed template environment
  let settings ← Engine.settings
  if Settings.logsEquations settings then
    Engine.log (.happened "equation_evaluated" [("template", .text template),
      ("expression", .text processed.expression), ("result", .boolean processed.result)])
  return processed

def evaluateEquation (r : Resolver) (template sources : Value) : Engine σ Bool := do
  let processed ← r.processEquation template sources
  return processed.result

/-! ## Validation -/

/-- The names of the placeholders, each once, in the order of their first occurrence. -/
def referenced (template : Text) : List Text :=
  Registry.distinctTexts (Template.names (Template.ofText template))

/-- Validates the criteria that names refer to, and gives each resolved value its name. -/
def validateNames (r : Resolver) (record : Value) (summary : Summary) (environment : Fields) :
    List Text → Engine σ (Summary × Fields)
  | [] => pure (summary, environment)
  | name :: rest =>
    match r.criterion? (.text name) with
    | none => do
      let verdict ← Engine.ofFault (r.failedVerdict (.text name) "criterion"
        "errors.criteriaNotConfigured" [("criterion", .text name)])
      r.validateNames record (summary.add verdict) environment rest
    | some c => do
      match ← Engine.attempt (r.resolve c record) with
      | .ok v =>
        let verdict ← c.validate r.functions r.catalog r.language v
        r.validateNames record (summary.add verdict) (environment.put (.text name) v) rest
      | .error (.engine (.computation _ _ cause)) =>
        let verdict ← r.derivationVerdict c cause
        r.validateNames record (summary.add verdict) environment rest
      | .error e => throw e

/-- Validates the criteria of an equation and, if all pass, evaluates it over their values. -/
def validateEquation (r : Resolver) (template record : Value) : Engine σ EquationVerdict := do
  let template ← Engine.ofFault template.display
  let (summary, environment) ← r.validateNames record Summary.empty [] (referenced template)
  if !summary.overallSuccess then return ⟨summary, false⟩
  match ← Engine.attempt (r.run template environment) with
  | .ok (_, result) => return ⟨summary, result⟩
  | .error (.engine (.expression e)) =>
    let verdict ← Engine.ofFault (r.failedVerdict (.text "expression") "expression"
      "errors.expression" [("message", .text e.reason.message)])
    return ⟨summary.add verdict, false⟩
  | .error e => throw e

end Resolver
end Vetting
