import Vetting.Resolver.Equation
import Vetting.Resolver.Setup

/-!
# Resolvers in use

A resolver in use learns functions, and remembers whether it has evaluated anything: a function
that is registered later is worth a warning, since earlier results did not see it.
-/

namespace Vetting

/-- A resolver in use, with the session around it. -/
structure Usage (σ : Type) where
  resolver : Resolver
  /-- Whether the resolver has begun to evaluate. -/
  evaluated : Bool
  session : Session σ

/-- An operation on a resolver in use. What it did to the two stays even if it fails. -/
abbrev Use (σ α : Type) := ExceptT Failure (StateM (Usage σ)) α

namespace Use

variable {σ α : Type}

def ofEngine (operation : Resolver → Engine σ α) : Use σ α := do
  let usage ← get
  let (result, session) := (operation usage.resolver).run usage.session
  set { usage with session }
  ExceptT.mk (pure result)

def evaluating (operation : Resolver → Engine σ α) : Use σ α := do
  modify fun usage => { usage with evaluated := true }
  ofEngine operation

def resolver : Use σ Resolver := do
  let usage ← get
  return usage.resolver

/-- Makes a function known under a name that is not taken. -/
def registerFunction (name function : Value) (description : Text) : Use σ Unit := do
  let usage ← get
  if usage.evaluated then
    ofEngine fun _ =>
      Engine.log (.warning "Function registered after evaluation started" [("function", name)])
  let registry ← ofEngine fun r =>
    Engine.ofResult (r.registry.add name function description Registry.customCategory false)
  modify fun usage => { usage with resolver := { usage.resolver with registry } }
  ofEngine fun _ => Engine.log (.debug "Function registered" [("function", name)])

def validateAll (record : Value) : Use σ Summary := evaluating (·.validateAll record)

def processQuery (record : Value) : Use σ QueryResult := evaluating (·.processQuery record)

def resolveValue (id record : Value) : Use σ Value := evaluating (·.resolveValue id record)

def compute (expression record : Value) : Use σ Value := evaluating (·.compute expression record)

def processEquation (template sources : Value) : Use σ ProcessedEquation :=
  evaluating (·.processEquation template sources)

def evaluateEquation (template sources : Value) : Use σ Bool :=
  evaluating (·.evaluateEquation template sources)

def validateEquation (template record : Value) : Use σ EquationVerdict :=
  evaluating (·.validateEquation template record)

end Use
end Vetting
