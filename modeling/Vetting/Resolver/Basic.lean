import Vetting.Function.Registry
import Vetting.Validation

/-!
# Resolvers

A resolver is set up with criteria, functions, a catalog and a language. It resolves the values
of criteria from records, validates them, and evaluates equations over them.
-/

namespace Vetting

structure Resolver where
  registry : Registry
  /-- The criteria, no two with the same id, in the order in which their ids were first defined. -/
  criteria : List Criterion
  catalog : Catalog
  language : Value

namespace Resolver

def functions (r : Resolver) : Scope := r.registry.functions

def criterion? (r : Resolver) (id : Value) : Option Criterion :=
  r.criteria.find? fun c => c.id.sameKey id

/-- The criterion with an id, which must be configured. -/
def criterion (r : Resolver) (id : Value) : Except Failure Criterion := do
  ofFault id.checkKey
  match r.criterion? id with
  | some c => return c
  | none => throw (.unknownCriterion id)

def display (r : Resolver) : Except Fault Text := do
  let language ← r.language.inspect
  return "CriteriaResolver(criteria=" ++ Text.ofNat r.criteria.length ++ ", language=" ++ language
    ++ ", functions=" ++ Text.ofNat r.registry.size ++ ")"

end Resolver
end Vetting
