import Vetting.Coercion
import Vetting.Resolver.Basic

/-!
# Resolving the value of a criterion

A criterion without a derivation reads the field of the record that has its id. A derivation is
a function of the record, or an expression over it. Either way the value is coerced by the rules
of the criterion.
-/

namespace Vetting

/-- The value under a key of what must be an object; null if there is none. -/
def Value.getKey (v key : Value) : Except Fault Value :=
  match v with
  | .object fields => .ok ((Fields.get? fields key).getD .null)
  | _ => .error .missingAttribute

namespace Criterion

def isDerived (c : Criterion) : Bool := !Rule.isNull c.derivation

end Criterion

namespace Resolver

variable {σ : Type}

/-- What the derivation of a criterion makes of a record. Whatever goes wrong is a failure of the
computation. -/
def derive (r : Resolver) (c : Criterion) (record : Value) : Engine σ Value := do
  let outcome ← Engine.attempt do
    if c.derivation.isCallable then Engine.call r.functions c.derivation [record]
    else Engine.evaluate r.functions c.derivation record
  match outcome with
  | .ok v => return v
  | .error cause => throw (.computation c.id cause)

def raw (r : Resolver) (c : Criterion) (record : Value) : Engine σ Value :=
  if c.isDerived then r.derive c record else Engine.ofFault (record.getKey c.id)

def resolve (r : Resolver) (c : Criterion) (record : Value) : Engine σ Value := do
  let v ← r.raw c record
  Engine.ofFault (Coercion.coerce v c.rules)

def resolveValue (r : Resolver) (id record : Value) : Engine σ Value := do
  let c ← Engine.ofResult (r.criterion id)
  r.resolve c record

/-- The value of an expression over a record, which may be missing. -/
def compute (r : Resolver) (expression record : Value) : Engine σ Value :=
  Engine.evaluate r.functions expression record

end Resolver
end Vetting
