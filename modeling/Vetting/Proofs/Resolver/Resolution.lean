import Vetting.Proofs.Session
import Vetting.Resolver.Query

/-!
# Resolving values

A criterion without a derivation has the same value in every session. A derivation may do anything to
the state of the host, but leaves a session like the one before.
-/

namespace Vetting.Resolver

open Engine

variable {σ : Type}

def derived (r : Resolver) (c : Criterion) (record : Value) : Engine σ Value :=
  if c.derivation.isCallable then Engine.call r.functions c.derivation [record]
  else Engine.evaluate r.functions c.derivation record

theorem keeps_derive (r : Resolver) (c : Criterion) (record : Value) :
    Keeps (r.derive c record : Engine σ Value) := by
  have hcall : Keeps (r.derived c record : Engine σ Value) := by
    unfold derived
    split
    · exact keeps_call r.functions c.derivation [record]
    · exact keeps_evaluate r.functions c.derivation record
  refine keeps_bind (keeps_attempt hcall) fun outcome => ?_
  cases outcome with
  | ok v => exact keeps_pure v
  | error cause => exact keeps_throw _

section Derived
variable {r : Resolver} {c : Criterion} {record v : Value} {cause : Failure} {s t : Session σ}

theorem derive_eq : (r.derive c record : Engine σ Value) = (do
    match ← attempt (r.derived c record) with
    | .ok v => return v
    | .error cause => throw (Failure.computation c.id cause)) := rfl

theorem outcome_derive_of_ok (h : outcome (r.derived c record) s = (.ok v, t)) :
    outcome (r.derive c record) s = (.ok v, t) := by
  rw [derive_eq, outcome_bind_of_ok (outcome_attempt ..), h]
  rfl

theorem outcome_derive_of_error (h : outcome (r.derived c record) s = (.error cause, t)) :
    outcome (r.derive c record) s = (.error (.computation c.id cause), t) := by
  rw [derive_eq, outcome_bind_of_ok (outcome_attempt ..), h]
  rfl

end Derived

theorem keeps_resolve (r : Resolver) (c : Criterion) (record : Value) :
    Keeps (r.resolve c record : Engine σ Value) := by
  have hraw : Keeps (r.raw c record : Engine σ Value) := by
    unfold raw
    split
    · exact keeps_derive r c record
    · exact keeps_ofFault _
  exact keeps_bind hraw fun v => keeps_ofFault _

def fieldValue (c : Criterion) (record : Value) : Except Fault Value := do
  let v ← record.getKey c.id
  Coercion.coerce v c.rules

theorem outcome_resolve_of_not_derived {r : Resolver} {c : Criterion} {record : Value}
    (h : c.isDerived = false) (s : Session σ) :
    outcome (r.resolve c record) s = (ofFault (fieldValue c record), s) := by
  rw [resolve, raw, h, outcome_bind, fieldValue]
  cases record.getKey c.id <;> rfl

theorem eq_of_not_derived {r : Resolver} {c : Criterion} {record v w : Value} {s s' t t' : Session σ}
    (h : c.isDerived = false) (hv : outcome (r.resolve c record) s = (.ok v, s'))
    (hw : outcome (r.resolve c record) t = (.ok w, t')) : v = w := by
  rw [outcome_resolve_of_not_derived h] at hv hw
  exact Except.ok.inj ((congrArg Prod.fst hv).symm.trans (congrArg Prod.fst hw))

end Vetting.Resolver
