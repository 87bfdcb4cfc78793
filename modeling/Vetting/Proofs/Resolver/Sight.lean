import Vetting.Proofs.Resolver.Resolution
import Vetting.Resolver.Use

/-!
# What operations see of a resolver

An operation sees the functions of a resolver, its criteria, its catalog and its language, and nothing else:
what the registry knows about a function besides does not matter. So resolvers that show the same are
used alike.
-/

namespace Vetting

variable {σ : Type}

namespace Resolver

/-- Resolvers that show the same to every operation. -/
structure ShowsAs (r r' : Resolver) : Prop where
  functions : r.functions = r'.functions
  criteria : r.criteria = r'.criteria
  catalog : r.catalog = r'.catalog
  language : r.language = r'.language

namespace ShowsAs

variable {r r' : Resolver} (h : r.ShowsAs r')
include h

theorem derive (c : Criterion) (record : Value) :
    (r.derive c record : Engine σ Value) = r'.derive c record := by
  rw [Resolver.derive, Resolver.derive, h.functions]

theorem resolve (c : Criterion) (record : Value) :
    (r.resolve c record : Engine σ Value) = r'.resolve c record := by
  rw [Resolver.resolve, Resolver.resolve, raw, raw, h.derive]

theorem resolveValue (id record : Value) :
    (r.resolveValue id record : Engine σ Value) = r'.resolveValue id record := by
  have hcriterion : r.criterion id = r'.criterion id := by
    simp only [criterion, criterion?, h.criteria]
  simp only [Resolver.resolveValue, hcriterion, h.resolve]

theorem compute (expression record : Value) :
    (r.compute expression record : Engine σ Value) = r'.compute expression record := by
  rw [Resolver.compute, Resolver.compute, h.functions]

/-! ## Validations -/

theorem failedVerdict (criterion : Value) (label messageKey : Text)
    (parameters : List (Text × Value)) : r.failedVerdict criterion label messageKey parameters =
      r'.failedVerdict criterion label messageKey parameters := by
  rw [Resolver.failedVerdict, Resolver.failedVerdict, h.catalog, h.language]

theorem derivationVerdict (c : Criterion) (cause : Failure) :
    (r.derivationVerdict c cause : Engine σ Verdict) = r'.derivationVerdict c cause := by
  rw [Resolver.derivationVerdict, Resolver.derivationVerdict, h.failedVerdict]

theorem verdictsOn (record : Value) (criteria : List Criterion) :
    (r.verdictsOn record criteria : Engine σ (List Verdict)) = r'.verdictsOn record criteria := by
  induction criteria with
  | nil => rfl
  | cons c rest ih =>
    rw [Resolver.verdictsOn, Resolver.verdictsOn, ih, verdictOn, verdictOn, h.resolve, h.functions,
      h.catalog, h.language]

theorem validateAll (record : Value) :
    (r.validateAll record : Engine σ Summary) = r'.validateAll record := by
  rw [Resolver.validateAll, Resolver.validateAll, h.criteria, h.verdictsOn]

theorem collect (record : Value) (criteria : List Criterion) (summary : Summary) (data : Fields) :
    (r.collect record summary data criteria : Engine σ (Summary × Fields)) =
      r'.collect record summary data criteria := by
  induction criteria generalizing summary data with
  | nil => rfl
  | cons c rest ih => simp only [Resolver.collect, h.resolve, h.derivationVerdict, ih]

theorem processQuery (record : Value) :
    (r.processQuery record : Engine σ QueryResult) = r'.processQuery record := by
  simp only [Resolver.processQuery, h.validateAll, h.criteria, h.collect]

/-! ## Equations -/

theorem deriveAll (criteria : List Criterion) (environment : Fields) :
    (r.deriveAll environment criteria : Engine σ Fields) = r'.deriveAll environment criteria := by
  induction criteria generalizing environment with
  | nil => rfl
  | cons c rest ih => simp only [Resolver.deriveAll, h.derive, ih]

theorem run (template : Text) (environment : Fields) :
    (r.run template environment : Engine σ (Text × Bool)) = r'.run template environment := by
  rw [Resolver.run, Resolver.run, h.functions]

theorem processEquation (template sources : Value) :
    (r.processEquation template sources : Engine σ ProcessedEquation) =
      r'.processEquation template sources := by
  simp only [Resolver.processEquation, environmentOf, evaluateClosed, h.criteria, h.deriveAll, h.run]

theorem evaluateEquation (template sources : Value) :
    (r.evaluateEquation template sources : Engine σ Bool) = r'.evaluateEquation template sources := by
  rw [Resolver.evaluateEquation, Resolver.evaluateEquation, h.processEquation]

theorem validateNames (record : Value) (names : List Text) (summary : Summary) (environment : Fields) :
    (r.validateNames record summary environment names : Engine σ (Summary × Fields)) =
      r'.validateNames record summary environment names := by
  have hcriterion : r.criterion? = r'.criterion? := by
    funext id
    simp only [criterion?, h.criteria]
  induction names generalizing summary environment with
  | nil => rfl
  | cons name rest ih =>
    simp only [Resolver.validateNames, hcriterion, h.failedVerdict, h.resolve, h.derivationVerdict,
      h.functions, h.catalog, h.language, ih]

theorem validateEquation (template record : Value) :
    (r.validateEquation template record : Engine σ EquationVerdict) =
      r'.validateEquation template record := by
  simp only [Resolver.validateEquation, h.validateNames, h.run, h.failedVerdict]

end ShowsAs
end Resolver
end Vetting
