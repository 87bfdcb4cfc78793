import Vetting.Proofs.Expression.Parsed
import Vetting.Proofs.Resolver.Resolution
import Vetting.Resolver.Equation

/-!
# Sessions that go on

Whatever the engine does in a session, and whatever the functions of the host do, the session after it
goes on from the one before: the state of the host, the cache and the lines of the log may differ, and
the cache still holds what the parser makes.
-/

namespace Vetting

variable {σ α β : Type}

/-- Sessions that are alike, the later one with a cache that holds what the parser makes. -/
structure Session.Later (s t : Session σ) : Prop extends Session.Alike s t where
  cache : t.cache.Sound t.capacity.parsing

namespace Session.Later

variable {s t u : Session σ}

theorem refl (h : s.cache.Sound s.capacity.parsing) : s.Later s := ⟨.refl s, h⟩

theorem trans (hst : s.Alike t) (htu : t.Later u) : s.Later u := ⟨hst.trans htu.toAlike, htu.cache⟩

end Session.Later

/-! ## The cache does not show -/

def Session.treeOf (s : Session σ) (text : Text) : Except Failure Node :=
  (ParseCache.empty.parse s.capacity.parsing (Settings.limits s.settings) text).1

theorem Session.Alike.treeOf {s t : Session σ} (h : s.Alike t) (text : Text) :
    t.treeOf text = s.treeOf text := by
  rw [Session.treeOf, Session.treeOf, h.capacity, h.settings]

/-- A sound cache parses as the empty one does, and stays sound, whatever the limits are. -/
theorem ParseCache.parse_eq_empty {capacity : Nat} {cache : ParseCache} (h : cache.Sound capacity)
    (limits : Limits) (text : Text) :
    (cache.parse capacity limits text).1 = (empty.parse capacity limits text).1 ∧
      (cache.parse capacity limits text).2.Sound capacity := by
  unfold parse
  split
  · rename_i depth length
    obtain ⟨hr, hs⟩ := parseInteger_sound h text depth length
    refine ⟨?_, hs⟩
    rw [hr, (parseInteger_sound (sound_empty capacity) text depth length).1]
  · split <;> exact ⟨rfl, h⟩

/-! ## Operations -/

namespace Engine

/-- An operation from which a session with a sound cache goes on. -/
def Advances (m : Engine σ α) : Prop :=
  ∀ t : Session σ, t.cache.Sound t.capacity.parsing → t.Later (outcome m t).2

theorem Advances.later {m : Engine σ α} (h : Advances m) {s t : Session σ} (ht : s.Later t) :
    s.Later (outcome m t).2 := .trans ht.toAlike (h t ht.cache)

theorem Advances.later_of {m : Engine σ α} (h : Advances m) {s t u : Session σ} (ht : s.Later t)
    {r : Except Failure α} (hm : outcome m t = (r, u)) : s.Later u := by
  have hu := h.later ht
  rwa [hm] at hu

theorem advances_of_cache_eq {m : Engine σ α} (h : Keeps m) (hc : ∀ t, (outcome m t).2.cache = t.cache) :
    Advances m := by
  intro t ht
  refine ⟨h t, ?_⟩
  rw [hc, (h t).capacity]
  exact ht

theorem advances_pure (a : α) : Advances (pure a : Engine σ α) := fun _ => .refl

theorem advances_throw (e : Failure) : Advances (throw e : Engine σ α) := fun _ => .refl

theorem advances_ofFault (r : Except Fault α) : Advances (ofFault r : Engine σ α) := fun _ => .refl

theorem advances_ofResult (r : Except Failure α) : Advances (ofResult r : Engine σ α) := fun _ => .refl

theorem advances_settings : Advances (settings : Engine σ Fields) := fun _ => .refl

theorem advances_bind {m : Engine σ α} {f : α → Engine σ β} (hm : Advances m)
    (hf : ∀ a, Advances (f a)) : Advances (m >>= f) := by
  intro t ht
  have hlater := hm t ht
  rcases h : outcome m t with ⟨e | a, u⟩ <;> rw [h] at hlater
  · rw [outcome_bind_of_error h]
    exact hlater
  · rw [outcome_bind_of_ok h]
    exact (hf a).later hlater

theorem advances_attempt {m : Engine σ α} (h : Advances m) : Advances m.attempt := h

theorem cache_log (event : LogEvent) (t : Session σ) : (outcome (log event) t).2.cache = t.cache := by
  rw [log, outcome_bind_of_ok (outcome_get t), outcome_bind, outcome_ofFault]
  cases t.log.write t.host.instant event <;> rfl

theorem advances_log (event : LogEvent) : Advances (log event : Engine σ Unit) :=
  advances_of_cache_eq (keeps_log event) (cache_log event)

theorem advances_parse (source : Value) : Advances (parse source : Engine σ Node) := by
  intro t ht
  refine ⟨keeps_parse source t, ?_⟩
  cases source with
  | text text => exact (ParseCache.parse_eq_empty ht (Settings.limits t.settings) text).2
  | _ => exact ht

theorem advances_evaluateTree (functions : Scope) (tree : Node) (record : Value)
    (source : Option Text) : Advances (evaluateTree functions tree record source : Engine σ Value) :=
  advances_of_cache_eq (keeps_evaluateTree functions tree record source) fun _ => rfl

theorem advances_evaluate (functions : Scope) (source record : Value) :
    Advances (evaluate functions source record : Engine σ Value) :=
  advances_bind (advances_parse source) fun tree => advances_evaluateTree functions tree record _

theorem advances_call (functions : Scope) (callee : Value) (arguments : List Value) :
    Advances (call functions callee arguments : Engine σ Value) :=
  advances_of_cache_eq (keeps_call functions callee arguments) fun _ => rfl

end Engine

open Engine

/-! ## Rules -/

theorem Rule.advances_check (functions : Scope) (v : Value) (rule : Rule) :
    Advances (rule.check functions v : Engine σ Bool) := by
  cases rule with
  | custom validator description =>
    have hcall : Advances (validator.call functions v : Engine σ Value) := by
      cases validator with
      | function f => exact advances_call functions f [v]
      | expression source tree own =>
        rw [Validator.call]
        exact advances_evaluateTree (own.getD functions) tree _ _
    refine advances_bind (advances_attempt (advances_bind hcall fun _ => advances_ofFault _))
      fun result => ?_
    cases result with
    | ok accepted => exact advances_pure accepted
    | error e => exact advances_bind (advances_log _) fun _ => advances_pure false
  | unknown object => exact advances_throw _
  | between least most => exact advances_ofFault _
  | ofType type => exact advances_ofFault _
  | compared relation bound => exact advances_ofFault _
  | _ => exact advances_pure _

theorem Criterion.advances_errorsOf (functions : Scope) (catalog : Catalog) (language : Value)
    (c : Criterion) (v : Value) (rules : List Rule) (errors : Fields) :
    Advances (errorsOf functions catalog language c v errors rules : Engine σ Fields) := by
  induction rules generalizing errors with
  | nil => exact advances_pure errors
  | cons rule rest ih =>
    refine advances_bind (Rule.advances_check functions v rule) fun accepted => ?_
    cases accepted with
    | true => exact ih errors
    | false => exact advances_bind (advances_ofFault _) fun message => ih _

theorem Criterion.advances_validate (functions : Scope) (catalog : Catalog) (language : Value)
    (c : Criterion) (v : Value) :
    Advances (c.validate functions catalog language v : Engine σ Verdict) :=
  advances_bind (advances_errorsOf functions catalog language c v c.rules []) fun _ => advances_pure _

/-! ## Resolvers -/

namespace Resolver

variable (r : Resolver)

theorem advances_derived (c : Criterion) (record : Value) :
    Advances (r.derived c record : Engine σ Value) := by
  unfold derived
  split
  · exact advances_call _ _ _
  · exact advances_evaluate _ _ _

theorem advances_derive (c : Criterion) (record : Value) :
    Advances (r.derive c record : Engine σ Value) := by
  rw [derive_eq]
  refine advances_bind (advances_attempt (r.advances_derived c record)) fun result => ?_
  cases result with
  | ok v => exact advances_pure v
  | error cause => exact advances_throw _

theorem advances_resolve (c : Criterion) (record : Value) :
    Advances (r.resolve c record : Engine σ Value) := by
  have hraw : Advances (r.raw c record : Engine σ Value) := by
    unfold raw
    split
    · exact r.advances_derive c record
    · exact advances_ofFault _
  exact advances_bind hraw fun _ => advances_ofFault _

theorem advances_derivationVerdict (c : Criterion) (cause : Failure) :
    Advances (r.derivationVerdict c cause : Engine σ Verdict) :=
  advances_bind (advances_log _) fun _ => advances_ofFault _

theorem advances_verdictOn (record : Value) (c : Criterion) :
    Advances (r.verdictOn record c : Engine σ Verdict) := by
  have hverdict : Advances (do
      let v ← r.resolve c record
      c.validate r.functions r.catalog r.language v : Engine σ Verdict) :=
    advances_bind (r.advances_resolve c record) fun _ => Criterion.advances_validate _ _ _ _ _
  unfold verdictOn
  split
  · exact advances_bind (advances_throw _) fun _ => hverdict
  · exact hverdict

theorem advances_verdictsOn (record : Value) (criteria : List Criterion) :
    Advances (r.verdictsOn record criteria : Engine σ (List Verdict)) := by
  induction criteria with
  | nil => exact advances_pure _
  | cons c rest ih =>
    exact advances_bind (r.advances_verdictOn record c) fun _ =>
      advances_bind ih fun _ => advances_pure _

theorem advances_validateAll (record : Value) : Advances (r.validateAll record : Engine σ Summary) :=
  advances_bind (r.advances_verdictsOn record r.criteria) fun _ =>
    advances_bind (advances_log _) fun _ => advances_pure _

theorem advances_collect (record : Value) (criteria : List Criterion) (summary : Summary)
    (data : Fields) :
    Advances (r.collect record summary data criteria : Engine σ (Summary × Fields)) := by
  induction criteria generalizing summary data with
  | nil => exact advances_pure _
  | cons c rest ih =>
    refine advances_bind (advances_attempt (r.advances_resolve c record)) fun result => ?_
    split
    · exact ih _ _
    · exact advances_bind (r.advances_derivationVerdict c _) fun _ => ih _ _
    · exact advances_throw _

theorem advances_processQuery (record : Value) :
    Advances (r.processQuery record : Engine σ QueryResult) := by
  refine advances_bind (r.advances_validateAll record) fun summary => ?_
  split
  · exact advances_pure _
  · exact advances_bind (r.advances_collect record r.criteria summary []) fun _ => advances_pure _

theorem advances_resolveValue (id record : Value) :
    Advances (r.resolveValue id record : Engine σ Value) :=
  advances_bind (advances_ofResult _) fun c => r.advances_resolve c record

/-! ## Equations -/

theorem advances_deriveAll (criteria : List Criterion) (environment : Fields) :
    Advances (r.deriveAll environment criteria : Engine σ Fields) := by
  induction criteria generalizing environment with
  | nil => exact advances_pure environment
  | cons c rest ih =>
    rw [deriveAll]
    split
    · refine advances_bind (advances_attempt (r.advances_derive c _)) fun result => ?_
      split
      · exact ih _
      · exact advances_bind (advances_log _) fun _ => ih environment
      · exact advances_throw _
    · exact ih environment

theorem advances_run (template : Text) (environment : Fields) :
    Advances (r.run template environment : Engine σ (Text × Bool)) :=
  advances_bind (advances_ofResult _) fun _ => advances_bind (advances_parse _) fun tree =>
    advances_bind (advances_evaluateTree _ tree _ _) fun _ =>
      advances_bind (advances_ofFault _) fun _ => advances_pure _

theorem advances_evaluateClosed (template : Text) (environment : Fields) :
    Advances (r.evaluateClosed template environment : Engine σ ProcessedEquation) := by
  refine advances_bind (advances_attempt (r.advances_run template environment)) fun result => ?_
  split
  · exact advances_pure _
  · exact advances_bind (advances_log _) fun _ => advances_pure _
  · exact advances_throw _

theorem advances_processEquation (template sources : Value) :
    Advances (r.processEquation template sources : Engine σ ProcessedEquation) := by
  refine advances_bind (advances_ofFault _) fun text => ?_
  refine advances_bind (advances_bind (r.advances_deriveAll r.criteria []) fun _ =>
    advances_ofFault _) fun environment => ?_
  refine advances_bind (r.advances_evaluateClosed text environment) fun processed => ?_
  refine advances_bind advances_settings fun fields => ?_
  split
  · exact advances_bind (advances_log _) fun _ => advances_pure processed
  · exact advances_pure processed

theorem advances_validateNames (record : Value) (names : List Text) (summary : Summary)
    (environment : Fields) :
    Advances (r.validateNames record summary environment names : Engine σ (Summary × Fields)) := by
  induction names generalizing summary environment with
  | nil => exact advances_pure _
  | cons name rest ih =>
    rw [validateNames]
    split
    · exact advances_bind (advances_ofFault _) fun _ => ih _ _
    · refine advances_bind (advances_attempt (r.advances_resolve _ record)) fun result => ?_
      split
      · exact advances_bind (Criterion.advances_validate _ _ _ _ _) fun _ => ih _ _
      · exact advances_bind (r.advances_derivationVerdict _ _) fun _ => ih _ _
      · exact advances_throw _

theorem advances_validateEquation (template record : Value) :
    Advances (r.validateEquation template record : Engine σ EquationVerdict) := by
  refine advances_bind (advances_ofFault _) fun text => ?_
  refine advances_bind (r.advances_validateNames record (referenced text) _ _) fun found => ?_
  dsimp only
  split
  · exact advances_pure _
  · refine advances_bind (advances_attempt (r.advances_run text found.2)) fun result => ?_
    split
    · exact advances_pure _
    · exact advances_bind (advances_ofFault _) fun _ => advances_pure _
    · exact advances_throw _

end Resolver
end Vetting
