import Vetting.Proofs.Advance
import Vetting.Proofs.Rule.Acceptance

/-!
# Operations that answer alike

Between two uses of the engine the host may have moved on, the cache may have changed and lines may
have been logged. An operation is steady if its result is the same all the same. Everything that the
engine does is steady but the calls of functions, so resolving and validating a criterion is steady
when its derivation and its validators are pure.
-/

namespace Vetting

variable {σ α β : Type}

namespace Engine

/-- An operation with one result in all sessions later than `s`, which leaves a later session. -/
structure Steady (s : Session σ) (m : Engine σ α) : Prop where
  result : ∀ {t u : Session σ}, s.Later t → s.Later u → (outcome m t).1 = (outcome m u).1
  later : ∀ {t : Session σ}, s.Later t → s.Later (outcome m t).2

variable {s t u : Session σ}

theorem Steady.outcome_eq {m : Engine σ α} (h : Steady s m) {r : Except Failure α} (ht : s.Later t)
    (hu : s.Later u) (hm : (outcome m t).1 = r) :
    ∃ w, s.Later w ∧ outcome m u = (r, w) :=
  ⟨_, h.later hu, Prod.ext ((h.result hu ht).trans hm) rfl⟩

theorem Steady.later_of {m : Engine σ α} (h : Steady s m) (ht : s.Later t) {r : Except Failure α}
    (hm : outcome m t = (r, u)) : s.Later u := by
  have hu := h.later ht
  rwa [hm] at hu

theorem steady_of_outcome {m : Engine σ α} {r : Except Failure α} (h : ∀ t, outcome m t = (r, t)) :
    Steady s m where
  result _ _ := by rw [h, h]
  later ht := by rwa [h]

theorem steady_pure (a : α) : Steady s (pure a : Engine σ α) := steady_of_outcome fun _ => rfl

theorem steady_throw (e : Failure) : Steady s (throw e : Engine σ α) := steady_of_outcome fun _ => rfl

theorem steady_ofFault (r : Except Fault α) : Steady s (ofFault r : Engine σ α) :=
  steady_of_outcome fun _ => rfl

theorem steady_ofResult (r : Except Failure α) : Steady s (ofResult r : Engine σ α) :=
  steady_of_outcome fun _ => rfl

theorem steady_bind {m : Engine σ α} {f : α → Engine σ β} (hm : Steady s m)
    (hf : ∀ a, Steady s (f a)) : Steady s (m >>= f) where
  result {t u} ht hu := by
    rcases h : outcome m t with ⟨e | a, t'⟩
    · obtain ⟨u', _, h'⟩ := hm.outcome_eq ht hu (congrArg Prod.fst h)
      rw [outcome_bind_of_error h, outcome_bind_of_error h']
    · obtain ⟨u', hu', h'⟩ := hm.outcome_eq ht hu (congrArg Prod.fst h)
      rw [outcome_bind_of_ok h, outcome_bind_of_ok h']
      exact (hf a).result (hm.later_of ht h) hu'
  later {t} ht := by
    rcases h : outcome m t with ⟨e | a, t'⟩
    · rw [outcome_bind_of_error h]
      exact hm.later_of ht h
    · rw [outcome_bind_of_ok h]
      exact (hf a).later (hm.later_of ht h)

theorem steady_attempt {m : Engine σ α} (h : Steady s m) : Steady s m.attempt where
  result ht hu := by rw [outcome_attempt, outcome_attempt, h.result ht hu]
  later ht := h.later ht

theorem steady_settings : Steady s (settings : Engine σ Fields) where
  result ht hu := by rw [outcome_settings, outcome_settings, ht.settings, hu.settings]
  later ht := ht

theorem steady_log (event : LogEvent) : Steady s (log event : Engine σ Unit) where
  result ht hu := by rw [outcome_log_eq ht.toAlike, outcome_log_eq hu.toAlike]
  later ht := (advances_log event).later ht

theorem outcome_parse_of_later (ht : s.Later t) (text : Text) :
    ∃ u, s.Later u ∧ outcome (parse (.text text)) t = (s.treeOf text, u) := by
  obtain ⟨hr, hc⟩ := ParseCache.parse_eq_empty ht.cache (Settings.limits t.settings) text
  refine ⟨_, ⟨ht.toAlike.trans (keeps_parse (.text text) t), hc⟩, ?_⟩
  rw [← ht.treeOf text, Session.treeOf, ← hr]
  rfl

theorem steady_parse (source : Value) : Steady s (parse source : Engine σ Node) := by
  cases source with
  | text text =>
    refine ⟨fun ht hu => ?_, fun ht => ?_⟩
    · obtain ⟨_, _, h⟩ := outcome_parse_of_later ht text
      obtain ⟨_, _, h'⟩ := outcome_parse_of_later hu text
      rw [h, h']
    · obtain ⟨_, hu, h⟩ := outcome_parse_of_later ht text
      rwa [h]
  | _ => exact steady_of_outcome fun _ => rfl

theorem steady_call {functions : Scope} {callee : Value} {arguments : List Value}
    (h : ∀ {t u : Session σ}, s.Later t → s.Later u →
      (outcome (call functions callee arguments) t).1 = (outcome (call functions callee arguments) u).1) :
    Steady s (call functions callee arguments : Engine σ Value) where
  result := h
  later ht := (advances_call functions callee arguments).later ht

theorem steady_evaluateTree {functions : Scope} {tree : Node} {record : Value} {source : Option Text}
    (h : ∀ {t u : Session σ}, s.Later t → s.Later u →
      (outcome (evaluateTree functions tree record source) t).1 =
        (outcome (evaluateTree functions tree record source) u).1) :
    Steady s (evaluateTree functions tree record source : Engine σ Value) where
  result := h
  later ht := (advances_evaluateTree functions tree record source).later ht

end Engine

open Engine

/-! ## Rules -/

section Rules
variable {functions : Scope} {s : Session σ}

theorem Validator.IsPure.steady_call {validator : Validator} (h : validator.IsPure functions s)
    (v : Value) : Steady s (validator.call functions v : Engine σ Value) := by
  have hresult {t u : Session σ} (ht : s.Later t) (hu : s.Later u) :
      (outcome (validator.call functions v) t).1 = (outcome (validator.call functions v) u).1 :=
    h v t u ht.toAlike hu.toAlike
  cases validator with
  | function f =>
    simp only [Validator.call] at hresult ⊢
    exact Engine.steady_call hresult
  | expression source tree own =>
    simp only [Validator.call] at hresult ⊢
    exact steady_evaluateTree hresult

theorem Validator.IsPure.steady_accepts {validator : Validator} (h : validator.IsPure functions s)
    (v : Value) : Steady s (validator.accepts functions v : Engine σ Bool) := by
  refine steady_bind (steady_attempt (steady_bind (h.steady_call v) fun _ => steady_ofFault _))
    fun outcome => ?_
  cases outcome with
  | ok accepted => exact steady_pure accepted
  | error e => exact steady_bind (steady_log _) fun _ => steady_pure false

theorem Rule.steady_check {rules : List Rule} (h : ArePure functions s rules) {rule : Rule}
    (hr : rule ∈ rules) (v : Value) : Steady s (rule.check functions v : Engine σ Bool) := by
  cases rule with
  | custom validator description => exact (h validator description hr).steady_accepts v
  | unknown object => exact steady_throw _
  | between least most => exact steady_ofFault _
  | ofType type => exact steady_ofFault _
  | compared relation bound => exact steady_ofFault _
  | _ => exact steady_pure _

theorem Rule.ArePure.of_cons {rule : Rule} {rules : List Rule}
    (h : ArePure functions s (rule :: rules)) : ArePure functions s rules :=
  fun validator description hr => h validator description (List.mem_cons_of_mem rule hr)

theorem Criterion.steady_errorsOf (catalog : Catalog) (language : Value) (c : Criterion) (v : Value)
    {rules : List Rule} (h : Rule.ArePure functions s rules) (errors : Fields) :
    Steady s (errorsOf functions catalog language c v errors rules : Engine σ Fields) := by
  induction rules generalizing errors with
  | nil => exact steady_pure errors
  | cons rule rest ih =>
    refine steady_bind (Rule.steady_check h List.mem_cons_self v) fun accepted => ?_
    cases accepted with
    | true => exact ih h.of_cons errors
    | false => exact steady_bind (steady_ofFault _) fun message => ih h.of_cons _

theorem Criterion.steady_validate (catalog : Catalog) (language : Value) {c : Criterion}
    (h : Rule.ArePure functions s c.rules) (v : Value) :
    Steady s (c.validate functions catalog language v : Engine σ Verdict) :=
  steady_bind (steady_errorsOf catalog language c v h []) fun _ => steady_pure _

end Rules

/-! ## Resolvers -/

namespace Resolver

/-- A resolver whose derivations and validators answer alike in all sessions later than `s`. -/
structure IsPure (r : Resolver) (s : Session σ) : Prop where
  derivations : ∀ c ∈ r.criteria, c.isDerived = true → ∀ record, Steady s (r.derived c record)
  validators : ∀ c ∈ r.criteria, Rule.ArePure r.functions s c.rules

/-- A resolver whose functions answer alike: every tree has one value, whenever it is evaluated. -/
def HasPureFunctions (r : Resolver) (s : Session σ) : Prop :=
  ∀ (tree : Node) (record : Value) (source : Option Text),
    Steady s (evaluateTree r.functions tree record source)

section Pure
variable {r : Resolver} {s : Session σ} {c : Criterion}

theorem steady_derive {record : Value} (h : Steady s (r.derived c record : Engine σ Value)) :
    Steady s (r.derive c record : Engine σ Value) := by
  rw [derive_eq]
  refine steady_bind (steady_attempt h) fun outcome => ?_
  cases outcome with
  | ok v => exact steady_pure v
  | error cause => exact steady_throw _

theorem IsPure.steady_resolve (h : r.IsPure s) (hc : c ∈ r.criteria) (record : Value) :
    Steady s (r.resolve c record : Engine σ Value) := by
  have hraw : Steady s (r.raw c record : Engine σ Value) := by
    unfold raw
    split
    · rename_i hd
      exact steady_derive (h.derivations c hc hd record)
    · exact steady_ofFault _
  exact steady_bind hraw fun v => steady_ofFault _

theorem IsPure.steady_validate (h : r.IsPure s) (hc : c ∈ r.criteria) (v : Value) :
    Steady s (c.validate r.functions r.catalog r.language v : Engine σ Verdict) :=
  Criterion.steady_validate r.catalog r.language (h.validators c hc) v

end Pure

/-! ## Hosts with one state -/

section OneState
variable [Subsingleton σ] {s t u : Session σ}

theorem outcome_call_of_subsingleton (functions : Scope) (callee : Value) (arguments : List Value)
    (ht : s.Alike t) (hu : s.Alike u) : (outcome (Engine.call functions callee arguments) t).1 =
      (outcome (Engine.call functions callee arguments) u).1 := by
  have hresult (w : Session σ) : (outcome (Engine.call functions callee arguments) w).1 =
      ((Evaluation.call ⟨w.host, functions⟩ w.capacity.evaluation callee arguments).run
        ⟨w.state, 0⟩).1 := rfl
  rw [hresult, hresult, ht.host, hu.host, ht.capacity, hu.capacity, Subsingleton.elim t.state u.state]

theorem outcome_evaluateTree_of_subsingleton (functions : Scope) (tree : Node) (record : Value)
    (source : Option Text) (ht : s.Alike t) (hu : s.Alike u) :
    (outcome (evaluateTree functions tree record source) t).1 =
      (outcome (evaluateTree functions tree record source) u).1 := by
  have hresult (w : Session σ) : (outcome (evaluateTree functions tree record source) w).1 =
      (Expression.evaluateTree w.capacity.evaluation ⟨w.host, functions⟩ tree record source
        w.state).1 := rfl
  rw [hresult, hresult, ht.host, hu.host, ht.capacity, hu.capacity, Subsingleton.elim t.state u.state]

theorem hasPureFunctions_of_subsingleton (r : Resolver) (s : Session σ) : r.HasPureFunctions s :=
  fun tree record source => steady_evaluateTree fun ht hu =>
    outcome_evaluateTree_of_subsingleton r.functions tree record source ht.toAlike hu.toAlike

theorem isPure_of_subsingleton (r : Resolver) (s : Session σ) : r.IsPure s where
  derivations c _ _ record := by
    unfold derived
    split
    · exact Engine.steady_call fun ht hu =>
        outcome_call_of_subsingleton r.functions c.derivation [record] ht.toAlike hu.toAlike
    · exact steady_bind (steady_parse _) fun tree =>
        hasPureFunctions_of_subsingleton r s tree record _
  validators c _ validator description _ v t u ht hu := by
    cases validator with
    | function f =>
      rw [Validator.call]
      exact outcome_call_of_subsingleton r.functions f [v] ht hu
    | expression source tree own =>
      rw [Validator.call]
      exact outcome_evaluateTree_of_subsingleton (own.getD r.functions) tree _ _ ht hu

end OneState

end Resolver
end Vetting
