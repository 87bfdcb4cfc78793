import Vetting.Proofs.Evaluation.Oversized
import Vetting.Proofs.Rule.Acceptance
import Vetting.Proofs.Template.Message

/-!
# When a rule cannot be checked

The check of a rule lets a fault through where it tests an oversized integer, and where an object
that is no rule cannot be shown. A rule that does not hold has a message, which cannot be rendered
where one of its parameters has no text, or the catalog no template that is a text.
-/

namespace Vetting

variable {σ : Type}

/-! ## Checks -/

def Rule.testsNumber : Rule → Bool
  | between .. | ofType .number | compared .. => true
  | _ => false

def Rule.invalid (object : Value) (shown : Text) : Failure :=
  .engine (.general .validation ("Invalid rule type: " ++ object.typeName)
    (.object (Fields.ofNamed [("rule", .text shown)])))

def Validator.raised (e : Failure) : LogEvent :=
  .debug "Custom validator raised" [("error_type", .text e.className), ("error", .text e.message)]

/-- Why the check of a rule lets a fault through. -/
inductive Rule.CheckEscapes (functions : Scope) (v : Value) (s : Session σ) : Rule → Fault → Prop
  | oversized {rule : Rule} (hr : rule.testsNumber = true) (h : v.Oversized) :
      CheckEscapes functions v s rule .integerTooLargeForFloat
  | unknown {object : Value} {f : Fault} (h : object.inspect = .error f) :
      CheckEscapes functions v s (.unknown object) f
  /-- A validator failed, and the log could not be written. -/
  | log {validator : Validator} {description : Text} {e : Failure} {t : Session σ} {f : Fault}
      (hv : outcome (validator.truth functions v) s = (.error e, t))
      (h : t.log.write t.host.instant (Validator.raised e) = .error f) :
      CheckEscapes functions v s (.custom validator description) f

section Check
variable {functions : Scope} {v : Value} {s : Session σ} {e : Failure}

theorem Rule.ofNumber_eq_error_iff {condition : Number → Bool} {f : Fault} :
    ofNumber v condition = .error f ↔ v.Oversized ∧ f = .integerTooLargeForFloat := by
  cases v with
  | number n =>
    simp only [ofNumber, Value.Oversized, Value.number.injEq, exists_eq_left', and_comm,
      ← Number.testNaN_eq_error_iff]
    cases n.testNaN <;> simp [bind, Except.bind, pure, Except.pure]
  | _ => simp [ofNumber, Value.Oversized]

theorem Validator.raises_accepts_iff {validator : Validator} :
    Raises (validator.accepts functions v) s e ↔ ∃ cause t f,
      outcome (validator.truth functions v) s = (.error cause, t) ∧
        t.log.write t.host.instant (raised cause) = .error f ∧ e = .fault f := by
  rw [Raises, outcome_accepts]
  rcases outcome (validator.truth functions v) s with ⟨cause | truth, t⟩
  · have hlog : Raises (report (.error cause)) t e ↔ Raises (Engine.log (raised cause)) t e := by
      rw [report, raises_bind_iff]
      refine ⟨fun h => h.resolve_right ?_, .inl⟩
      rintro ⟨_, _, _, h⟩
      exact not_raises_pure h
    rw [← Raises, hlog, Engine.raises_log_iff]
    simp
  · simp [report]

theorem Rule.checkEscapes_of_testsNumber {rule : Rule} (hr : rule.testsNumber = true) {f : Fault} :
    CheckEscapes functions v s rule f ↔ v.Oversized ∧ f = .integerTooLargeForFloat := by
  constructor
  · intro h
    cases h with
    | oversized _ h => exact ⟨h, rfl⟩
    | unknown => cases hr
    | log => cases hr
  · rintro ⟨h, rfl⟩
    exact .oversized hr h

theorem Rule.raises_check_of_testsNumber {rule : Rule} (hr : rule.testsNumber = true) :
    Raises (rule.check functions v) s e ↔ v.Oversized ∧ e = .fault .integerTooLargeForFloat := by
  have key {condition : Number → Bool} :
      Raises (Engine.ofFault (ofNumber v condition) : Engine σ Bool) s e ↔
        v.Oversized ∧ e = .fault .integerTooLargeForFloat := by
    simp only [Engine.raises_ofFault_iff, ofNumber_eq_error_iff, and_assoc, exists_and_left,
      exists_eq_left]
  cases rule with
  | between least most => exact key
  | compared relation bound => exact key
  | ofType type =>
    cases type with
    | number => exact key
    | _ => cases hr
  | _ => cases hr

/-- A check fails where a fault escapes, and on an object that is no rule. -/
theorem Rule.raises_check_iff {rule : Rule} :
    Raises (rule.check functions v) s e ↔
      (∃ f, e = .fault f ∧ CheckEscapes functions v s rule f) ∨
        ∃ object shown, rule = .unknown object ∧ object.inspect = .ok shown ∧
          e = invalid object shown := by
  by_cases hr : rule.testsNumber = true
  · have hknown : ∀ object, rule ≠ .unknown object := by
      rintro object rfl
      cases hr
    simp only [raises_check_of_testsNumber hr, checkEscapes_of_testsNumber hr, hknown, false_and,
      exists_false, or_false]
    constructor
    · rintro ⟨h, rfl⟩
      exact ⟨_, rfl, h, rfl⟩
    · rintro ⟨f, rfl, h, rfl⟩
      exact ⟨h, rfl⟩
  · constructor
    · intro h
      cases rule with
      | custom validator description =>
        obtain ⟨cause, t, f, hv, hf, rfl⟩ := Validator.raises_accepts_iff.mp h
        exact .inl ⟨f, rfl, .log hv hf⟩
      | unknown object =>
        have he : e = unknownRule object := raises_throw_iff.mp h
        unfold unknownRule at he
        split at he
        · rename_i f hf
          exact .inl ⟨f, he, .unknown hf⟩
        · rename_i shown hs
          exact .inr ⟨object, shown, rfl, hs, he⟩
      | ofType type =>
        cases type with
        | number => exact absurd rfl hr
        | _ => cases h
      | between => exact absurd rfl hr
      | compared => exact absurd rfl hr
      | _ => cases h
    · rintro (⟨f, rfl, h⟩ | ⟨object, shown, rfl, hs, rfl⟩)
      · cases h with
        | oversized ht => exact absurd ht hr
        | unknown hf =>
          refine raises_throw_iff.mpr ?_
          rw [unknownRule, hf]
        | log hv hf => exact Validator.raises_accepts_iff.mpr ⟨_, _, f, hv, hf, rfl⟩
      · refine raises_throw_iff.mpr ?_
        rw [unknownRule, hs]
        rfl

end Check

/-! ## Messages -/

/-- Why the message of a rule that does not hold cannot be made. -/
inductive Criterion.MessageEscapes (catalog : Catalog) (language : Value) (c : Criterion) (rule : Rule) :
    Fault → Prop
  | values {values : List Value} {f : Fault} (hr : rule = .oneOf values ∨ rule = .includes values)
      (h : (Value.array values).json none = .error f) : MessageEscapes catalog language c rule f
  | render {parameters : Fields} {f : Fault}
      (hp : rule.messageParameters c.displayName = .ok parameters)
      (h : catalog.RenderEscapes language (.text rule.messageKey) parameters f) :
      MessageEscapes catalog language c rule f

section Messages
variable {catalog : Catalog} {language : Value} {c : Criterion} {f : Fault}

theorem Rule.messageParameters_eq_error_iff {rule : Rule} {criterion : Value} :
    rule.messageParameters criterion = .error f ↔
      ∃ values, (rule = .oneOf values ∨ rule = .includes values) ∧
        (Value.array values).json none = .error f := by
  have key (values : List Value) : (do
      let own ← (do
        let shown ← (Value.array values).json none
        pure [(("values" : Text), Value.text shown)])
      return Fields.ofNamed (("criterion", criterion) :: own) : Except Fault Fields) = .error f ↔
        (Value.array values).json none = .error f := by
    cases (Value.array values).json none <;> simp [bind, Except.bind, pure, Except.pure]
  cases rule with
  | oneOf values => simpa [messageParameters] using key values
  | includes values => simpa [messageParameters] using key values
  | _ => simp [messageParameters, bind, Except.bind, pure, Except.pure]

theorem Criterion.messageFor_eq_error_iff {rule : Rule} :
    c.messageFor catalog language rule = .error f ↔ c.MessageEscapes catalog language rule f := by
  unfold messageFor
  cases hp : rule.messageParameters c.displayName with
  | error g =>
    obtain ⟨values, hr, hg⟩ := Rule.messageParameters_eq_error_iff.mp hp
    constructor
    · intro h
      cases h
      exact .values hr hg
    · intro h
      have hf : rule.messageParameters c.displayName = .error f := by
        cases h with
        | values hr h => exact Rule.messageParameters_eq_error_iff.mpr ⟨_, hr, h⟩
        | render hp' h => cases hp.symm.trans hp'
      cases hp.symm.trans hf
      rfl
  | ok parameters =>
    show Catalog.render _ _ _ _ _ = _ ↔ _
    rw [Catalog.render_eq_error_iff]
    constructor
    · exact fun h => .render hp h
    · intro h
      cases h with
      | values hr h => cases hp.symm.trans (Rule.messageParameters_eq_error_iff.mpr ⟨_, hr, h⟩)
      | render hp' h =>
        cases hp.symm.trans hp'
        exact h

end Messages

/-! ## Checking rule after rule -/

/-- Checks of rules that return, each with a message if the rule does not hold. -/
inductive Criterion.Checked (functions : Scope) (catalog : Catalog) (language : Value) (c : Criterion)
    (v : Value) : Session σ → List Rule → Session σ → Prop
  | nil {s : Session σ} : Checked functions catalog language c v s [] s
  | holds {s t u : Session σ} {rule : Rule} {rest : List Rule}
      (hc : outcome (rule.check functions v) s = (.ok true, t))
      (hr : Checked functions catalog language c v t rest u) :
      Checked functions catalog language c v s (rule :: rest) u
  | fails {s t u : Session σ} {rule : Rule} {rest : List Rule} {message : Value}
      (hc : outcome (rule.check functions v) s = (.ok false, t))
      (hm : c.messageFor catalog language rule = .ok message)
      (hr : Checked functions catalog language c v t rest u) :
      Checked functions catalog language c v s (rule :: rest) u

/-- Why the check of a rule with its message fails. -/
inductive Criterion.RuleRaises (functions : Scope) (catalog : Catalog) (language : Value)
    (c : Criterion) (v : Value) (s : Session σ) (rule : Rule) : Failure → Prop
  | check {e : Failure} (h : Raises (rule.check functions v) s e) :
      RuleRaises functions catalog language c v s rule e
  | message {t : Session σ} {f : Fault} (hc : outcome (rule.check functions v) s = (.ok false, t))
      (hm : c.MessageEscapes catalog language rule f) :
      RuleRaises functions catalog language c v s rule (.fault f)

namespace Criterion

section Errors
variable {functions : Scope} {catalog : Catalog} {language v : Value} {c : Criterion} {rule : Rule}
  {rest rules : List Rule} {errors : Fields} {s t : Session σ} {e : Failure}

/-- Where a check fails, the rules before it were checked. -/
theorem exists_ruleRaises_of_raises
    (h : Raises (errorsOf functions catalog language c v errors rules) s e) :
    ∃ before rule after t, rules = before ++ rule :: after ∧
      c.Checked functions catalog language v s before t ∧
      c.RuleRaises functions catalog language v t rule e := by
  induction rules generalizing errors s with
  | nil => cases h
  | cons rule rest ih =>
    rw [errorsOf, raises_bind_iff] at h
    rcases h with h | ⟨accepted, t, hc, h⟩
    · exact ⟨[], rule, rest, s, rfl, .nil, .check h⟩
    cases accepted with
    | true =>
      obtain ⟨before, failing, after, u, rfl, hb, hf⟩ := ih h
      exact ⟨rule :: before, failing, after, u, rfl, .holds hc hb, hf⟩
    | false =>
      cases hm : c.messageFor catalog language rule with
      | error f =>
        rcases raises_bind_iff.mp h with h | ⟨_, _, h, _⟩
        · obtain ⟨g, hg, rfl⟩ := Engine.raises_ofFault_iff.mp h
          exact ⟨[], rule, rest, s, rfl, .nil, .message hc (messageFor_eq_error_iff.mp hg)⟩
        · rw [hm] at h
          cases h
      | ok message =>
        have hok : outcome (Engine.ofFault (c.messageFor catalog language rule)) t =
            (.ok message, t) := by
          rw [hm]
          rfl
        obtain ⟨before, failing, after, u, rfl, hb, hf⟩ := ih ((raises_bind_of_ok hok).mp h)
        exact ⟨rule :: before, failing, after, u, rfl, .fails hc hm hb, hf⟩

theorem RuleRaises.raises_errorsOf (h : c.RuleRaises functions catalog language v s rule e)
    (errors : Fields) (rest : List Rule) :
    Raises (errorsOf functions catalog language c v errors (rule :: rest)) s e := by
  rw [errorsOf]
  cases h with
  | check h => exact raises_bind_iff.mpr (.inl h)
  | message hc hm =>
    refine (raises_bind_of_ok hc).mpr (raises_bind_iff.mpr (.inl ?_))
    exact Engine.raises_ofFault_iff.mpr ⟨_, messageFor_eq_error_iff.mpr hm, rfl⟩

theorem Checked.raises_errorsOf (hb : c.Checked functions catalog language v s rules t)
    (h : c.RuleRaises functions catalog language v t rule e) (errors : Fields) (rest : List Rule) :
    Raises (errorsOf functions catalog language c v errors (rules ++ rule :: rest)) s e := by
  induction hb generalizing errors with
  | nil => exact h.raises_errorsOf errors rest
  | holds hc _ ih =>
    rw [List.cons_append, errorsOf, raises_bind_of_ok hc]
    exact ih h errors
  | @fails s t u first before message hc hm _ ih =>
    have hok : outcome (Engine.ofFault (c.messageFor catalog language first)) t = (.ok message, t) := by
      rw [hm]
      rfl
    rw [List.cons_append, errorsOf, raises_bind_of_ok hc]
    exact (raises_bind_of_ok hok).mpr (ih h _)

/-- The rules of a criterion are checked in order, up to the first one that fails. -/
theorem raises_validate_iff : Raises (c.validate functions catalog language v) s e ↔
    ∃ before rule after t, c.rules = before ++ rule :: after ∧
      c.Checked functions catalog language v s before t ∧
      c.RuleRaises functions catalog language v t rule e := by
  rw [validate, raises_bind_iff]
  constructor
  · rintro (h | ⟨_, _, _, h⟩)
    · exact exists_ruleRaises_of_raises h
    · cases h
  · rintro ⟨before, rule, after, t, hrules, hb, h⟩
    rw [hrules]
    exact .inl (hb.raises_errorsOf h [] after)

end Errors

end Criterion
end Vetting
