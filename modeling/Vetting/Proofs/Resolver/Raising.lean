import Vetting.Proofs.Coercion
import Vetting.Proofs.Resolver.Equation
import Vetting.Proofs.Resolver.Query
import Vetting.Proofs.Rule.Fault

/-!
# What a validation raises

A validation raises the error of a criterion without an id, of a derivation that failed, or of an object
that is no rule. Everything else that it raises is a fault, which comes from a coercion, the check of
a rule, a message, or the log.
-/

namespace Vetting

variable {σ : Type}

def Criterion.missingId (c : Criterion) : Failure :=
  .configuration "Criterion id is required" [("name", c.name)]

/-- The errors that a criterion may be the reason for. -/
inductive Criterion.Documented (c : Criterion) : Failure → Prop
  | id (h : c.id.isSet = false) : Documented c c.missingId
  | derivation {shown : Text} {cause : Failure} (h : c.isDerived = true) :
      Documented c (.engine (.computation c.id shown cause))
  | rule {object : Value} {shown : Text} (h : .unknown object ∈ c.rules) :
      Documented c (Rule.invalid object shown)

namespace Resolver

section Reasons
variable (r : Resolver) (record : Value) (c : Criterion)

/-- Why the value of a criterion lets a fault through. -/
inductive ValueEscapes (s : Session σ) : Fault → Prop
  /-- A derivation failed, and the id cannot be shown. -/
  | id {cause : Failure} {t : Session σ} {f : Fault} (hd : c.isDerived = true)
      (hv : outcome (r.derived c record) s = (.error cause, t)) (h : c.id.display = .error f) :
      ValueEscapes s f
  | coercion {v : Value} {t : Session σ} {f : Fault} (hv : outcome (r.raw c record) s = (.ok v, t))
      (h : Coercion.Escapes v c.rules f) : ValueEscapes s f

/-- Why the verdict on a criterion lets a fault through. -/
inductive VerdictEscapes (s : Session σ) : Fault → Prop
  | value {f : Fault} (h : r.ValueEscapes record c s f) : VerdictEscapes s f
  | check {v : Value} {t u : Session σ} {before after : List Rule} {rule : Rule} {f : Fault}
      (hv : outcome (r.resolve c record) s = (.ok v, t)) (hrules : c.rules = before ++ rule :: after)
      (hb : c.Checked r.functions r.catalog r.language v t before u)
      (h : rule.CheckEscapes r.functions v u f) : VerdictEscapes s f
  | message {v : Value} {t u w : Session σ} {before after : List Rule} {rule : Rule} {f : Fault}
      (hv : outcome (r.resolve c record) s = (.ok v, t)) (hrules : c.rules = before ++ rule :: after)
      (hb : c.Checked r.functions r.catalog r.language v t before u)
      (hc : outcome (rule.check r.functions v) u = (.ok false, w))
      (h : c.MessageEscapes r.catalog r.language rule f) : VerdictEscapes s f

end Reasons

def validated (summary : Summary) : LogEvent :=
  .debug "Criteria validated" [
    ("passed", .integer summary.passed.length), ("failed", .integer summary.failed.length)]

def derivationFailed (c : Criterion) (cause : Failure) : LogEvent :=
  .debug "Derivation failed" [("criterion", c.id), ("error", .text cause.message)]

section Reasons
variable (r : Resolver) (record : Value)

/-- Why a validation lets a fault through: the first criterion without a verdict does, or the log. -/
inductive ValidationEscapes (s : Session σ) : Fault → Prop
  | verdict {judged : List Judged} {u : Session σ} {c : Criterion} {after : List Criterion} {f : Fault}
      (hb : r.FirstPass record s judged u)
      (hcriteria : r.criteria = judged.map (·.criterion) ++ c :: after) (hid : c.id.isSet = true)
      (h : r.VerdictEscapes record c u f) : ValidationEscapes s f
  | log {judged : List Judged} {u : Session σ} {f : Fault} (hb : r.FirstPass record s judged u)
      (hcriteria : r.criteria = judged.map (·.criterion))
      (h : u.log.write u.host.instant (validated (Summary.ofVerdicts (judged.map (·.verdict)))) =
        .error f) : ValidationEscapes s f

/-- Why the verdict on a derivation that failed late lets a fault through. -/
inductive LateEscapes (c : Criterion) (cause : Failure) (s : Session σ) : Fault → Prop
  | log {f : Fault} (h : s.log.write s.host.instant (derivationFailed c cause) = .error f) :
      LateEscapes c cause s f
  | message {t : Session σ} {f : Fault}
      (hl : outcome (Engine.log (derivationFailed c cause)) s = (.ok (), t))
      (h : r.catalog.RenderEscapes r.language (.text "errors.computeValueFailed")
        (Fields.ofNamed [("criterion", c.displayName)]) f) : LateEscapes c cause s f

/-- Why a query lets a fault through: the validation does, or the first criterion of a success that is
not resolved for the record to hand out. -/
inductive QueryEscapes (s : Session σ) : Fault → Prop
  | validation {f : Fault} (h : r.ValidationEscapes record s f) : QueryEscapes s f
  | value {summary : Summary} {collected : List Collected} {u w : Session σ} {c : Criterion}
      {after : List Criterion} {f : Fault} (hv : outcome (r.validateAll record) s = (.ok summary, u))
      (hs : summary.overallSuccess = true) (hb : r.SecondPass record u collected w)
      (hcriteria : r.criteria = collected.map (·.criterion) ++ c :: after)
      (h : r.ValueEscapes record c w f) : QueryEscapes s f
  | late {summary : Summary} {collected : List Collected} {u w x : Session σ} {c : Criterion}
      {after : List Criterion} {id : Value} {shown : Text} {cause : Failure} {f : Fault}
      (hv : outcome (r.validateAll record) s = (.ok summary, u))
      (hs : summary.overallSuccess = true) (hb : r.SecondPass record u collected w)
      (hcriteria : r.criteria = collected.map (·.criterion) ++ c :: after)
      (hc : outcome (r.resolve c record) w = (.error (.engine (.computation id shown cause)), x))
      (h : r.LateEscapes c cause x f) : QueryEscapes s f

end Reasons

/-! ## Values -/

section Values
variable {r : Resolver} {c : Criterion} {fields : Fields} {s : Session σ} {e : Failure} {f : Fault}

theorem raw_eq_derive {record : Value} (h : c.isDerived = true) :
    (r.raw c record : Engine σ Value) = r.derive c record := by
  rw [raw, if_pos h]

theorem raises_raw_iff : Raises (r.raw c (.object fields)) s e ↔ c.isDerived = true ∧
    ∃ cause t, outcome (r.derived c (.object fields)) s = (.error cause, t) ∧
      e = Failure.computation c.id cause := by
  cases hd : c.isDerived with
  | false =>
    have hraw : (r.raw c (.object fields) : Engine σ Value) =
        Engine.ofFault ((Value.object fields).getKey c.id) := by
      rw [raw, hd]
      rfl
    rw [hraw, Engine.raises_ofFault_iff, Value.getKey]
    simp
  | true =>
    rw [raw_eq_derive hd]
    rcases h : outcome (r.derived c (.object fields)) s with ⟨cause | v, t⟩
    · rw [Raises, outcome_derive_of_error h]
      simp [eq_comm]
    · rw [Raises, outcome_derive_of_ok h]
      simp

/-- The value of a criterion fails to be resolved with the failure of its derivation, or a fault. -/
theorem raises_resolve_iff : Raises (r.resolve c (.object fields)) s e ↔
    (∃ f, e = .fault f ∧ r.ValueEscapes (.object fields) c s f) ∨
      c.isDerived = true ∧ ∃ cause t shown, e = .engine (.computation c.id shown cause) ∧
        outcome (r.derived c (.object fields)) s = (.error cause, t) ∧
          c.id.display = .ok shown := by
  rw [resolve, raises_bind_iff, raises_raw_iff]
  constructor
  · rintro (⟨hd, cause, t, hv, rfl⟩ | ⟨v, t, hv, h⟩)
    · cases hid : c.id.display with
      | error f =>
        refine .inl ⟨f, ?_, .id hd hv hid⟩
        rw [Failure.computation, hid]
      | ok shown =>
        refine .inr ⟨hd, cause, t, shown, ?_, hv, rfl⟩
        rw [Failure.computation, hid]
    · obtain ⟨f, hf, rfl⟩ := Engine.raises_ofFault_iff.mp h
      exact .inl ⟨f, rfl, .coercion hv (Coercion.coerce_eq_error_iff.mp hf)⟩
  · rintro (⟨f, rfl, h⟩ | ⟨hd, cause, t, shown, rfl, hv, hid⟩)
    · cases h with
      | id hd hv hid =>
        refine .inl ⟨hd, _, _, hv, ?_⟩
        rw [Failure.computation, hid]
      | coercion hv h =>
        exact .inr ⟨_, _, hv,
          Engine.raises_ofFault_iff.mpr ⟨f, Coercion.coerce_eq_error_iff.mpr h, rfl⟩⟩
    · refine .inl ⟨hd, cause, t, hv, ?_⟩
      rw [Failure.computation, hid]

theorem raises_resolve_fault_iff :
    Raises (r.resolve c (.object fields)) s (.fault f) ↔ r.ValueEscapes (.object fields) c s f := by
  rw [raises_resolve_iff]
  simp

end Values

/-! ## Verdicts -/

section Verdicts
variable {r : Resolver} {c : Criterion} {fields : Fields} {s : Session σ} {e : Failure} {f : Fault}

theorem raises_verdictOn_iff (hid : c.id.isSet = true) {record : Value} :
    Raises (r.verdictOn record c) s e ↔ Raises (r.resolve c record) s e ∨
      ∃ v t, outcome (r.resolve c record) s = (.ok v, t) ∧
        Raises (c.validate r.functions r.catalog r.language v) t e := by
  have hverdict : (r.verdictOn record c : Engine σ Verdict) = (do
      let v ← r.resolve c record
      c.validate r.functions r.catalog r.language v) := by
    rw [verdictOn, hid]
    rfl
  rw [hverdict, raises_bind_iff]

/-- A criterion fails to get a verdict with an error that it is the reason for, or a fault. -/
theorem documented_of_raises_verdictOn (h : Raises (r.verdictOn (.object fields) c) s e) :
    c.Documented e ∨ ∃ f, e = .fault f := by
  by_cases hid : c.id.isSet = true
  · rcases (raises_verdictOn_iff hid).mp h with h | ⟨v, t, hv, h⟩
    · rcases raises_resolve_iff.mp h with ⟨f, rfl, _⟩ | ⟨hd, _, _, _, rfl, _⟩
      · exact .inr ⟨f, rfl⟩
      · exact .inl (.derivation hd)
    · obtain ⟨before, rule, after, u, hrules, _, h⟩ := Criterion.raises_validate_iff.mp h
      cases h with
      | message => exact .inr ⟨_, rfl⟩
      | check h =>
        rcases Rule.raises_check_iff.mp h with ⟨f, rfl, _⟩ | ⟨object, shown, rfl, _, rfl⟩
        · exact .inr ⟨f, rfl⟩
        · exact .inl (.rule (by simp [hrules]))
  · have hmissing : Raises (r.verdictOn (.object fields) c) s c.missingId := by
      rw [Raises, verdictOn, Bool.eq_false_iff.mpr hid]
      rfl
    cases hmissing.symm.trans h
    exact .inl (.id (Bool.eq_false_iff.mpr hid))

theorem raises_verdictOn_fault_iff (hid : c.id.isSet = true) :
    Raises (r.verdictOn (.object fields) c) s (.fault f) ↔
      r.VerdictEscapes (.object fields) c s f := by
  rw [raises_verdictOn_iff hid, raises_resolve_fault_iff]
  constructor
  · rintro (h | ⟨v, t, hv, h⟩)
    · exact .value h
    · obtain ⟨before, rule, after, u, hrules, hb, h⟩ := Criterion.raises_validate_iff.mp h
      cases h with
      | message hc hm => exact .message hv hrules hb hc hm
      | check h =>
        rcases Rule.raises_check_iff.mp h with ⟨g, hg, h⟩ | ⟨_, _, _, _, he⟩
        · cases hg
          exact .check hv hrules hb h
        · cases he
  · intro h
    cases h with
    | value h => exact .inl h
    | check hv hrules hb h =>
      refine .inr ⟨_, _, hv, Criterion.raises_validate_iff.mpr ⟨_, _, _, _, hrules, hb, .check ?_⟩⟩
      exact Rule.raises_check_iff.mpr (.inl ⟨f, rfl, h⟩)
    | message hv hrules hb hc h =>
      exact .inr ⟨_, _, hv, Criterion.raises_validate_iff.mpr ⟨_, _, _, _, hrules, hb, .message hc h⟩⟩

end Verdicts

/-! ## Validations -/

section Validations
variable {r : Resolver} {record : Value} {s t : Session σ} {e : Failure} {f : Fault}

theorem outcome_verdictOn {c : Criterion} {v : Value} {verdict : Verdict} {u : Session σ}
    (hid : c.id.isSet = true) (hv : outcome (r.resolve c record) s = (.ok v, t))
    (hj : outcome (c.validate r.functions r.catalog r.language v) t = (.ok verdict, u)) :
    outcome (r.verdictOn record c) s = (.ok verdict, u) := by
  rw [verdictOn, hid]
  exact (outcome_bind_of_ok hv).trans hj

theorem FirstPass.outcome_verdictsOn {judged : List Judged} (h : r.FirstPass record s judged t) :
    outcome (r.verdictsOn record (judged.map (·.criterion))) s =
      (.ok (judged.map (·.verdict)), t) := by
  induction h with
  | nil => rfl
  | cons hid hv hj _ ih =>
    rw [List.map_cons, verdictsOn, outcome_bind_of_ok (outcome_verdictOn hid hv hj),
      outcome_bind_of_ok ih]
    rfl

/-- The verdicts fail at the first criterion that has none. -/
theorem raises_verdictsOn_iff {criteria : List Criterion} :
    Raises (r.verdictsOn record criteria) s e ↔ ∃ judged u c after,
      r.FirstPass record s judged u ∧ criteria = judged.map (·.criterion) ++ c :: after ∧
        Raises (r.verdictOn record c) u e := by
  constructor
  · intro h
    induction criteria generalizing s with
    | nil => cases h
    | cons c rest ih =>
      rw [verdictsOn, raises_bind_iff] at h
      rcases h with h | ⟨verdict, u, hc, h⟩
      · exact ⟨[], s, c, rest, .nil, rfl, h⟩
      rcases raises_bind_iff.mp h with h | ⟨_, _, _, h⟩
      · obtain ⟨judged, w, d, after, hpass, rfl, hd⟩ := ih h
        have hone : outcome (r.verdictsOn record [c]) s = (.ok [verdict], u) := by
          rw [verdictsOn, outcome_bind_of_ok hc]
          rfl
        obtain ⟨first, hfirst, hcriteria, hverdict⟩ := exists_firstPass hone
        exact ⟨first ++ judged, w, d, after, hfirst.append hpass, by simp [hcriteria], hd⟩
      · cases h
  · rintro ⟨judged, u, c, after, hpass, rfl, h⟩
    induction hpass with
    | nil => exact raises_bind_iff.mpr (.inl h)
    | cons hid hv hj _ ih =>
      rw [List.map_cons, List.cons_append, verdictsOn,
        raises_bind_of_ok (outcome_verdictOn hid hv hj)]
      exact raises_bind_iff.mpr (.inl (ih h))

theorem validateAll_eq : (r.validateAll record : Engine σ Summary) = (do
    let verdicts ← r.verdictsOn record r.criteria
    Engine.log (validated (Summary.ofVerdicts verdicts))
    return Summary.ofVerdicts verdicts) := rfl

/-- A validation that returns is a first pass that is logged. -/
theorem exists_firstPass_logged {summary : Summary}
    (h : outcome (r.validateAll record) s = (.ok summary, t)) :
    ∃ judged u, r.FirstPass record s judged u ∧ judged.map (·.criterion) = r.criteria ∧
      summary = Summary.ofVerdicts (judged.map (·.verdict)) ∧
      outcome (Engine.log (validated summary)) u = (.ok (), t) := by
  rw [validateAll_eq, outcome_bind_eq_ok_iff] at h
  obtain ⟨verdicts, u, hverdicts, h⟩ := h
  rw [outcome_bind_eq_ok_iff] at h
  obtain ⟨_, _, hlog, h⟩ := h
  cases h
  obtain ⟨judged, hpass, hcriteria, rfl⟩ := exists_firstPass hverdicts
  exact ⟨judged, u, hpass, hcriteria, rfl, hlog⟩

/-- A validation fails at the first criterion without a verdict, or when it is logged. -/
theorem raises_validateAll_iff : Raises (r.validateAll record) s e ↔
    (∃ judged u c after, r.FirstPass record s judged u ∧
      r.criteria = judged.map (·.criterion) ++ c :: after ∧ Raises (r.verdictOn record c) u e) ∨
    ∃ judged u f, r.FirstPass record s judged u ∧ r.criteria = judged.map (·.criterion) ∧
      u.log.write u.host.instant (validated (Summary.ofVerdicts (judged.map (·.verdict)))) =
        .error f ∧ e = .fault f := by
  rw [validateAll_eq, raises_bind_iff, raises_verdictsOn_iff]
  refine or_congr_right ?_
  constructor
  · rintro ⟨verdicts, u, hverdicts, h⟩
    obtain ⟨judged, hpass, hcriteria, rfl⟩ := exists_firstPass hverdicts
    rcases raises_bind_iff.mp h with h | ⟨_, _, _, h⟩
    · obtain ⟨f, hf, rfl⟩ := Engine.raises_log_iff.mp h
      exact ⟨judged, u, f, hpass, hcriteria.symm, hf, rfl⟩
    · cases h
  · rintro ⟨judged, u, f, hpass, hcriteria, hf, rfl⟩
    refine ⟨judged.map (·.verdict), u, ?_, ?_⟩
    · rw [hcriteria]
      exact hpass.outcome_verdictsOn
    · exact raises_bind_iff.mpr (.inl (Engine.raises_log_iff.mpr ⟨f, hf, rfl⟩))

/-- The faults of a validation are those that a verdict or the log lets through. -/
theorem raises_validateAll_fault_iff {fields : Fields} :
    Raises (r.validateAll (.object fields)) s (.fault f) ↔
      r.ValidationEscapes (.object fields) s f := by
  rw [raises_validateAll_iff]
  constructor
  · rintro (⟨judged, u, c, after, hpass, hcriteria, h⟩ | ⟨judged, u, g, hpass, hcriteria, hg, he⟩)
    · have hid : c.id.isSet = true := by
        cases hid : c.id.isSet with
        | true => rfl
        | false =>
          rw [Raises, verdictOn, hid] at h
          cases h
      exact .verdict hpass hcriteria hid ((raises_verdictOn_fault_iff hid).mp h)
    · cases he
      exact .log hpass hcriteria hg
  · intro h
    cases h with
    | verdict hpass hcriteria hid h =>
      exact .inl ⟨_, _, _, _, hpass, hcriteria, (raises_verdictOn_fault_iff hid).mpr h⟩
    | log hpass hcriteria h => exact .inr ⟨_, _, f, hpass, hcriteria, h, rfl⟩

theorem documented_of_raises_validateAll {fields : Fields}
    (h : Raises (r.validateAll (.object fields)) s e) :
    (∃ c ∈ r.criteria, c.Documented e) ∨ ∃ f, e = .fault f := by
  rcases raises_validateAll_iff.mp h with ⟨judged, u, c, after, _, hcriteria, h⟩ | ⟨_, _, f, _, _, _, he⟩
  · refine (documented_of_raises_verdictOn h).imp_left fun hc => ⟨c, ?_, hc⟩
    simp [hcriteria]
  · exact .inr ⟨f, he⟩

end Validations

/-! ## Queries -/

section Queries
variable {r : Resolver} {record : Value} {s t : Session σ} {e : Failure} {f : Fault}

/-- Why a criterion cannot be resolved for the record to hand out. -/
inductive CollectRaises (r : Resolver) (record : Value) (c : Criterion) (s : Session σ) : Failure → Prop
  | value {f : Fault} (h : Raises (r.resolve c record) s (.fault f)) :
      CollectRaises r record c s (.fault f)
  | late {t : Session σ} {id : Value} {shown : Text} {cause e : Failure}
      (hc : outcome (r.resolve c record) s = (.error (.engine (.computation id shown cause)), t))
      (h : Raises (r.derivationVerdict c cause) t e) : CollectRaises r record c s e

/-- The record to hand out fails at the first criterion that cannot be resolved for it. -/
theorem exists_collectRaises_of_raises {fields : Fields} {summary : Summary} {data : Fields}
    {criteria : List Criterion}
    (h : Raises (r.collect (.object fields) summary data criteria) s e) :
    ∃ collected u c after, r.SecondPass (.object fields) s collected u ∧
      criteria = collected.map (·.criterion) ++ c :: after ∧
        CollectRaises r (.object fields) c u e := by
  induction criteria generalizing s summary data with
  | nil => cases h
  | cons c rest ih =>
    rw [collect, raises_bind_of_ok (Engine.outcome_attempt ..)] at h
    rcases hv : outcome (r.resolve c (.object fields)) s with ⟨e' | v, u⟩
    · rw [hv] at h
      rcases raises_resolve_iff.mp (raises_of_outcome hv) with
        ⟨f, rfl, _⟩ | ⟨_, cause, _, shown, rfl, _⟩
      · cases raises_throw_iff.mp h
        exact ⟨[], s, c, rest, .nil, rfl, .value (raises_of_outcome hv)⟩
      · rcases raises_bind_iff.mp h with h | ⟨verdict, w, hj, h⟩
        · exact ⟨[], s, c, rest, .nil, rfl, .late hv h⟩
        · obtain ⟨collected, x, d, after, hpass, rfl, hd⟩ := ih h
          exact ⟨⟨c, .error verdict⟩ :: collected, x, d, after, .late hv hj hpass, rfl, hd⟩
    · rw [hv] at h
      obtain ⟨collected, x, d, after, hpass, rfl, hd⟩ := ih h
      exact ⟨⟨c, .ok v⟩ :: collected, x, d, after, .value hv hpass, rfl, hd⟩

theorem SecondPass.raises_collect {collected : List Collected} {c : Criterion}
    (hb : r.SecondPass record s collected t) (h : CollectRaises r record c t e) (summary : Summary)
    (data : Fields) (after : List Criterion) :
    Raises (r.collect record summary data (collected.map (·.criterion) ++ c :: after)) s e := by
  induction hb generalizing summary data with
  | nil =>
    rw [List.map_nil, List.nil_append, collect, raises_bind_of_ok (Engine.outcome_attempt ..)]
    cases h with
    | value h =>
      rw [Raises] at h
      rw [h]
      exact raises_throw_iff.mpr rfl
    | late hc h =>
      rw [hc]
      exact raises_bind_iff.mpr (.inl h)
  | value hv _ ih =>
    rw [List.map_cons, List.cons_append, collect, raises_bind_of_ok (Engine.outcome_attempt ..), hv]
    exact ih h _ _
  | late hv hj _ ih =>
    rw [List.map_cons, List.cons_append, collect, raises_bind_of_ok (Engine.outcome_attempt ..), hv]
    exact (raises_bind_of_ok hj).mpr (ih h _ _)

theorem failedVerdict_eq_error_iff {criterion : Value} {label messageKey : Text}
    {parameters : List (Text × Value)} :
    r.failedVerdict criterion label messageKey parameters = .error f ↔
      r.catalog.RenderEscapes r.language (.text messageKey) (Fields.ofNamed parameters) f := by
  have hrender : r.catalog.render r.language (.text messageKey) (Fields.ofNamed parameters)
      (.text messageKey) = .error f ↔
        r.catalog.RenderEscapes r.language (.text messageKey) (Fields.ofNamed parameters) f :=
    Catalog.render_eq_error_iff
  rw [← hrender, failedVerdict]
  cases r.catalog.render r.language (.text messageKey) (Fields.ofNamed parameters)
    (.text messageKey) <;> simp [bind, Except.bind, pure, Except.pure]

theorem raises_derivationVerdict_iff {c : Criterion} {cause : Failure} :
    Raises (r.derivationVerdict c cause) s e ↔ ∃ f, e = .fault f ∧ r.LateEscapes c cause s f := by
  have hverdict : (r.derivationVerdict c cause : Engine σ Verdict) = (do
      Engine.log (derivationFailed c cause)
      Engine.ofFault (r.failedVerdict c.id "compute" "errors.computeValueFailed"
        [("criterion", c.displayName)])) := rfl
  rw [hverdict, raises_bind_iff, Engine.raises_log_iff]
  constructor
  · rintro (⟨f, hf, rfl⟩ | ⟨_, t, hl, h⟩)
    · exact ⟨f, rfl, .log hf⟩
    · obtain ⟨f, hf, rfl⟩ := Engine.raises_ofFault_iff.mp h
      exact ⟨f, rfl, .message hl (failedVerdict_eq_error_iff.mp hf)⟩
  · rintro ⟨f, rfl, h⟩
    cases h with
    | log h => exact .inl ⟨f, h, rfl⟩
    | message hl h =>
      exact .inr ⟨_, _, hl,
        Engine.raises_ofFault_iff.mpr ⟨f, failedVerdict_eq_error_iff.mpr h, rfl⟩⟩

/-- A query fails as its validation does, or at the record to hand out. -/
theorem raises_processQuery_iff {fields : Fields} : Raises (r.processQuery (.object fields)) s e ↔
    Raises (r.validateAll (.object fields)) s e ∨ ∃ summary u collected w c after,
      outcome (r.validateAll (.object fields)) s = (.ok summary, u) ∧ summary.overallSuccess = true ∧
        r.SecondPass (.object fields) u collected w ∧
          r.criteria = collected.map (·.criterion) ++ c :: after ∧
            CollectRaises r (.object fields) c w e := by
  rw [processQuery, raises_bind_iff]
  refine or_congr_right ⟨?_, ?_⟩
  · rintro ⟨summary, u, hv, h⟩
    cases hs : summary.overallSuccess with
    | false =>
      rw [hs] at h
      cases h
    | true =>
      rw [hs] at h
      rcases raises_bind_iff.mp h with h | ⟨_, _, _, h⟩
      · obtain ⟨collected, w, c, after, hpass, hcriteria, h⟩ := exists_collectRaises_of_raises h
        exact ⟨summary, u, collected, w, c, after, hv, hs, hpass, hcriteria, h⟩
      · cases h
  · rintro ⟨summary, u, collected, w, c, after, hv, hs, hpass, hcriteria, h⟩
    refine ⟨summary, u, hv, ?_⟩
    rw [hs, hcriteria]
    exact raises_bind_iff.mpr (.inl (hpass.raises_collect h _ _ after))

theorem raises_processQuery_fault_iff {fields : Fields} :
    Raises (r.processQuery (.object fields)) s (.fault f) ↔ r.QueryEscapes (.object fields) s f := by
  rw [raises_processQuery_iff, raises_validateAll_fault_iff]
  constructor
  · rintro (h | ⟨summary, u, collected, w, c, after, hv, hs, hpass, hcriteria, h⟩)
    · exact .validation h
    · cases h with
      | value h => exact .value hv hs hpass hcriteria (raises_resolve_fault_iff.mp h)
      | late hc h =>
        obtain ⟨g, hg, h⟩ := raises_derivationVerdict_iff.mp h
        cases hg
        exact .late hv hs hpass hcriteria hc h
  · intro h
    cases h with
    | validation h => exact .inl h
    | value hv hs hpass hcriteria h =>
      exact .inr ⟨_, _, _, _, _, _, hv, hs, hpass, hcriteria, .value (raises_resolve_fault_iff.mpr h)⟩
    | late hv hs hpass hcriteria hc h =>
      exact .inr ⟨_, _, _, _, _, _, hv, hs, hpass, hcriteria,
        .late hc (raises_derivationVerdict_iff.mpr ⟨f, rfl, h⟩)⟩

theorem documented_of_raises_processQuery {fields : Fields}
    (h : Raises (r.processQuery (.object fields)) s e) :
    (∃ c ∈ r.criteria, c.Documented e) ∨ ∃ f, e = .fault f := by
  rcases raises_processQuery_iff.mp h with h | ⟨_, _, _, _, _, _, _, _, _, _, h⟩
  · exact documented_of_raises_validateAll h
  · cases h with
    | value h => exact .inr ⟨_, rfl⟩
    | late hc h =>
      obtain ⟨f, rfl, _⟩ := raises_derivationVerdict_iff.mp h
      exact .inr ⟨f, rfl⟩

end Queries

/-- A validation or a query raises an error that one of the criteria is the documented reason for, or
it lets a fault through, which it does exactly for the reasons given. -/
theorem validation_raises_documented_errors_unless_escapes (r : Resolver) (fields : Fields)
    (s : Session σ) :
    (∀ e, (outcome (r.validateAll (.object fields)) s).1 = .error e →
        (∃ c ∈ r.criteria, c.Documented e) ∨
          ∃ f, e = .fault f ∧ r.ValidationEscapes (.object fields) s f) ∧
      (∀ f, r.ValidationEscapes (.object fields) s f →
        (outcome (r.validateAll (.object fields)) s).1 = .error (.fault f)) ∧
      (∀ e, (outcome (r.processQuery (.object fields)) s).1 = .error e →
        (∃ c ∈ r.criteria, c.Documented e) ∨
          ∃ f, e = .fault f ∧ r.QueryEscapes (.object fields) s f) ∧
      ∀ f, r.QueryEscapes (.object fields) s f →
        (outcome (r.processQuery (.object fields)) s).1 = .error (.fault f) := by
  refine ⟨fun e h => ?_, fun f => raises_validateAll_fault_iff.mpr, fun e h => ?_,
    fun f => raises_processQuery_fault_iff.mpr⟩
  · refine (documented_of_raises_validateAll h).imp_right ?_
    rintro ⟨f, rfl⟩
    exact ⟨f, rfl, raises_validateAll_fault_iff.mp h⟩
  · refine (documented_of_raises_processQuery h).imp_right ?_
    rintro ⟨f, rfl⟩
    exact ⟨f, rfl, raises_processQuery_fault_iff.mp h⟩

/-! ## A validation that lets a fault through -/

def numeric : Resolver :=
  ⟨.builtins registryName, [⟨.text "x", .null, .null, [.compared .atLeast (.integer 0)]⟩], .bundled,
    .text "en"⟩

theorem built_numeric : numeric.Built := by
  have h : outcome (create (.loaded numeric.criteria) (.text "en") [] .bundled) freshSession =
      (.ok numeric, freshSession) := rfl
  exact .created h

def oversizedFields : Fields := [(.text "x", .integer (10 ^ 400))]

theorem isModel_oversizedFields : (Value.object oversizedFields).isModel = true := rfl

theorem validation_of_oversized_raises :
    (outcome (numeric.validateAll (.object oversizedFields)) freshSession).1 =
      .error (.fault .integerTooLargeForFloat) :=
  eq_error_of_raised? (by decide +kernel)

/-- Not every validation returns or raises a documented error. -/
theorem not_every_validation_raises_documented :
    ¬ ∀ (r : Resolver) (fields : Fields) (s : Session Unit) (e : Failure), r.Built →
      (Value.object fields).isModel = true →
      (outcome (r.validateAll (.object fields)) s).1 = .error e →
        ∃ c ∈ r.criteria, c.Documented e := by
  intro h
  obtain ⟨c, _, hc⟩ := h numeric oversizedFields freshSession _ built_numeric isModel_oversizedFields
    validation_of_oversized_raises
  cases hc

end Resolver
end Vetting
