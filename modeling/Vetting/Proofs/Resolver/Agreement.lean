import Vetting.Proofs.Function.Category
import Vetting.Proofs.Resolver.Environment
import Vetting.Proofs.Resolver.Independence

/-!
# Validated equations agree with plain ones

Validating an equation resolves and validates the criteria that its placeholders name, and evaluates it
over their values if all of them pass. Evaluating it over a source with these values adds the derived
criteria to the environment, which the equation does not see. So with pure functions, derivations and
validators both are true for the same records.
-/

namespace Vetting

open Engine

variable {σ : Type}

namespace Registry

theorem distinctTexts_eq_eraseDups (texts : List Text) : distinctTexts texts = texts.eraseDups := by
  induction texts using List.reverseRecOn with
  | nil => rfl
  | append_singleton texts t ih =>
    rw [distinctTexts_concat, ih, eraseDups_concat]
    simp only [List.mem_eraseDups]

end Registry

namespace Resolver

/-! ## The criteria of an equation -/

section Named
variable (r : Resolver) (s : Session σ) (record : Value)

/-- A name of a criterion that is satisfied in all sessions later than `s`. -/
def Passes (name : Text) : Prop :=
  ∃ c, r.criterion? (.text name) = some c ∧ r.Satisfied s record c

/-- The values of the criteria with these names, in all sessions later than `s`. -/
def Resolves : List Text → List Value → Prop :=
  List.Forall₂ fun name v =>
    ∀ t : Session σ, s.Later t → (outcome (r.resolveValue (.text name) record) t).1 = .ok v

/-- Verdicts on the criteria with these names. -/
def Judges : List Text → List Verdict → Prop :=
  List.Forall₂ fun name verdict =>
    verdict.criterion = .text name ∧ (verdict.success = true ↔ r.Passes s record name)

/-- What a verdict on a name says, and what there is under the name if it is a success. -/
structure Adds (name : Text) (verdict : Verdict) (environment changed : Fields) : Prop where
  criterion : verdict.criterion = .text name
  success : verdict.success = true ↔ r.Passes s record name
  value : verdict.success = true → ∃ v, changed = environment.put (.text name) v ∧
    ∀ t : Session σ, s.Later t → (outcome (r.resolveValue (.text name) record) t).1 = .ok v

end Named

section Names
variable {r : Resolver} {s t u : Session σ} {record : Value} {name : Text} {c : Criterion}

theorem id_of_criterion? (h : r.criterion? (.text name) = some c) :
    c ∈ r.criteria ∧ c.id = .text name := by
  have hkey : c.id.sameKey (.text name) = true :=
    @List.find?_some _ (fun c : Criterion => c.id.sameKey (.text name)) c _ h
  exact ⟨List.mem_of_find?_eq_some h, Value.eq_text_of_sameKey hkey⟩

theorem resolveValue_eq (h : r.criterion? (.text name) = some c) (record : Value) :
    (r.resolveValue (.text name) record : Engine σ Value) = r.resolve c record := by
  have hcriterion : r.criterion (.text name) = .ok c := by
    rw [criterion, h]
    rfl
  rw [resolveValue, hcriterion]
  rfl

theorem Resolves.unique {names : List Text} {values values' : List Value} (ht : s.Later t)
    (h : r.Resolves s record names values) (h' : r.Resolves s record names values') :
    values = values' :=
  List.right_unique_forall₂'
    (fun _ _ _ hv hw => Except.ok.inj ((hv t ht).symm.trans (hw t ht))) h h'

theorem passes_iff (h : r.criterion? (.text name) = some c) :
    r.Passes s record name ↔ r.Satisfied s record c := by
  constructor
  · rintro ⟨d, hd, hsat⟩
    cases h.symm.trans hd
    exact hsat
  · exact fun hsat => ⟨c, h, hsat⟩

end Names

section Validating
variable {r : Resolver} {s t t₁ u : Session σ} {record : Value} {summary summary' : Summary}
  {environment environment' : Fields} {name : Text} {c : Criterion} {verdict : Verdict}

theorem steady_derivationVerdict (c : Criterion) (cause : Failure) :
    Steady s (r.derivationVerdict c cause : Engine σ Verdict) :=
  steady_bind (steady_log _) fun _ => steady_ofFault _

theorem not_passes_of_error {e : Failure} (hsome : r.criterion? (.text name) = some c)
    (ht : s.Later t) (hv : outcome (r.resolve c record) t = (.error e, u)) :
    ¬ r.Passes s record name := by
  rw [passes_iff hsome]
  rintro ⟨v, hvalue, _⟩
  have hok := hvalue t ht
  rw [hv] at hok
  cases hok

theorem Adds.of_failed (hcriterion : verdict.criterion = .text name) (hfails : verdict.success = false)
    (hnot : ¬ r.Passes s record name) : r.Adds s record name verdict environment environment where
  criterion := hcriterion
  success := by simp [hfails, hnot]
  value := by
    intro hsuccess
    rw [hfails] at hsuccess
    cases hsuccess

theorem Adds.of_value (hpure : r.IsPure s) (hsome : r.criterion? (.text name) = some c)
    (ht : s.Later t) {v : Value} (hv : outcome (r.resolve c record) t = (.ok v, t₁))
    (hverdict : outcome (c.validate r.functions r.catalog r.language v) t₁ = (.ok verdict, u)) :
    r.Adds s record name verdict environment (environment.put (.text name) v) := by
  obtain ⟨hc, hid⟩ := id_of_criterion? hsome
  have hresolve := hpure.steady_resolve hc record
  have hvalue (w : Session σ) (hw : s.Later w) : (outcome (r.resolve c record) w).1 = .ok v := by
    rw [hresolve.result hw ht, hv]
  have hsettles : r.Settles s record ⟨c, v, verdict⟩ := by
    refine ⟨fun hw => hvalue _ hw, fun hw => ?_⟩
    rw [(hpure.steady_validate hc v).result hw (hresolve.later_of ht hv), hverdict]
  refine ⟨(Criterion.criterion_of_validate hverdict).trans hid, ?_, fun _ => ⟨v, rfl, ?_⟩⟩
  · rw [passes_iff hsome]
    exact hsettles.success_iff hpure ht hc
  · rw [resolveValue_eq hsome]
    exact hvalue

/-- One more name gets its verdict, and its value if it passes. -/
theorem exists_adds_of_validateNames (hpure : r.IsPure s) (ht : s.Later t) {rest : List Text}
    (h : outcome (r.validateNames record summary environment (name :: rest)) t =
      (.ok (summary', environment'), u)) :
    ∃ verdict t' changed, s.Later t' ∧ r.Adds s record name verdict environment changed ∧
      outcome (r.validateNames record (summary.add verdict) changed rest) t' =
        (.ok (summary', environment'), u) := by
  rw [validateNames] at h
  split at h
  · rename_i hnone
    rw [outcome_bind_eq_ok_iff] at h
    obtain ⟨verdict, t', hverdict, h⟩ := h
    obtain ⟨⟨hcriterion, hfails⟩, rfl⟩ := outcome_failedVerdict_eq_ok hverdict
    have hnot : ¬ r.Passes s record name := by
      rw [Passes, hnone]
      simp
    exact ⟨verdict, t', environment, ht, .of_failed hcriterion hfails hnot, h⟩
  · rename_i c hsome
    obtain ⟨hc, hid⟩ := id_of_criterion? hsome
    have hresolve := hpure.steady_resolve hc record
    rw [outcome_bind_of_ok (outcome_attempt ..)] at h
    rcases hv : outcome (r.resolve c record) t with ⟨e | v, t₁⟩ <;> rw [hv] at h <;> dsimp only at h
    · -- a derivation that fails does so in every session, so the criterion is not satisfied
      have hnot := not_passes_of_error hsome ht hv
      split at h
      · rename_i hok
        cases hok
      · rename_i he
        cases he
        rw [outcome_bind_eq_ok_iff] at h
        obtain ⟨verdict, t', hverdict, h⟩ := h
        obtain ⟨hcriterion, hfails⟩ := success_of_derivationVerdict hverdict
        have ht' := (steady_derivationVerdict c _).later_of (hresolve.later_of ht hv) hverdict
        exact ⟨verdict, t', environment, ht', .of_failed (hcriterion.trans hid) hfails hnot, h⟩
      · cases h
    · rw [outcome_bind_eq_ok_iff] at h
      obtain ⟨verdict, t', hverdict, h⟩ := h
      have ht' := (hpure.steady_validate hc v).later_of (hresolve.later_of ht hv) hverdict
      exact ⟨verdict, t', _, ht', .of_value hpure hsome ht hv hverdict, h⟩

/-- Validating names gives each of them its verdict, in order, and all of them their values if all of
them pass. -/
theorem exists_verdicts_of_validateNames (hpure : r.IsPure s) (ht : s.Later t) {names : List Text}
    (h : outcome (r.validateNames record summary environment names) t =
      (.ok (summary', environment'), u)) :
    s.Later u ∧ ∃ verdicts, r.Judges s record names verdicts ∧
      summary' = verdicts.foldl Summary.add summary ∧
      ((∀ verdict ∈ verdicts, verdict.success = true) → ∃ values, r.Resolves s record names values ∧
        environment' = environment.putAll (Fields.ofNamed (names.zip values))) := by
  induction names generalizing t summary environment with
  | nil =>
    cases h
    exact ⟨ht, [], .nil, rfl, fun _ => ⟨[], .nil, rfl⟩⟩
  | cons name rest ih =>
    obtain ⟨verdict, t', changed, ht', hadds, h⟩ := exists_adds_of_validateNames hpure ht h
    obtain ⟨hu, verdicts, hverdicts, rfl, hvalues⟩ := ih ht' h
    have hjudges := List.Forall₂.cons ⟨hadds.criterion, hadds.success⟩ hverdicts
    refine ⟨hu, verdict :: verdicts, hjudges, rfl, fun hall => ?_⟩
    obtain ⟨hfirst, hrest⟩ := List.forall_mem_cons.mp hall
    obtain ⟨v, rfl, hv⟩ := hadds.value hfirst
    obtain ⟨values, hresolves, rfl⟩ := hvalues hrest
    exact ⟨v :: values, .cons hv hresolves, rfl⟩

theorem Judges.reports {names : List Text} {verdicts : List Verdict}
    (h : r.Judges s record names verdicts) [DecidablePred (r.Passes s record)] :
    (Summary.ofVerdicts verdicts).passed = (names.filter fun n => r.Passes s record n).map .text ∧
      (Summary.ofVerdicts verdicts).failed.map (·.id) =
        (names.filter fun n => ¬ r.Passes s record n).map .text := by
  rw [Summary.ofVerdicts, Summary.passed_foldl_add, Summary.failed_foldl_add]
  simp only [Summary.empty, List.nil_append, List.map_nil]
  induction h with
  | nil => exact ⟨rfl, rfl⟩
  | @cons name verdict _ _ hverdict _ ih =>
    obtain ⟨hcriterion, hsuccess⟩ := hverdict
    by_cases hp : r.Passes s record name
    · have hs := hsuccess.mpr hp
      simpa [hp, hs, hcriterion] using ih
    · have hs : verdict.success = false := Bool.eq_false_iff.mpr fun h => hp (hsuccess.mp h)
      simpa [hp, hs, hcriterion] using ih

theorem Judges.all_iff {names : List Text} {verdicts : List Verdict}
    (h : r.Judges s record names verdicts) :
    (∀ verdict ∈ verdicts, verdict.success = true) ↔ ∀ name ∈ names, r.Passes s record name := by
  induction h with
  | nil => simp
  | cons hverdict _ ih => rw [List.forall_mem_cons, List.forall_mem_cons, hverdict.2, ih]

end Validating

/-! ## The equation over the values -/

def valuesByName (names : List Text) (values : List Value) : Fields := Fields.ofNamed (names.zip values)

/-- An equation that cannot be written out, parsed or evaluated in any session later than `s`. -/
def EquationFails (r : Resolver) (s : Session σ) (template : Text) (environment : Fields) : Prop :=
  ∀ t : Session σ, s.Later t → ∃ e, r.valueOf t template environment = .error e

/-- What an equation that could be run comes to, after the criteria passed. -/
inductive Concludes (summary : Summary) :
    Except ExpressionError (Text × Bool) → EquationVerdict → Prop
  | value {expression : Text} {truth : Bool} :
      Concludes summary (.ok (expression, truth)) ⟨summary, truth⟩
  | failure {e : ExpressionError} {verdict : Verdict} (hc : verdict.criterion = .text "expression")
      (hs : verdict.success = false) : Concludes summary (.error e) ⟨summary.add verdict, false⟩

section Plain
variable {r : Resolver} {s t u : Session σ} {template : Text} {names : List Text}
  {values : List Value} {result : Except ExpressionError (Text × Bool)}

/-- An equation over the values of all its names does not see what else there is. -/
theorem equation_putAll_valuesByName
    (hnames : ∀ name ∈ Template.names (Template.ofText template), name ∈ names)
    (hnodup : names.Nodup) (hlength : names.length = values.length) (fields : Fields) :
    Template.equation template (fields.putAll (valuesByName names values)) =
      Template.equation template (valuesByName names values) := by
  have hown : Fields.putAll [] (valuesByName names values) = valuesByName names values :=
    Fields.putAll_nil_ofNamed hnodup hlength
  rw [← congrArg (Template.equation template) hown]
  refine Template.equation_congr fun name hname => ?_
  rw [valuesByName, Fields.field?_putAll_ofNamed (hnames name hname) hlength,
    Fields.field?_putAll_ofNamed (hnames name hname) hlength]

theorem outcome_run_fst {environment : Fields} (hs : s.Ready) :
    (outcome (r.run template environment) s).1 = r.truthOf s template environment := by
  obtain ⟨_, h, _⟩ := outcome_run hs
  rw [h]

theorem outcome_evaluateEquation_of_run (hids : ∀ c ∈ r.criteria, c.id.isText = true)
    (hs : s.Ready) (hfunctions : r.HasPureFunctions s) (ht : s.Later t)
    (hderivations : ∀ c ∈ r.criteria, c.isDerived = true →
      Steady s (r.derived c (.object []) : Engine σ Value))
    (hnames : ∀ name ∈ Template.names (Template.ofText template), name ∈ names)
    (hnodup : names.Nodup) (hlength : names.length = values.length)
    (hrun : (outcome (r.run template (valuesByName names values)) t).1 =
      result.mapError (Failure.engine ∘ EngineError.expression)) (hu : s.Later u) :
    ∃ environment, (outcome (r.evaluateEquation (.text template)
      (.object (valuesByName names values))) u).1 =
        .ok (processedOf template environment result).result := by
  obtain ⟨derived, u', hderive, hu'⟩ := exists_deriveAll r hids [] (hu.ready hs)
  have hlater : s.Later u' := (steady_deriveAll hderivations []).later_of hu hderive
  have henvironment : outcome (r.environmentOf (.object (valuesByName names values))) u =
      (.ok (derived.putAll (valuesByName names values)), u') := by
    rw [outcome_environmentOf (.one _), hderive]
    rfl
  have hsame : (r.run template (derived.putAll (valuesByName names values)) : Engine σ (Text × Bool)) =
      r.run template (valuesByName names values) :=
    run_congr (equation_putAll_valuesByName hnames hnodup hlength derived)
  have hresult := (steady_run hfunctions template (valuesByName names values)).result hlater ht
  rw [hrun, ← hsame, outcome_run_fst hu'] at hresult
  obtain ⟨_, hclosed, hready⟩ := outcome_evaluateClosed_of_closed hu' hresult
  exact ⟨_, by rw [evaluateEquation_eq, processEquation_of_ok henvironment hclosed hready]; rfl⟩

/-- A run that fails with an error of the expression is an equation without a value. -/
theorem equationFails_iff (hs : s.Ready) (hfunctions : r.HasPureFunctions s) (ht : s.Later t)
    {environment : Fields} (hrun : (outcome (r.run template environment) t).1 =
      result.mapError (Failure.engine ∘ EngineError.expression)) :
    r.EquationFails s template environment ↔ ∃ e, result = .error e := by
  have htruth {u : Session σ} (hu : s.Later u) : r.truthOf u template environment =
      result.mapError (Failure.engine ∘ EngineError.expression) := by
    rw [← hrun, ← (steady_run hfunctions template environment).result hu ht,
      outcome_run_fst (hu.ready hs)]
  constructor
  · intro hfails
    obtain ⟨e, he⟩ := hfails t ht
    have herror := htruth ht
    rw [truthOf, he] at herror
    cases result with
    | ok _ => cases herror
    | error x => exact ⟨x, rfl⟩
  · rintro ⟨x, rfl⟩ u hu
    cases hv : r.valueOf u template environment with
    | error e => exact ⟨e, rfl⟩
    | ok found =>
      -- a value that has no truth is a fault, and no error of the expression
      have hfault := htruth hu
      rw [truthOf, hv] at hfault
      obtain ⟨expression, v⟩ := found
      cases hb : v.truthy <;> simp [hb, bind, Except.bind, pure, Except.pure, ofFault,
        Except.mapError] at hfault

end Plain

section Concludes
variable {summary : Summary} {result : Except ExpressionError (Text × Bool)}
  {verdict : EquationVerdict}

theorem Concludes.result_eq (h : Concludes summary result verdict) (template : Text)
    (environment : Fields) : verdict.result = (processedOf template environment result).result := by
  cases h <;> rfl

theorem Concludes.passed_eq (h : Concludes summary result verdict) :
    verdict.summary.passed = summary.passed := by
  cases h with
  | value => rfl
  | failure hc hs => rw [Summary.add, hs]; rfl

theorem Concludes.failed_eq (h : Concludes summary result verdict) {p : Prop} [Decidable p]
    (hp : p ↔ ∃ e, result = .error e) : verdict.summary.failed.map (·.id) =
      summary.failed.map (·.id) ++ if p then [.text "expression"] else [] := by
  cases h with
  | value =>
    rw [if_neg fun h => ?_, List.append_nil]
    obtain ⟨_, he⟩ := hp.mp h
    cases he
  | failure hc hs =>
    rw [if_pos (hp.mpr ⟨_, rfl⟩), Summary.add, hs, ← hc]
    exact List.map_append

end Concludes

/-! ## Both paths -/

section Both
variable {r : Resolver} {s t u : Session σ} {record : Value} {template : Text}
  {verdict : EquationVerdict}

theorem referenced_eq (template : Text) :
    referenced template = (Template.names (Template.ofText template)).eraseDups :=
  Registry.distinctTexts_eq_eraseDups _

theorem validateEquation_cases (hpure : r.IsPure s) (ht : s.Later t)
    (h : outcome (r.validateEquation (.text template) record) t = (.ok verdict, u)) :
    ∃ verdicts, r.Judges s record (referenced template) verdicts ∧
      ((¬ ∀ v ∈ verdicts, v.success = true) ∧ verdict = ⟨Summary.ofVerdicts verdicts, false⟩ ∨
        (∀ v ∈ verdicts, v.success = true) ∧ ∃ values result t',
          r.Resolves s record (referenced template) values ∧ s.Later t' ∧
            (outcome (r.run template (valuesByName (referenced template) values)) t').1 =
              result.mapError (Failure.engine ∘ EngineError.expression) ∧
            Concludes (Summary.ofVerdicts verdicts) result verdict) := by
  have hd : outcome (Engine.ofFault (Value.text template).display : Engine σ Text) t =
      (.ok template, t) := rfl
  rw [validateEquation, outcome_bind_of_ok hd, outcome_bind_eq_ok_iff] at h
  obtain ⟨⟨summary, environment⟩, t', hnames, h⟩ := h
  obtain ⟨ht', verdicts, hjudges, hsummary, hvalues⟩ :=
    exists_verdicts_of_validateNames hpure ht hnames
  obtain rfl : summary = Summary.ofVerdicts verdicts := hsummary
  refine ⟨verdicts, hjudges, ?_⟩
  by_cases hall : ∀ v ∈ verdicts, v.success = true
  swap
  · refine .inl ⟨hall, ?_⟩
    have hfailed : (Summary.ofVerdicts verdicts).overallSuccess = false :=
      Bool.eq_false_iff.mpr fun hsuccess => hall (Summary.overallSuccess_ofVerdicts_iff.mp hsuccess)
    simp only [hfailed] at h
    cases h
    rfl
  obtain ⟨values, hresolves, rfl⟩ := hvalues hall
  have hpassed : (Summary.ofVerdicts verdicts).overallSuccess = true :=
    Summary.overallSuccess_ofVerdicts_iff.mpr hall
  have hown : Fields.putAll [] (Fields.ofNamed ((referenced template).zip values)) =
      valuesByName (referenced template) values :=
    Fields.putAll_nil_ofNamed (referenced_eq template ▸ nodup_eraseDups _)
      (List.Forall₂.length_eq hresolves)
  simp only [hpassed, hown] at h
  rw [if_neg (by simp), outcome_bind_of_ok (outcome_attempt ..)] at h
  refine .inr ⟨hall, values, ?_⟩
  rcases hrun : outcome (r.run template (valuesByName (referenced template) values)) t' with
    ⟨e | ⟨expression, truth⟩, t''⟩ <;> rw [hrun] at h <;> dsimp only at h
  · split at h
    · rename_i hok
      cases hok
    · rename_i x he
      cases he
      rw [outcome_bind_eq_ok_iff] at h
      obtain ⟨failure, _, hfailure, h⟩ := h
      obtain ⟨⟨hc, hs⟩, rfl⟩ := outcome_failedVerdict_eq_ok hfailure
      cases h
      exact ⟨.error x, t', hresolves, ht', congrArg Prod.fst hrun, .failure hc hs⟩
    · cases h
  · cases h
    exact ⟨.ok (expression, truth), t', hresolves, ht', congrArg Prod.fst hrun, .value⟩

end Both

section Agreement
variable {r : Resolver} {s t u : Session σ} {record : Value} {template : Text}
  {verdict : EquationVerdict}

open Classical in
/-- A validation of an equation that returns agrees with the plain evaluation. It is true exactly if
the placeholders name criteria that are satisfied, and the equation is true over their values. It
reports the names of the placeholders, each once, in the order of their first occurrence, and one more
failure exactly if all of them passed and the equation has no value. -/
theorem validateEquation_agrees_with_evaluateEquation
    (hids : ∀ c ∈ r.criteria, c.id.isText = true) (hs : s.Ready) (hpure : r.IsPure s)
    (hfunctions : r.HasPureFunctions s) (ht : s.Later t)
    (h : outcome (r.validateEquation (.text template) record) t = (.ok verdict, u)) :
    referenced template = (Template.names (Template.ofText template)).eraseDups ∧
      (verdict.result = true ↔
        (∀ name ∈ referenced template, r.Passes s record name) ∧
          ∃ values, r.Resolves s record (referenced template) values ∧
            ∀ w : Session σ, s.Later w → (outcome (r.evaluateEquation (.text template)
              (.object (valuesByName (referenced template) values))) w).1 = .ok true) ∧
      verdict.summary.passed =
        ((referenced template).filter fun name => r.Passes s record name).map .text ∧
      verdict.summary.failed.map (·.id) =
        ((referenced template).filter fun name => ¬ r.Passes s record name).map .text ++
          if (∀ name ∈ referenced template, r.Passes s record name) ∧
              ∃ values, r.Resolves s record (referenced template) values ∧
                r.EquationFails s template (valuesByName (referenced template) values) then
            [.text "expression"]
          else [] := by
  refine ⟨referenced_eq template, ?_⟩
  obtain ⟨verdicts, hjudges, ⟨hnot, rfl⟩ | ⟨hall, values, result, t', hresolves, ht', hrun, hconcludes⟩⟩ :=
    validateEquation_cases hpure ht h
  · obtain ⟨hpassed, hfailed⟩ := hjudges.reports
    rw [hjudges.all_iff] at hnot
    refine ⟨⟨fun h => (nomatch h), fun h => absurd h.1 hnot⟩, hpassed, ?_⟩
    rw [if_neg fun h => hnot h.1, List.append_nil]
    exact hfailed
  obtain ⟨hpassed, hfailed⟩ := hjudges.reports
  rw [hjudges.all_iff] at hall
  have hmem : ∀ name ∈ Template.names (Template.ofText template), name ∈ referenced template :=
    fun name hname => referenced_eq template ▸ List.mem_eraseDups.mpr hname
  have hplain {w : Session σ} (hw : s.Later w) :=
    outcome_evaluateEquation_of_run hids hs hfunctions ht'
      (fun c hc hd => hpure.derivations c hc hd _) hmem (referenced_eq template ▸ nodup_eraseDups _)
      (List.Forall₂.length_eq hresolves) hrun hw
  refine ⟨⟨fun htrue => ⟨hall, values, hresolves, fun w hw => ?_⟩, ?_⟩, ?_, ?_⟩
  · obtain ⟨environment, hw⟩ := hplain hw
    rw [hw, ← hconcludes.result_eq template environment, htrue]
  · rintro ⟨-, values', hresolves', htrue⟩
    obtain rfl := hresolves.unique ht hresolves'
    obtain ⟨environment, hw⟩ := hplain ht
    rw [hconcludes.result_eq template environment]
    exact Except.ok.inj (hw.symm.trans (htrue t ht))
  · rw [hconcludes.passed_eq, hpassed]
  · have hfails := equationFails_iff hs hfunctions ht' hrun
    rw [← hfailed]
    refine hconcludes.failed_eq ⟨?_, fun he => ⟨hall, values, hresolves, hfails.mpr he⟩⟩
    rintro ⟨-, values', hresolves', h⟩
    obtain rfl := hresolves.unique ht hresolves'
    exact hfails.mp h

end Agreement

/-! ## An equation over a criterion that passes -/

theorem exists_verdict_of_three : ∃ verdict t,
    outcome (numeric.validateEquation (.text comparisonTemplate) (.object recordOfThree))
      freshSession = (.ok verdict, t) ∧ verdict.result = true := by
  have hresult : (outcome (numeric.validateEquation (.text comparisonTemplate)
      (.object recordOfThree)) freshSession).1.toOption.map (·.result) = some true := by
    decide +kernel
  rcases hv : outcome (numeric.validateEquation (.text comparisonTemplate) (.object recordOfThree))
    freshSession with ⟨e | verdict, t⟩ <;> rw [hv] at hresult
  · cases hresult
  · exact ⟨verdict, t, rfl, Option.some.inj hresult⟩

/-- Since the validated equation is true, `x` passes and the plain equation is true over its value. -/
theorem valid_equation_of_three : ∃ values,
    (∀ name ∈ referenced comparisonTemplate,
      numeric.Passes freshSession (.object recordOfThree) name) ∧
    numeric.Resolves freshSession (.object recordOfThree) (referenced comparisonTemplate) values ∧
      (outcome (numeric.evaluateEquation (.text comparisonTemplate)
        (.object (valuesByName (referenced comparisonTemplate) values))) freshSession).1 =
          .ok true := by
  have hfresh : freshSession.Later freshSession := .refl ready_freshSession.cache
  obtain ⟨verdict, t, hverdict, htrue⟩ := exists_verdict_of_three
  have hids : ∀ c ∈ numeric.criteria, c.id.isText = true := List.forall_mem_singleton.mpr rfl
  obtain ⟨_, hresult, _, _⟩ := validateEquation_agrees_with_evaluateEquation hids ready_freshSession
    (isPure_of_subsingleton numeric freshSession)
    (hasPureFunctions_of_subsingleton numeric freshSession) hfresh hverdict
  obtain ⟨hall, values, hresolves, hequation⟩ := hresult.mp htrue
  exact ⟨values, hall, hresolves, hequation _ hfresh⟩

end Resolver
end Vetting
