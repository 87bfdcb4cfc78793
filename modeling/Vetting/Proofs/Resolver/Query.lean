import Vetting.Proofs.Resolver.Resolution
import Vetting.Proofs.Resolver.Setup
import Vetting.Proofs.Rule.Acceptance

/-!
# The two passes of a query

A query goes over the criteria twice. The first pass resolves and validates each of them, the second
one resolves each of them again for the record that is handed out. Nothing ties the two together but
the record: a derivation may answer differently in the second pass, or fail there. So a record that is
handed out holds the answers of the second pass while the rules were checked on those of the first,
and a criterion whose derivation fails late is counted twice, as passed and as failed.
-/

namespace Vetting

variable {σ : Type}

namespace Resolver

/-! ## Passes as runs over the criteria -/

/-- A criterion with the value that the first pass found and the verdict on it. -/
structure Judged where
  criterion : Criterion
  value : Value
  verdict : Verdict

/-- A criterion with what the second pass found: a value, or the verdict on a failed derivation. -/
structure Collected where
  criterion : Criterion
  answer : Except Verdict Value

/-- A first pass that returns, criterion by criterion. -/
inductive FirstPass (r : Resolver) (record : Value) :
    Session σ → List Judged → Session σ → Prop
  | nil {s : Session σ} : FirstPass r record s [] s
  | cons {s t u w : Session σ} {c : Criterion} {v : Value} {verdict : Verdict} {rest : List Judged}
      (hid : c.id.isSet = true) (hv : outcome (r.resolve c record) s = (.ok v, t))
      (hj : outcome (c.validate r.functions r.catalog r.language v) t = (.ok verdict, u))
      (hr : FirstPass r record u rest w) : FirstPass r record s (⟨c, v, verdict⟩ :: rest) w

/-- A second pass that returns. A derivation that fails now is a failed criterion. -/
inductive SecondPass (r : Resolver) (record : Value) :
    Session σ → List Collected → Session σ → Prop
  | nil {s : Session σ} : SecondPass r record s [] s
  | value {s t u : Session σ} {c : Criterion} {v : Value} {rest : List Collected}
      (hv : outcome (r.resolve c record) s = (.ok v, t)) (hr : SecondPass r record t rest u) :
      SecondPass r record s (⟨c, .ok v⟩ :: rest) u
  | late {s t u w : Session σ} {c : Criterion} {id : Value} {shown : Text} {cause : Failure}
      {verdict : Verdict} {rest : List Collected}
      (he : outcome (r.resolve c record) s = (.error (.engine (.computation id shown cause)), t))
      (hj : outcome (r.derivationVerdict c cause) t = (.ok verdict, u))
      (hr : SecondPass r record u rest w) : SecondPass r record s (⟨c, .error verdict⟩ :: rest) w

theorem FirstPass.append {r : Resolver} {record : Value} {s t u : Session σ}
    {first second : List Judged} (h : r.FirstPass record s first t)
    (h' : r.FirstPass record t second u) : r.FirstPass record s (first ++ second) u := by
  induction h with
  | nil => exact h'
  | cons hid hv hj _ ih => exact .cons hid hv hj (ih h')

def lateVerdicts : List Collected → List Verdict
  | [] => []
  | ⟨_, .ok _⟩ :: rest => lateVerdicts rest
  | ⟨_, .error verdict⟩ :: rest => verdict :: lateVerdicts rest

def lateCriteria : List Collected → List Criterion
  | [] => []
  | ⟨_, .ok _⟩ :: rest => lateCriteria rest
  | ⟨c, .error _⟩ :: rest => c :: lateCriteria rest

def handedFields : List Collected → Fields
  | [] => []
  | ⟨c, .ok v⟩ :: rest => (c.id, v) :: handedFields rest
  | ⟨_, .error _⟩ :: rest => handedFields rest

section Inversion
variable {r : Resolver} {record : Value} {criteria : List Criterion} {s t : Session σ}

theorem exists_firstPass {verdicts : List Verdict}
    (h : outcome (r.verdictsOn record criteria) s = (.ok verdicts, t)) :
    ∃ judged, r.FirstPass record s judged t ∧ judged.map (·.criterion) = criteria ∧
      judged.map (·.verdict) = verdicts := by
  induction criteria generalizing s verdicts with
  | nil =>
    cases h
    exact ⟨[], .nil, rfl, rfl⟩
  | cons c rest ih =>
    rw [verdictsOn, outcome_bind_eq_ok_iff] at h
    obtain ⟨verdict, u, hc, h⟩ := h
    rw [outcome_bind_eq_ok_iff] at h
    obtain ⟨verdicts, w, hrest, h⟩ := h
    cases h
    obtain ⟨judged, hpass, rfl, rfl⟩ := ih hrest
    unfold verdictOn at hc
    split at hc
    · cases hc
    · rename_i hid
      rw [outcome_bind_eq_ok_iff] at hc
      obtain ⟨v, w, hv, hj⟩ := hc
      exact ⟨⟨c, v, verdict⟩ :: judged, .cons (by simpa using hid) hv hj hpass, rfl, rfl⟩

theorem exists_secondPass {summary summary' : Summary} {data data' : Fields}
    (h : outcome (r.collect record summary data criteria) s = (.ok (summary', data'), t)) :
    ∃ collected, r.SecondPass record s collected t ∧ collected.map (·.criterion) = criteria ∧
      summary' = (lateVerdicts collected).foldl Summary.add summary ∧
      data' = data.putAll (handedFields collected) := by
  induction criteria generalizing s summary data with
  | nil =>
    cases h
    exact ⟨[], .nil, rfl, rfl, rfl⟩
  | cons c rest ih =>
    rw [collect, outcome_bind_of_ok (Engine.outcome_attempt ..)] at h
    rcases hv : outcome (r.resolve c record) s with ⟨e | v, u⟩ <;> rw [hv] at h <;> dsimp only at h
    · split at h
      · rename_i hok
        cases hok
      · rename_i id shown cause he
        cases he
        rw [outcome_bind_eq_ok_iff] at h
        obtain ⟨verdict, w, hj, h⟩ := h
        obtain ⟨collected, hpass, rfl, rfl, rfl⟩ := ih h
        exact ⟨⟨c, .error verdict⟩ :: collected, .late hv hj hpass, rfl, rfl, rfl⟩
      · cases h
    · obtain ⟨collected, hpass, rfl, rfl, rfl⟩ := ih h
      exact ⟨⟨c, .ok v⟩ :: collected, .value hv hpass, rfl, rfl, rfl⟩

/-- What a query that returns has done. -/
theorem processQuery_cases {result : QueryResult}
    (h : outcome (r.processQuery record) s = (.ok result, t)) :
    ∃ judged u, r.FirstPass record s judged u ∧ judged.map (·.criterion) = r.criteria ∧
      ((Summary.ofVerdicts (judged.map (·.verdict))).overallSuccess = false ∧
          result = ⟨Summary.ofVerdicts (judged.map (·.verdict)), .unchanged record⟩ ∨
        (Summary.ofVerdicts (judged.map (·.verdict))).overallSuccess = true ∧
          ∃ collected w, u.Alike w ∧ r.SecondPass record w collected t ∧
            collected.map (·.criterion) = r.criteria ∧
            result = ⟨(lateVerdicts collected).foldl Summary.add
                (Summary.ofVerdicts (judged.map (·.verdict))),
              .resolved (Fields.putAll [] (handedFields collected))⟩) := by
  rw [processQuery, outcome_bind_eq_ok_iff] at h
  obtain ⟨summary, w, hall, h⟩ := h
  rw [validateAll, outcome_bind_eq_ok_iff] at hall
  obtain ⟨verdicts, u, hverdicts, hall⟩ := hall
  rw [outcome_bind_eq_ok_iff] at hall
  obtain ⟨⟨⟩, w', hlog, hall⟩ := hall
  cases hall
  obtain ⟨judged, hfirst, hcriteria, rfl⟩ := exists_firstPass hverdicts
  refine ⟨judged, u, hfirst, hcriteria, ?_⟩
  cases hsuccess : (Summary.ofVerdicts (judged.map (·.verdict))).overallSuccess with
  | false =>
    simp only [hsuccess, Bool.not_false, ↓reduceIte] at h
    cases h
    exact .inl ⟨rfl, rfl⟩
  | true =>
    simp only [hsuccess, Bool.not_true, Bool.false_eq_true, ↓reduceIte] at h
    rw [outcome_bind_eq_ok_iff] at h
    obtain ⟨⟨summary, data⟩, w'', hcollect, h⟩ := h
    cases h
    obtain ⟨collected, hsecond, hcollected, rfl, rfl⟩ := exists_secondPass hcollect
    exact .inr ⟨rfl, collected, w, (Engine.keeps_log _).alike hlog, hsecond, hcollected, rfl⟩

end Inversion

end Resolver

/-! ## Summaries -/

namespace Summary

/-- The ids that have a verdict, as often as they have one. -/
def ids (summary : Summary) : List Value := summary.passed ++ summary.failed.map (·.id)

theorem passed_foldl_add (verdicts : List Verdict) (summary : Summary) :
    (verdicts.foldl add summary).passed =
      summary.passed ++ (verdicts.filter (·.success)).map (·.criterion) := by
  induction verdicts generalizing summary with
  | nil => simp
  | cons verdict rest ih =>
    rw [List.foldl_cons, ih, add]
    cases h : verdict.success <;> simp [h]

theorem failures_foldl_add (verdicts : List Verdict) (summary : Summary) :
    (verdicts.foldl add summary).failed = summary.failed ++
      (verdicts.filter fun v => !v.success).map fun v => ⟨v.criterion, v.errorFields⟩ := by
  induction verdicts generalizing summary with
  | nil => simp
  | cons verdict rest ih =>
    rw [List.foldl_cons, ih, add]
    cases h : verdict.success <;> simp [h]

theorem failed_foldl_add (verdicts : List Verdict) (summary : Summary) :
    ((verdicts.foldl add summary).failed).map (·.id) =
      summary.failed.map (·.id) ++ (verdicts.filter fun v => !v.success).map (·.criterion) := by
  rw [failures_foldl_add, List.map_append, List.map_map]
  rfl

theorem ids_ofVerdicts_perm (verdicts : List Verdict) :
    (ofVerdicts verdicts).ids.Perm (verdicts.map (·.criterion)) := by
  rw [ids, ofVerdicts, passed_foldl_add, failed_foldl_add]
  simp only [empty, List.nil_append, List.map_nil, ← List.map_append]
  exact (List.filter_append_perm (·.success) verdicts).map _

theorem overallSuccess_iff {summary : Summary} :
    summary.overallSuccess = true ↔ summary.failed.map (·.id) = [] := by
  rw [overallSuccess, List.isEmpty_iff, List.map_eq_nil_iff]

/-- A summary of verdicts is a success when they all are. -/
theorem overallSuccess_ofVerdicts_iff {verdicts : List Verdict} :
    (ofVerdicts verdicts).overallSuccess = true ↔ ∀ verdict ∈ verdicts, verdict.success = true := by
  rw [overallSuccess_iff, ofVerdicts, failed_foldl_add]
  simp [empty]

theorem ofVerdicts_of_success {verdicts : List Verdict}
    (h : ∀ verdict ∈ verdicts, verdict.success = true) :
    ofVerdicts verdicts = ⟨verdicts.map (·.criterion), []⟩ := by
  have hpassed : (ofVerdicts verdicts).passed = verdicts.map (·.criterion) := by
    rw [ofVerdicts, passed_foldl_add, List.filter_eq_self.mpr h]
    rfl
  have hfailed : (ofVerdicts verdicts).failed = [] := by
    rw [ofVerdicts, failures_foldl_add, List.filter_eq_nil_iff.mpr fun v hv => by simp [h v hv]]
    rfl
  rw [← hpassed, ← hfailed]

end Summary

namespace Resolver

/-! ## What the passes leave -/

section Passes
variable {r : Resolver} {record : Value} {s t : Session σ}

theorem FirstPass.alike {judged : List Judged} (h : r.FirstPass record s judged t) : s.Alike t := by
  induction h with
  | nil => exact .refl _
  | cons _ hv hj _ ih =>
    have ht := (keeps_resolve _ _ _).alike hv
    have hu := (Criterion.keeps_validate _ _ _ _ _).alike hj
    exact (ht.trans hu).trans ih

theorem FirstPass.verdict_criterion {judged : List Judged} (h : r.FirstPass record s judged t) :
    judged.map (·.verdict.criterion) = judged.map (·.criterion.id) := by
  induction h with
  | nil => rfl
  | cons _ hv hj hr ih => rw [List.map_cons, List.map_cons, ih, Criterion.criterion_of_validate hj]

theorem failedVerdict_eq_ok {criterion : Value} {label messageKey : Text}
    {parameters : List (Text × Value)} {verdict : Verdict}
    (h : r.failedVerdict criterion label messageKey parameters = .ok verdict) :
    verdict.criterion = criterion ∧ verdict.success = false := by
  rw [failedVerdict] at h
  obtain ⟨message, _, h⟩ := bind_eq_ok_iff.mp h
  cases h
  exact ⟨rfl, rfl⟩

theorem outcome_failedVerdict_eq_ok {criterion : Value} {label messageKey : Text}
    {parameters : List (Text × Value)} {verdict : Verdict}
    (h : outcome (Engine.ofFault (r.failedVerdict criterion label messageKey parameters)) s =
      (.ok verdict, t)) : (verdict.criterion = criterion ∧ verdict.success = false) ∧ t = s := by
  have hverdict : r.failedVerdict criterion label messageKey parameters = .ok verdict :=
    ofFault_eq_ok_iff.mp (congrArg Prod.fst h)
  exact ⟨failedVerdict_eq_ok hverdict, (congrArg Prod.snd h).symm⟩

theorem success_of_derivationVerdict {c : Criterion} {cause : Failure} {verdict : Verdict}
    (h : outcome (r.derivationVerdict c cause) s = (.ok verdict, t)) :
    verdict.criterion = c.id ∧ verdict.success = false := by
  rw [derivationVerdict, outcome_bind_eq_ok_iff] at h
  obtain ⟨⟨⟩, u, _, h⟩ := h
  exact (outcome_failedVerdict_eq_ok h).1

/-- Late verdicts are failures of the criteria that failed late. -/
theorem SecondPass.late_failed {collected : List Collected} (h : r.SecondPass record s collected t) :
    (lateVerdicts collected).map (·.criterion) = (lateCriteria collected).map (·.id) ∧
      ∀ verdict ∈ lateVerdicts collected, verdict.success = false := by
  induction h with
  | nil => exact ⟨rfl, fun _ h => nomatch h⟩
  | value hv hr ih => exact ih
  | late he hj hr ih =>
    obtain ⟨hc, hs⟩ := success_of_derivationVerdict hj
    refine ⟨?_, List.forall_mem_cons.mpr ⟨hs, ih.2⟩⟩
    rw [lateVerdicts, lateCriteria, List.map_cons, List.map_cons, hc, ih.1]

/-- What the first pass found out about a criterion. -/
theorem FirstPass.steps_of_mem {judged : List Judged} (h : r.FirstPass record s judged t) {j : Judged}
    (hj : j ∈ judged) :
    ∃ u v w, s.Alike u ∧ s.Alike v ∧ outcome (r.resolve j.criterion record) u = (.ok j.value, v) ∧
      outcome (j.criterion.validate r.functions r.catalog r.language j.value) v =
        (.ok j.verdict, w) := by
  induction h with
  | nil => cases hj
  | cons _ hv hj' _ ih =>
    have hu := (keeps_resolve _ _ _).alike hv
    have hw := hu.trans ((Criterion.keeps_validate _ _ _ _ _).alike hj')
    rcases List.mem_cons.mp hj with rfl | hj
    · exact ⟨_, _, _, .refl _, hu, hv, hj'⟩
    · obtain ⟨u', v', w', hu', hv', h⟩ := ih hj
      exact ⟨u', v', w', hw.trans hu', hw.trans hv', h⟩

/-- A field that is handed out is a criterion with the value that the second pass found. -/
theorem SecondPass.step_of_mem {collected : List Collected} (h : r.SecondPass record s collected t)
    {field : Value × Value} (hf : field ∈ handedFields collected) :
    ∃ c ∈ collected.map (·.criterion), field.1 = c.id ∧
      ∃ (u v : Session σ), outcome (r.resolve c record) u = (.ok field.2, v) := by
  induction h with
  | nil => cases hf
  | value hv _ ih =>
    rcases List.mem_cons.mp hf with rfl | hf
    · exact ⟨_, List.mem_cons_self, rfl, _, _, hv⟩
    · obtain ⟨c, hc, h⟩ := ih hf
      exact ⟨c, List.mem_cons_of_mem _ hc, h⟩
  | late _ _ _ ih =>
    obtain ⟨c, hc, h⟩ := ih hf
    exact ⟨c, List.mem_cons_of_mem _ hc, h⟩

end Passes

/-! ## The record that is handed out -/

theorem keys_handedFields_sublist (collected : List Collected) :
    ((handedFields collected).map (·.1)).Sublist (collected.map (·.criterion.id)) := by
  induction collected with
  | nil => exact .slnil
  | cons c rest ih =>
    obtain ⟨c, _ | v⟩ := c
    · exact ih.cons c.id
    · exact ih.cons_cons c.id

theorem length_handedFields (collected : List Collected) :
    (handedFields collected).length + (lateCriteria collected).length = collected.length := by
  induction collected with
  | nil => rfl
  | cons c rest ih =>
    obtain ⟨c, _ | v⟩ := c
    · simp only [handedFields, lateCriteria, List.length_cons]
      omega
    · simp only [handedFields, lateCriteria, List.length_cons]
      omega

/-- Where no derivation fails late, all criteria are handed out. -/
theorem keys_handedFields_of_none_late {collected : List Collected} (h : lateCriteria collected = []) :
    (handedFields collected).map (·.1) = collected.map (·.criterion.id) := by
  refine (keys_handedFields_sublist collected).eq_of_length ?_
  have hlength := length_handedFields collected
  rw [h, List.length_nil] at hlength
  simp only [List.length_map]
  omega

/-- The criteria that are handed out have distinct ids, so none replaces another. -/
theorem putAll_handedFields {r : Resolver} (hr : r.Built) {collected : List Collected}
    (h : collected.map (·.criterion) = r.criteria) :
    Fields.putAll [] (handedFields collected) = handedFields collected := by
  have hdistinct : (collected.map (·.criterion.id)).Pairwise fun a b => a.sameKey b = false := by
    have hcriteria := hr.distinct
    rw [Criterion.Distinct, ← h, List.pairwise_map] at hcriteria
    exact List.pairwise_map.mpr hcriteria
  refine Fields.putAll_of_distinct ?_
  rw [List.nil_append]
  exact List.pairwise_map.mp (hdistinct.sublist (keys_handedFields_sublist collected))

/-! ## One verdict for each criterion -/

/-- A result that has one verdict on each criterion, and a record of those that passed if it has a
record of its own. -/
structure OneVerdictEach (r : Resolver) (result : QueryResult) : Prop where
  verdicts : result.summary.ids.Perm (r.criteria.map (·.id))
  keys : ∀ fields, result.data = .resolved fields →
    (fields.map (·.1)).Perm result.summary.passed

section Results
variable {r : Resolver} {record : Value} {s t : Session σ} {result : QueryResult}

theorem success_of_all {judged : List Judged}
    (h : (Summary.ofVerdicts (judged.map (·.verdict))).overallSuccess = true) :
    ∀ j ∈ judged, j.verdict.success = true := by
  simpa using Summary.overallSuccess_ofVerdicts_iff.mp h

theorem exists_failed {judged : List Judged}
    (h : (Summary.ofVerdicts (judged.map (·.verdict))).overallSuccess = false) :
    ∃ j ∈ judged, j.verdict.success = false := by
  have hall := mt Summary.overallSuccess_ofVerdicts_iff.mpr (Bool.not_eq_true _ ▸ h)
  simpa using hall

/-- A summary of successes to which late verdicts are added: all stay among those that passed. -/
theorem summary_of_late {judged : List Judged} {late : List Verdict}
    (hall : ∀ j ∈ judged, j.verdict.success = true) (hlate : ∀ v ∈ late, v.success = false) :
    (late.foldl Summary.add (Summary.ofVerdicts (judged.map (·.verdict)))).passed =
        judged.map (·.verdict.criterion) ∧
      (late.foldl Summary.add (Summary.ofVerdicts (judged.map (·.verdict)))).failed.map (·.id) =
        late.map (·.criterion) := by
  have hjudged : ∀ v ∈ judged.map (·.verdict), v.success = true := by simpa using hall
  have hpassed : (judged.map (·.verdict)).filter (·.success) = judged.map (·.verdict) :=
    List.filter_eq_self.mpr hjudged
  have hfailed : (judged.map (·.verdict)).filter (fun v => !v.success) = [] :=
    List.filter_eq_nil_iff.mpr fun v hv => by simp [hjudged v hv]
  have hnone : late.filter (·.success) = [] :=
    List.filter_eq_nil_iff.mpr fun v hv => by simp [hlate v hv]
  have hsome : late.filter (fun v => !v.success) = late :=
    List.filter_eq_self.mpr fun v hv => by simp [hlate v hv]
  constructor
  · rw [Summary.passed_foldl_add, Summary.ofVerdicts, Summary.passed_foldl_add, hpassed, hnone]
    simp [Summary.empty, Function.comp_def]
  · rw [Summary.failed_foldl_add, Summary.ofVerdicts, Summary.failed_foldl_add, hfailed, hsome]
    simp [Summary.empty]

/-- A query that returns has one verdict on each criterion unless a derivation that succeeded in the
first pass fails in the second. The ids of such criteria stay among those that passed, are added
to those that failed, and are missing in the record that is handed out. -/
theorem processQuery_one_verdict_each_unless_late (hr : r.Built)
    (h : outcome (r.processQuery record) s = (.ok result, t)) :
    Criterion.Distinct r.criteria ∧
      ∃ judged u, r.FirstPass record s judged u ∧ judged.map (·.criterion) = r.criteria ∧
        ((∃ j ∈ judged, j.verdict.success = false) ∧ result.data = .unchanged record ∧
            r.OneVerdictEach result ∨
          (∀ j ∈ judged, j.verdict.success = true) ∧
            ∃ collected w, u.Alike w ∧ r.SecondPass record w collected t ∧
              collected.map (·.criterion) = r.criteria ∧
              result.data = .resolved (handedFields collected) ∧
              result.summary.passed = r.criteria.map (·.id) ∧
              result.summary.failed.map (·.id) = (lateCriteria collected).map (·.id) ∧
              (r.OneVerdictEach result ↔ lateCriteria collected = [])) := by
  refine ⟨hr.distinct, ?_⟩
  obtain ⟨judged, u, hfirst, hcriteria, hcases⟩ := processQuery_cases h
  have hverdicts : judged.map (·.verdict.criterion) = r.criteria.map (·.id) := by
    rw [hfirst.verdict_criterion, ← hcriteria, List.map_map]
    rfl
  refine ⟨judged, u, hfirst, hcriteria, ?_⟩
  rcases hcases with ⟨hfails, rfl⟩ | ⟨hpasses, collected, w, hw, hsecond, hcollected, rfl⟩
  · refine .inl ⟨exists_failed hfails, rfl, ⟨?_, fun _ h => nomatch h⟩⟩
    rw [← hverdicts]
    have hperm := Summary.ids_ofVerdicts_perm (judged.map (·.verdict))
    rwa [List.map_map] at hperm
  · have hall := success_of_all hpasses
    obtain ⟨hlate, hfailing⟩ := hsecond.late_failed
    obtain ⟨hpassed, hfailed⟩ := summary_of_late hall hfailing
    rw [hverdicts] at hpassed
    rw [hlate] at hfailed
    rw [putAll_handedFields hr hcollected]
    refine .inr ⟨hall, collected, w, hw, hsecond, hcollected, rfl, hpassed, hfailed, ?_⟩
    constructor
    · -- the criteria that passed are already as many as there are
      intro hone
      have hlength := hone.verdicts.length_eq
      simp only [Summary.ids, hpassed, hfailed, List.length_append, List.length_map] at hlength
      exact List.length_eq_zero_iff.mp (by omega)
    · intro hnone
      rw [hnone] at hfailed
      refine ⟨?_, fun fields hfields => ?_⟩
      · rw [Summary.ids, hpassed, hfailed, List.map_nil, List.append_nil]
      · cases hfields
        rw [hpassed, keys_handedFields_of_none_late hnone, ← hcollected, List.map_map]
        exact .refl _

end Results

/-! ## A derivation that counts its calls -/

/-- A host whose functions answer with the number of the call, and fail after so many calls. -/
def countingHost (answers : Nat) : Host Nat where
  behaviour _ _ := .read fun calls =>
    if calls < answers then .write (calls + 1) (pure (.integer (calls + 1)))
    else .fault (.stated .runtime "gone")
  instant := 0

def countingSession (answers : Nat) : Session Nat :=
  ⟨countingHost answers, 0, Settings.defaults, .empty, .new "engine" false .info, {}⟩

def counted (rules : List Rule) : Criterion :=
  ⟨.text "n", .null, .host ⟨"count", 0, none⟩, rules⟩

def counting (rules : List Rule) : Resolver :=
  ⟨.builtins registryName, [counted rules], .bundled, .text "en"⟩

def tally? : Except Failure QueryResult → Option (Nat × Nat)
  | .ok result => some (result.summary.passed.length, result.summary.failed.length)
  | .error _ => none

theorem exists_of_tally? {answer : Except Failure QueryResult} {passed failed : Nat}
    (h : tally? answer = some (passed, failed)) :
    ∃ result, answer = .ok result ∧ result.summary.ids.length = passed + failed := by
  cases answer with
  | error e => cases h
  | ok result =>
    cases h
    refine ⟨result, rfl, ?_⟩
    rw [Summary.ids, List.length_append, List.length_map]

theorem built_counting : (counting []).Built := by
  have h : outcome (create (.loaded [counted []]) (.text "en") [] .bundled) (countingSession 1) =
      (.ok (counting []), countingSession 1) := rfl
  exact .created h

theorem processQuery_failing_late : ∃ result t,
    outcome ((counting []).processQuery (.object [])) (countingSession 1) = (.ok result, t) ∧
      ¬ (counting []).OneVerdictEach result := by
  have htally : tally? (outcome ((counting []).processQuery (.object [])) (countingSession 1)).1 =
      some (1, 1) := by decide +kernel
  obtain ⟨result, h, hlength⟩ := exists_of_tally? htally
  refine ⟨result, _, Prod.ext h rfl, fun hone => ?_⟩
  have hperm := hone.verdicts.length_eq
  rw [hlength] at hperm
  cases hperm

/-- A criterion whose derivation fails late has passed and failed, and is not handed out. -/
theorem failing_late_passes_and_fails : (counting []).Built ∧ ∃ result t collected,
    outcome ((counting []).processQuery (.object [])) (countingSession 1) = (.ok result, t) ∧
      lateCriteria collected = [counted []] ∧ result.summary.passed = [.text "n"] ∧
      result.summary.failed.map (·.id) = [.text "n"] ∧ result.data = .resolved [] := by
  obtain ⟨result, t, h, htwo⟩ := processQuery_failing_late
  obtain ⟨_, _, _, _, _, ⟨_, _, hone⟩ |
      ⟨_, collected, w, _, _, hcriteria, hdata, hpassed, hfailed, hiff⟩⟩ :=
    processQuery_one_verdict_each_unless_late built_counting h
  · exact absurd hone htwo
  · obtain ⟨⟨c, answer⟩, rfl, rfl⟩ := List.map_eq_singleton_iff.mp hcriteria
    cases answer with
    | ok v => exact absurd (hiff.mpr rfl) htwo
    | error verdict =>
      exact ⟨built_counting, result, t, [⟨counted [], .error verdict⟩], h, rfl, hpassed, hfailed, hdata⟩

/-- Not every query that returns has one verdict on each criterion. -/
theorem not_every_query_has_one_verdict_each :
    ¬ ∀ (r : Resolver) (record : Value) (s t : Session Nat) (result : QueryResult), r.Built →
      outcome (r.processQuery record) s = (.ok result, t) → r.OneVerdictEach result := by
  intro hall
  obtain ⟨result, t, h, htwo⟩ := processQuery_failing_late
  exact htwo (hall _ _ _ _ _ built_counting h)

/-! ## Values that are handed out -/

section Handed
variable {r : Resolver} {record : Value} {s t : Session σ} {result : QueryResult}

/-- A success has no late failures. -/
theorem none_late_of_success {collected : List Collected} {u : Session σ} {summary : Summary}
    (hsecond : r.SecondPass record u collected t)
    (hs : ((lateVerdicts collected).foldl Summary.add summary).overallSuccess = true) :
    lateCriteria collected = [] := by
  obtain ⟨hlate, hfailing⟩ := hsecond.late_failed
  have hnone : (lateVerdicts collected).filter (fun v => !v.success) = lateVerdicts collected :=
    List.filter_eq_self.mpr fun v hv => by simp [hfailing v hv]
  rw [Summary.overallSuccess_iff, Summary.failed_foldl_add, hnone, hlate] at hs
  exact List.map_eq_nil_iff.mp (List.append_eq_nil_iff.mp hs).2

/-- A success hands out a value for each criterion. Its rules were checked on the value of the first
pass, and the value handed out is that of the second; only a derivation can make a difference. -/
theorem handed_values_satisfy_rules_unless_changed (hr : r.Built)
    (hpure : ∀ c ∈ r.criteria, Rule.ArePure r.functions s c.rules)
    (h : outcome (r.processQuery record) s = (.ok result, t))
    (hs : result.summary.overallSuccess = true) :
    ∃ judged u fields, r.FirstPass record s judged u ∧ judged.map (·.criterion) = r.criteria ∧
      result.data = .resolved fields ∧ fields.map (·.1) = r.criteria.map (·.id) ∧
      ∀ field ∈ fields, ∃ j ∈ judged, field.1 = j.criterion.id ∧
        (∀ rule ∈ j.criterion.rules, rule.Accepts r.functions s j.value) ∧
        ((∀ rule ∈ j.criterion.rules, rule.Accepts r.functions s field.2) ∨
          j.criterion.isDerived = true ∧ field.2 ≠ j.value) := by
  obtain ⟨judged, u, hfirst, hcriteria, hcases⟩ := processQuery_cases h
  rcases hcases with ⟨hfails, rfl⟩ | ⟨hpasses, collected, w, hw, hsecond, hcollected, rfl⟩
  · rw [hs] at hfails
    cases hfails
  rw [putAll_handedFields hr hcollected]
  refine ⟨judged, u, handedFields collected, hfirst, hcriteria, rfl, ?_, ?_⟩
  · rw [keys_handedFields_of_none_late (none_late_of_success hsecond hs), ← hcollected, List.map_map]
    rfl
  intro field hf
  obtain ⟨c, hc, hid, w₁, w₂, hsecondValue⟩ := hsecond.step_of_mem hf
  rw [hcollected, ← hcriteria] at hc
  obtain ⟨j, hj, rfl⟩ := List.mem_map.mp hc
  obtain ⟨u₁, u₂, u₃, _, hu₂, hvalue, hverdict⟩ := hfirst.steps_of_mem hj
  have haccepts : ∀ rule ∈ j.criterion.rules, rule.Accepts r.functions s j.value := by
    have hpasses := Criterion.passes_of_validate hverdict (success_of_all hpasses j hj)
    exact hpasses.accepts hu₂ (hpure _ (hcriteria ▸ List.mem_map_of_mem hj))
  refine ⟨j, hj, hid, haccepts, ?_⟩
  by_cases hsame : field.2 = j.value
  · exact .inl (hsame ▸ haccepts)
  · refine .inr ⟨?_, hsame⟩
    cases hderived : j.criterion.isDerived with
    | true => rfl
    | false => exact absurd (eq_of_not_derived hderived hsecondValue hvalue) hsame

end Handed

def atMostOne : List Rule := [.compared .atMost (.integer 1)]

/-- The integer that a success hands out as its only field, and the name of that field. -/
def handedInteger? : Except Failure QueryResult → Option (Text × Int)
  | .ok ⟨⟨_, []⟩, .resolved [(.text id, .number (.integer i))]⟩ => some (id, i)
  | _ => none

theorem exists_of_handedInteger? {answer : Except Failure QueryResult} {id : Text} {i : Int}
    (h : handedInteger? answer = some (id, i)) :
    ∃ passed, answer = .ok ⟨⟨passed, []⟩, .resolved [(.text id, .integer i)]⟩ := by
  unfold handedInteger? at h
  split at h
  · cases h
    exact ⟨_, rfl⟩
  · cases h

theorem built_counting_atMostOne : (counting atMostOne).Built := by
  have h : outcome (create (.loaded [counted atMostOne]) (.text "en") [] .bundled)
      (countingSession 5) = (.ok (counting atMostOne), countingSession 5) := rfl
  exact .created h

theorem arePure_atMostOne {r : Resolver} {s : Session Nat} (hr : r = counting atMostOne) :
    ∀ c ∈ r.criteria, Rule.ArePure r.functions s c.rules := by
  rintro c hc validator description hrule
  rw [hr] at hc
  cases List.mem_singleton.mp hc
  cases List.mem_singleton.mp hrule

/-- The second call gives two, which is handed out. -/
theorem processQuery_counting_twice : ∃ passed t,
    outcome ((counting atMostOne).processQuery (.object [])) (countingSession 5) =
      (.ok ⟨⟨passed, []⟩, .resolved [(.text "n", .integer 2)]⟩, t) := by
  have hhanded : handedInteger? (outcome ((counting atMostOne).processQuery (.object []))
      (countingSession 5)).1 = some (("n" : Text), 2) := by decide +kernel
  rcases hq : outcome ((counting atMostOne).processQuery (.object [])) (countingSession 5) with
    ⟨answer, t⟩
  rw [hq] at hhanded
  obtain ⟨passed, rfl⟩ := exists_of_handedInteger? hhanded
  exact ⟨passed, t, rfl⟩

theorem not_accepts_two {s : Session Nat} :
    ¬ (Rule.compared .atMost (.integer 1)).Accepts (counting atMostOne).functions s (.integer 2) := by
  intro h
  have hcheck := h s (.refl s)
  have hmore : Number.lessOrEqual (.integer 2) (.integer 1) = false := by decide +kernel
  rw [Rule.check, Engine.outcome_ofFault, Value.integer, Rule.ofNumber] at hcheck
  cases hn : (Number.integer 2).testNaN <;>
    simp [hn, Relation.holds, hmore, bind, Except.bind, pure, Except.pure, ofFault] at hcheck

/-- A query hands out a value that the first pass did not check. -/
theorem counting_twice_hands_out_another : (counting atMostOne).Built ∧
    (∀ c ∈ (counting atMostOne).criteria,
      Rule.ArePure (counting atMostOne).functions (countingSession 5) c.rules) ∧
    ∃ result t v, outcome ((counting atMostOne).processQuery (.object [])) (countingSession 5) =
      (.ok result, t) ∧ result.summary.overallSuccess = true ∧
      (∀ rule ∈ atMostOne, rule.Accepts (counting atMostOne).functions (countingSession 5) v) ∧
      v ≠ .integer 2 ∧ result.data = .resolved [(.text "n", .integer 2)] := by
  obtain ⟨passed, t, h⟩ := processQuery_counting_twice
  obtain ⟨judged, u, fields, _, hcriteria, hdata, _, hfields⟩ :=
    handed_values_satisfy_rules_unless_changed built_counting_atMostOne (arePure_atMostOne rfl) h rfl
  cases hdata
  obtain ⟨j, hj, _, haccepts, hor⟩ := hfields _ List.mem_cons_self
  have hrules : j.criterion.rules = atMostOne := by
    have hmem : j.criterion ∈ (counting atMostOne).criteria := hcriteria ▸ List.mem_map_of_mem hj
    rw [List.mem_singleton.mp hmem]
    rfl
  rw [hrules] at haccepts hor
  rcases hor with htwo | ⟨_, hne⟩
  · exact absurd (htwo _ List.mem_cons_self) not_accepts_two
  · exact ⟨built_counting_atMostOne, arePure_atMostOne rfl, _, t, j.value, h, rfl, haccepts, hne.symm,
      rfl⟩

/-- Not every value that a success hands out satisfies the rules. -/
theorem not_every_handed_value_satisfies_rules :
    ¬ ∀ (r : Resolver) (record : Value) (s t : Session Nat) (result : QueryResult), r.Built →
      (∀ c ∈ r.criteria, Rule.ArePure r.functions s c.rules) →
      outcome (r.processQuery record) s = (.ok result, t) → result.summary.overallSuccess = true →
        ∀ fields, result.data = .resolved fields → ∀ field ∈ fields, ∀ c ∈ r.criteria,
          field.1.sameKey c.id = true → ∀ rule ∈ c.rules, rule.Accepts r.functions s field.2 := by
  intro hall
  obtain ⟨passed, t, h⟩ := processQuery_counting_twice
  have htwo := hall _ _ _ _ _ built_counting_atMostOne (arePure_atMostOne rfl) h rfl _ rfl _
    List.mem_cons_self (counted atMostOne) List.mem_cons_self rfl _ List.mem_cons_self
  exact not_accepts_two htwo

end Resolver
end Vetting
