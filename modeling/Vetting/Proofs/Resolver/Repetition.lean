import Mathlib.Data.List.Forall2
import Vetting.Proofs.Resolver.Raising
import Vetting.Proofs.Rule.Repetition

/-!
# Queries about records that were handed out

Where no criterion has a derivation, a record passes exactly if it holds a value for each criterion that
its rules accept. The record that is handed out then holds the same values, which are coerced once
more when it is queried: to themselves, or to numbers that equal them. The rules accept these too, so the
second query passes as the first one did.
-/

namespace Vetting

open Engine

variable {σ : Type}

namespace Resolver

def stored (record : Value) (c : Criterion) : Value := (fieldValue c record).toOption.getD .null

def storedFields (r : Resolver) (record : Value) : Fields :=
  r.criteria.map fun c => (c.id, stored record c)

def passing (r : Resolver) : Summary := ⟨r.criteria.map (·.id), []⟩

/-- A criterion without a derivation whose rules accept what a record holds for it. -/
structure Fulfils (r : Resolver) (s : Session σ) (record : Value) (c : Criterion) : Prop where
  id : c.id.isSet = true
  underived : c.isDerived = false
  value : fieldValue c record = .ok (stored record c)
  accepts : ∀ rule ∈ c.rules, rule.Accepts r.functions s (stored record c)

section Passing
variable {r : Resolver} {s t u w : Session σ} {record : Value} {c : Criterion}
  {criteria : List Criterion}

theorem stored_of_value {v : Value} (h : fieldValue c record = .ok v) : stored record c = v := by
  rw [stored, h]
  rfl

theorem FirstPass.isSet_of_mem {judged : List Judged} (h : r.FirstPass record s judged t) {j : Judged}
    (hj : j ∈ judged) : j.criterion.id.isSet = true := by
  induction h with
  | nil => cases hj
  | cons hid _ _ _ ih =>
    rcases List.mem_cons.mp hj with rfl | hj
    · exact hid
    · exact ih hj

/-! ## Records that pass -/

theorem Fulfils.outcome_resolve (h : r.Fulfils s record c) (t : Session σ) :
    outcome (r.resolve c record) t = (.ok (stored record c), t) := by
  rw [outcome_resolve_of_not_derived h.underived, h.value]
  rfl

theorem Fulfils.exists_validate (h : r.Fulfils s record c) (ht : s.Alike t) :
    ∃ u, outcome (c.validate r.functions r.catalog r.language (stored record c)) t =
      (.ok ⟨c.id, true, none⟩, u) := by
  have herrors : (outcome (Criterion.errorsOf r.functions r.catalog r.language c (stored record c) []
      c.rules) t).1 = .ok [] := Criterion.errorsOf_of_accepts h.accepts ht
  obtain ⟨u, hu⟩ := exists_outcome_eq herrors
  exact ⟨u, outcome_bind_of_ok hu⟩

theorem exists_firstPass_of_fulfils (h : ∀ c ∈ criteria, r.Fulfils s record c) (ht : s.Alike t) :
    ∃ u, r.FirstPass record t
      (criteria.map fun c => ⟨c, stored record c, ⟨c.id, true, none⟩⟩) u := by
  induction criteria generalizing t with
  | nil => exact ⟨t, .nil⟩
  | cons c rest ih =>
    obtain ⟨hc, hrest⟩ := List.forall_mem_cons.mp h
    obtain ⟨u, hu⟩ := hc.exists_validate ht
    obtain ⟨w, hw⟩ := ih hrest (ht.trans ((Criterion.keeps_validate _ _ _ _ _).alike hu))
    exact ⟨w, .cons hc.id (hc.outcome_resolve t) hu hw⟩

theorem outcome_collect_of_fulfils (h : ∀ c ∈ criteria, r.Fulfils s record c) (summary : Summary)
    (data : Fields) (t : Session σ) :
    outcome (r.collect record summary data criteria) t =
      (.ok (summary, data.putAll (criteria.map fun c => (c.id, stored record c))), t) := by
  induction criteria generalizing data with
  | nil => rfl
  | cons c rest ih =>
    obtain ⟨hc, hrest⟩ := List.forall_mem_cons.mp h
    rw [collect, outcome_bind_of_ok (outcome_attempt ..), hc.outcome_resolve t]
    exact ih hrest (data.put c.id (stored record c))

theorem distinct_storedFields (hr : r.Built) (record : Value) :
    (r.storedFields record).Pairwise fun a b => a.1.sameKey b.1 = false :=
  List.pairwise_map.mpr hr.distinct

/-- A record that fulfils all criteria passes, and what it holds for them is handed out. -/
theorem exists_processQuery_of_fulfils (hr : r.Built) (h : ∀ c ∈ r.criteria, r.Fulfils s record c)
    (hlog : (outcome (log (validated r.passing)) s).1 = .ok ()) (ht : s.Alike t) :
    ∃ u, s.Alike u ∧ outcome (r.processQuery record) t =
      (.ok ⟨r.passing, .resolved (r.storedFields record)⟩, u) := by
  obtain ⟨u, hpass⟩ := exists_firstPass_of_fulfils h ht
  have hverdicts := hpass.outcome_verdictsOn
  simp only [List.map_map, Function.comp_def, List.map_id'] at hverdicts
  have hsummary : Summary.ofVerdicts (r.criteria.map fun c => ⟨c.id, true, none⟩) = r.passing := by
    rw [Summary.ofVerdicts_of_success (by simp), List.map_map]
    rfl
  have hu : s.Alike u := ht.trans hpass.alike
  obtain ⟨w, hw⟩ := exists_outcome_eq ((outcome_log_eq hu _).trans hlog)
  have hall : outcome (r.validateAll record) t = (.ok r.passing, w) := by
    rw [validateAll_eq, outcome_bind_of_ok hverdicts, hsummary, outcome_bind_of_ok hw]
    rfl
  have hdata : Fields.putAll [] (r.storedFields record) = r.storedFields record :=
    Fields.putAll_of_distinct (distinct_storedFields hr record)
  have hcollect := outcome_collect_of_fulfils h r.passing [] w
  rw [← storedFields, hdata] at hcollect
  refine ⟨w, hu.trans ((keeps_log _).alike hw), ?_⟩
  rw [processQuery, outcome_bind_of_ok hall]
  exact outcome_bind_of_ok hcollect

/-- A criterion without a derivation that passed is fulfilled. -/
theorem FirstPass.fulfils {judged : List Judged} (h : r.FirstPass record s judged t) {j : Judged}
    (hj : j ∈ judged) (hs : j.verdict.success = true) (hderived : j.criterion.isDerived = false)
    (hrules : Rule.AllRespect r.functions s j.criterion.rules) : r.Fulfils s record j.criterion := by
  obtain ⟨_, t₂, _, _, ht₂, hresolve, hvalidate⟩ := h.steps_of_mem hj
  have hvalue : fieldValue j.criterion record = .ok j.value := by
    rw [outcome_resolve_of_not_derived hderived] at hresolve
    exact ofFault_eq_ok_iff.mp (congrArg Prod.fst hresolve)
  have hstored : stored record j.criterion = j.value := stored_of_value hvalue
  have hpasses := Criterion.passes_of_validate hvalidate hs
  refine ⟨h.isSet_of_mem hj, hderived, hstored ▸ hvalue, ?_⟩
  rw [hstored]
  exact hpasses.accepts_of_respect ht₂ hrules

/-- A query that is a success has validated its record with success. -/
theorem validateAll_of_success {result : QueryResult}
    (h : outcome (r.processQuery record) s = (.ok result, t))
    (hs : result.summary.overallSuccess = true) :
    ∃ summary w, outcome (r.validateAll record) s = (.ok summary, w) ∧
      summary.overallSuccess = true := by
  rw [processQuery, outcome_bind_eq_ok_iff] at h
  obtain ⟨summary, w, hall, h⟩ := h
  refine ⟨summary, w, hall, ?_⟩
  by_contra hfails
  rw [Bool.not_eq_true] at hfails
  simp only [hfails, Bool.not_false, ↓reduceIte] at h
  cases h
  rw [hs] at hfails
  cases hfails

/-- A query that is a success is about a record that fulfils all criteria. -/
theorem fulfils_of_success {result : QueryResult} (hderived : ∀ c ∈ r.criteria, c.isDerived = false)
    (hrules : ∀ c ∈ r.criteria, Rule.AllRespect r.functions s c.rules)
    (h : outcome (r.processQuery record) s = (.ok result, t))
    (hs : result.summary.overallSuccess = true) :
    (∀ c ∈ r.criteria, r.Fulfils s record c) ∧
      (outcome (log (validated r.passing)) s).1 = .ok () := by
  obtain ⟨_, w, hall, hsuccess⟩ := validateAll_of_success h hs
  obtain ⟨judged, u, hpass, hcriteria, rfl, hlog⟩ := exists_firstPass_logged hall
  have hjudged : ∀ j ∈ judged, j.verdict.success = true := success_of_all hsuccess
  constructor
  · intro c hc
    have hmem := hc
    rw [← hcriteria] at hmem
    obtain ⟨j, hj, rfl⟩ := List.mem_map.mp hmem
    exact hpass.fulfils hj (hjudged j hj) (hderived _ hc) (hrules _ hc)
  · have hsummary : Summary.ofVerdicts (judged.map (·.verdict)) = r.passing := by
      rw [Summary.ofVerdicts_of_success (by simpa using hjudged), List.map_map, passing, ← hcriteria,
        List.map_map]
      exact congrArg (Summary.mk · []) hpass.verdict_criterion
    rw [← outcome_log_eq hpass.alike, ← hsummary, hlog]

/-! ## Records that were handed out -/

/-- What is handed out for a criterion is found again. -/
theorem Fulfils.getKey_storedFields (h : r.Fulfils s record c) (hr : r.Built) (hc : c ∈ r.criteria) :
    (Value.object (r.storedFields record)).getKey c.id = .ok (stored record c) := by
  cases hkey : c.id.sameKey c.id with
  | true =>
    have hmem : (c.id, stored record c) ∈ r.storedFields record := List.mem_map_of_mem hc
    rw [Value.getKey, Fields.get?_of_mem (distinct_storedFields hr record) hkey hmem]
    rfl
  | false =>
    -- such an id finds nothing in any record, so the value was null before
    have hnull : stored record c = .null := by
      have hvalue := h.value
      cases record with
      | object fields =>
        rw [fieldValue, Value.getKey, Fields.get?_of_sameKey_eq_false fields hkey] at hvalue
        exact (Except.ok.inj hvalue).symm
      | _ => cases hvalue
    rw [Value.getKey, Fields.get?_of_sameKey_eq_false _ hkey, hnull]
    rfl

/-- A criterion that a record fulfils is fulfilled by the record that is handed out. -/
theorem Fulfils.again (h : r.Fulfils s record c) (hr : r.Built) (hc : c ∈ r.criteria)
    (hrules : Rule.AllRespect r.functions s c.rules) :
    r.Fulfils s (.object (r.storedFields record)) c ∧
      Coercion.Respelled (stored record c) (stored (.object (r.storedFields record)) c) := by
  obtain ⟨v, hread, hcoerce⟩ := bind_eq_ok_iff.mp h.value
  obtain ⟨w, hagain, hvw⟩ := Coercion.coerce_again hcoerce
  have hvalue : fieldValue c (.object (r.storedFields record)) = .ok w := by
    rw [fieldValue, h.getKey_storedFields hr hc]
    exact hagain
  have hstored := stored_of_value hvalue
  refine ⟨⟨h.id, h.underived, hstored ▸ hvalue, fun rule hrule t ht => ?_⟩, hstored ▸ hvw⟩
  rw [hstored]
  exact Rule.check_respelled hrules hrule hvw (.refl s) ht (h.accepts rule hrule s (.refl s))

/-- A record that was handed out passes when it is queried, with the same summary. What is handed
out then has the same keys, and under each key the same value or one that equals it. Without
derivations only the validators could see a difference, which are asked to respect equality. -/
theorem processQuery_again {result : QueryResult} (hr : r.Built)
    (hderived : ∀ c ∈ r.criteria, c.isDerived = false)
    (hrules : ∀ c ∈ r.criteria, Rule.AllRespect r.functions s c.rules)
    (h : outcome (r.processQuery record) s = (.ok result, t))
    (hs : result.summary.overallSuccess = true) :
    s.Alike t ∧ ∃ fields, result.data = .resolved fields ∧
      ∀ u : Session σ, s.Alike u → ∃ fields' w,
        outcome (r.processQuery result.data.toValue) u =
          (.ok ⟨result.summary, .resolved fields'⟩, w) ∧
        List.Forall₂ (fun field field' => field'.1 = field.1 ∧
          (field'.2 = field.2 ∨ field'.2.equal field.2 = true)) fields fields' := by
  obtain ⟨hfulfils, hlog⟩ := fulfils_of_success hderived hrules h hs
  obtain ⟨t', ht', hquery⟩ := exists_processQuery_of_fulfils hr hfulfils hlog (.refl s)
  rw [h] at hquery
  cases hquery
  refine ⟨ht', r.storedFields record, rfl, fun u hu => ?_⟩
  have hagain (c : Criterion) (hc : c ∈ r.criteria) := (hfulfils c hc).again hr hc (hrules c hc)
  obtain ⟨w, _, hquery⟩ :=
    exists_processQuery_of_fulfils hr (fun c hc => (hagain c hc).1) hlog hu
  refine ⟨_, w, hquery, ?_⟩
  rw [storedFields, storedFields, List.forall₂_map_left_iff, List.forall₂_map_right_iff,
    List.forall₂_same]
  exact fun c hc => ⟨rfl, (hagain c hc).2.eq_or_equal⟩

end Passing

/-! ## A text that is read twice -/

/-- A host whose functions tell numbers from other values. -/
def discerningHost : Host Unit where
  behaviour _ arguments := .finish (.ok (.boolean (arguments.any (·.isNumber))))
  instant := 0

def discerningSession : Session Unit :=
  ⟨discerningHost, (), Settings.defaults, .empty, .new "engine" false .info, {}⟩

def discerning : Validator := .function (.host ⟨"number", 0, none⟩)

theorem outcome_truth_discerning {functions : Scope} {t : Session Unit} (v : Value)
    (ht : discerningSession.Alike t) :
    (outcome (discerning.truth functions v) t).1 = .ok v.isNumber := by
  obtain ⟨host, state, settings, cache, log, capacity⟩ := t
  obtain rfl : host = discerningHost := ht.host
  obtain rfl : capacity = {} := ht.capacity
  exact congrArg Except.ok (Bool.or_false v.isNumber)

theorem isNumber_of_equal {v w : Value} (h : w.equal v = true) : w.isNumber = v.isNumber := by
  cases w <;> cases v <;> first | rfl | cases h

theorem respects_discerning (functions : Scope) : discerning.Respects functions discerningSession := by
  intro v w t u b ht hu hvw h
  rw [outcome_truth_discerning v ht] at h
  rw [outcome_truth_discerning w hu, ← h]
  rcases hvw with rfl | hequal
  · rfl
  · rw [isNumber_of_equal hequal]

def measured : Criterion := ⟨.text "x", .null, .null, [.ofType .number, .custom discerning ""]⟩

def measuring : Resolver := ⟨.builtins registryName, [measured], .bundled, .text "en"⟩

theorem built_measuring : measuring.Built := by
  have h : outcome (create (.loaded [measured]) (.text "en") [] .bundled) discerningSession =
      (.ok measuring, discerningSession) := rfl
  exact .created h

/-- A record with a text that is read as a float, which is read as an integer in turn. -/
def measurement : Value := .object [(.text "x", .text "42.0")]

def succeeds : Except Failure QueryResult → Bool
  | .ok result => result.summary.overallSuccess
  | .error _ => false

theorem exists_of_succeeds {answer : Except Failure QueryResult} (h : succeeds answer = true) :
    ∃ result, answer = .ok result ∧ result.summary.overallSuccess = true := by
  cases answer with
  | error e => cases h
  | ok result => exact ⟨result, rfl, h⟩

theorem measurement_passes_again : measuring.Built ∧
    (∀ c ∈ measuring.criteria, c.isDerived = false) ∧
    (∀ c ∈ measuring.criteria, Rule.AllRespect measuring.functions discerningSession c.rules) ∧
    ∃ result t, outcome (measuring.processQuery measurement) discerningSession = (.ok result, t) ∧
      result.summary.overallSuccess = true ∧ ∃ fields, result.data = .resolved fields ∧
        ∀ u : Session Unit, discerningSession.Alike u → ∃ fields' w,
          outcome (measuring.processQuery result.data.toValue) u =
            (.ok ⟨result.summary, .resolved fields'⟩, w) ∧
          List.Forall₂ (fun field field' => field'.1 = field.1 ∧
            (field'.2 = field.2 ∨ field'.2.equal field.2 = true)) fields fields' := by
  have hderived : ∀ c ∈ measuring.criteria, c.isDerived = false := by
    intro c hc
    cases List.mem_singleton.mp hc
    rfl
  have hrules : ∀ c ∈ measuring.criteria,
      Rule.AllRespect measuring.functions discerningSession c.rules := by
    intro c hc validator description hrule
    cases List.mem_singleton.mp hc
    rcases List.mem_cons.mp hrule with hrule | hrule
    · cases hrule
    · cases List.mem_singleton.mp hrule
      exact respects_discerning _
  have hsucceeds : succeeds (outcome (measuring.processQuery measurement) discerningSession).1 = true := by
    decide +kernel
  obtain ⟨result, h, hs⟩ := exists_of_succeeds hsucceeds
  obtain ⟨t, hquery⟩ := exists_outcome_eq h
  exact ⟨built_measuring, hderived, hrules, result, t, hquery, hs,
    (processQuery_again built_measuring hderived hrules hquery hs).2⟩

end Resolver
end Vetting
