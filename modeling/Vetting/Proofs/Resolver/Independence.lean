import Vetting.Proofs.Resolver.Definition
import Vetting.Proofs.Resolver.Raising

/-!
# Each criterion by itself

Where derivations and validators are pure, what a validation says about a criterion depends on the
record and the definition of the criterion only: neither the other criteria nor the moment matter.
So a validation that returns reports each criterion as it is by itself, in the order of the criteria,
and one that fails for a derivation fails for the first that does.
-/

namespace Vetting

open Engine

variable {σ : Type}

namespace Resolver

section Settled
variable (r : Resolver) (s : Session σ) (record : Value)

/-- The value of a criterion and the verdict on it, the same in all sessions later than `s`. -/
structure Settles (j : Judged) : Prop where
  value : ∀ {t : Session σ}, s.Later t → (outcome (r.resolve j.criterion record) t).1 = .ok j.value
  verdict : ∀ {t : Session σ}, s.Later t →
    (outcome (j.criterion.validate r.functions r.catalog r.language j.value) t).1 = .ok j.verdict

/-- A criterion that has a value in all sessions later than `s`, which all of its rules accept. -/
def Satisfied (c : Criterion) : Prop :=
  ∃ v, (∀ t : Session σ, s.Later t → (outcome (r.resolve c record) t).1 = .ok v) ∧
    ∀ rule ∈ c.rules, rule.Accepts r.functions s v

/-- A criterion whose derivation fails in all sessions later than `s`. -/
def DerivationFails (c : Criterion) (cause : Failure) : Prop :=
  c.isDerived = true ∧
    ∀ t : Session σ, s.Later t → (outcome (r.derived c record) t).1 = .error cause

open Classical in
/-- A summary that reports each criterion, in order, as it is by itself. -/
structure Reports (summary : Summary) : Prop where
  passed : summary.passed = (r.criteria.filter fun c => r.Satisfied s record c).map (·.id)
  failed : summary.failed.map (·.id) =
    (r.criteria.filter fun c => ¬ r.Satisfied s record c).map (·.id)

end Settled

section Judged
variable {r : Resolver} {s t u : Session σ} {record : Value} {j : Judged} {judged : List Judged}

theorem Settles.eq {j' : Judged} (h : r.Settles s record j) (h' : r.Settles s record j')
    (ht : s.Later t) (hc : j.criterion = j'.criterion) : j = j' := by
  obtain ⟨c, v, verdict⟩ := j
  obtain ⟨c', v', verdict'⟩ := j'
  obtain rfl : c = c' := hc
  obtain rfl : v = v' := Except.ok.inj ((h.value ht).symm.trans (h'.value ht))
  obtain rfl : verdict = verdict' := Except.ok.inj ((h.verdict ht).symm.trans (h'.verdict ht))
  rfl

theorem Settles.success_iff (h : r.Settles s record j) (hpure : r.IsPure s) (ht : s.Later t)
    (hj : j.criterion ∈ r.criteria) : j.verdict.success = true ↔ r.Satisfied s record j.criterion := by
  constructor
  · intro hs
    have hpasses := Criterion.passes_of_validate (Prod.ext (h.verdict ht) rfl) hs
    exact ⟨j.value, fun u hu => h.value hu, hpasses.accepts ht.toAlike (hpure.validators _ hj)⟩
  · rintro ⟨v, hv, haccepts⟩
    obtain rfl : v = j.value := Except.ok.inj ((hv t ht).symm.trans (h.value ht))
    have herrors : (outcome (Criterion.errorsOf r.functions r.catalog r.language j.criterion j.value []
        j.criterion.rules) t).1 = .ok [] := Criterion.errorsOf_of_accepts haccepts ht.toAlike
    have hverdict := h.verdict ht
    rw [Criterion.validate, outcome_bind_of_ok (Prod.ext herrors rfl)] at hverdict
    exact Except.ok.inj hverdict ▸ rfl

/-- What a pass finds out about a criterion is settled. -/
theorem FirstPass.settles (h : r.FirstPass record t judged u) (hpure : r.IsPure s) (ht : s.Later t)
    (hj : ∀ j ∈ judged, j.criterion ∈ r.criteria) :
    s.Later u ∧ ∀ j ∈ judged, r.Settles s record j := by
  induction h with
  | nil => exact ⟨ht, fun _ h => nomatch h⟩
  | cons _ hv hverdict _ ih =>
    obtain ⟨hc, hrest⟩ := List.forall_mem_cons.mp hj
    have hresolve := hpure.steady_resolve hc record
    have hvalidate := hpure.steady_validate hc
    have ht₁ := hresolve.later_of ht hv
    obtain ⟨hu, hsettles⟩ := ih ((hvalidate _).later_of ht₁ hverdict) hrest
    refine ⟨hu, List.forall_mem_cons.mpr ⟨⟨fun hw => ?_, fun hw => ?_⟩, hsettles⟩⟩
    · rw [hresolve.result hw ht, hv]
    · rw [(hvalidate _).result hw ht₁, hverdict]

theorem FirstPass.criterion_of_mem (h : r.FirstPass record t judged u) (hj : j ∈ judged) :
    j.verdict.criterion = j.criterion.id := by
  obtain ⟨_, _, _, _, _, _, hverdict⟩ := h.steps_of_mem hj
  exact Criterion.criterion_of_validate hverdict

end Judged

/-! ## Reports -/

section Reports
variable {r : Resolver} {s t u : Session σ} {record : Value} {judged : List Judged}

theorem passed_ofJudged (judged : List Judged) :
    (Summary.ofVerdicts (judged.map (·.verdict))).passed =
      (judged.filter (·.verdict.success)).map (·.verdict.criterion) := by
  rw [Summary.ofVerdicts, Summary.passed_foldl_add, List.filter_map, List.map_map]
  rfl

theorem failed_ofJudged (judged : List Judged) :
    (Summary.ofVerdicts (judged.map (·.verdict))).failed =
      (judged.filter fun j => !j.verdict.success).map fun j =>
        ⟨j.verdict.criterion, j.verdict.errorFields⟩ := by
  rw [Summary.ofVerdicts, Summary.failures_foldl_add, List.filter_map, List.map_map]
  rfl

theorem map_id_filter_eq {p : Criterion → Bool} {q : Judged → Bool}
    (hid : ∀ j ∈ judged, j.verdict.criterion = j.criterion.id)
    (hpq : ∀ j ∈ judged, q j = p j.criterion) :
    (judged.filter q).map (·.verdict.criterion) =
      ((judged.map (·.criterion)).filter p).map (·.id) := by
  rw [List.filter_map, List.map_map, List.filter_congr (q := p ∘ (·.criterion)) hpq]
  exact List.map_congr_left fun j hj => hid j (List.mem_of_mem_filter hj)

theorem FirstPass.reports (h : r.FirstPass record t judged u) (hpure : r.IsPure s) (ht : s.Later t)
    (hcriteria : judged.map (·.criterion) = r.criteria) :
    r.Reports s record (Summary.ofVerdicts (judged.map (·.verdict))) := by
  classical
  have hmem : ∀ j ∈ judged, j.criterion ∈ r.criteria := fun j hj => hcriteria ▸ List.mem_map_of_mem hj
  have hsettles := (h.settles hpure ht hmem).2
  have hsuccess (j : Judged) (hj : j ∈ judged) :
      j.verdict.success = true ↔ r.Satisfied s record j.criterion :=
    (hsettles j hj).success_iff hpure ht (hmem j hj)
  refine ⟨?_, ?_⟩
  · rw [passed_ofJudged, ← hcriteria]
    refine map_id_filter_eq (fun j hj => h.criterion_of_mem hj) fun j hj => ?_
    rw [Bool.eq_iff_iff, hsuccess j hj, decide_eq_true_eq]
  · rw [failed_ofJudged, List.map_map, ← hcriteria]
    refine map_id_filter_eq (fun j hj => h.criterion_of_mem hj) fun j hj => ?_
    rw [Bool.eq_iff_iff, Bool.not_eq_true', ← Bool.not_eq_true, hsuccess j hj, decide_eq_true_eq]

theorem exists_firstPass_of_validateAll {summary : Summary}
    (h : outcome (r.validateAll record) t = (.ok summary, u)) :
    ∃ judged w, r.FirstPass record t judged w ∧ judged.map (·.criterion) = r.criteria ∧
      summary = Summary.ofVerdicts (judged.map (·.verdict)) := by
  obtain ⟨judged, w, hpass, hcriteria, hsummary, _⟩ := exists_firstPass_logged h
  exact ⟨judged, w, hpass, hcriteria, hsummary⟩

/-- A verdict that fails for a derivation: what a validation of a value raises is a fault, or an unknown
rule, so the derivation is the criterion's own. -/
theorem derived_fails_of_raises_verdictOn {fields : Fields} {c : Criterion} {id : Value} {shown : Text}
    {cause : Failure}
    (h : Raises (r.verdictOn (.object fields) c) u (.engine (.computation id shown cause))) :
    c.id = id ∧ c.isDerived = true ∧ ∃ w, outcome (r.derived c (.object fields)) u = (.error cause, w) := by
  have hid : c.id.isSet = true := by
    by_contra hid
    rw [Raises, verdictOn, Bool.eq_false_iff.mpr hid] at h
    cases h
  have hvalue : Raises (r.resolve c (.object fields)) u (.engine (.computation id shown cause)) := by
    refine ((raises_verdictOn_iff hid).mp h).resolve_right ?_
    rintro ⟨v, w, _, h⟩
    obtain ⟨_, rule, _, x, _, _, h⟩ := Criterion.raises_validate_iff.mp h
    cases h with
    | check h =>
      rcases Rule.raises_check_iff.mp h with ⟨_, he, _⟩ | ⟨_, _, _, _, he⟩ <;> cases he
  rcases raises_resolve_iff.mp hvalue with ⟨_, he, _⟩ | ⟨hd, cause, w, _, he, hfails, _⟩
  · cases he
  · cases he
    exact ⟨rfl, hd, w, hfails⟩

/-- A criterion with a value has a derivation with one, if it has any. -/
theorem Settles.not_derivationFails (h : r.Settles s record j) (ht : s.Later t) (cause : Failure) :
    ¬ r.DerivationFails s record j.criterion cause := by
  rintro ⟨hd, hfails⟩
  have hok := h.value ht
  have herror := outcome_derive_of_error (Prod.ext (hfails t ht) rfl)
  rw [resolve, raw_eq_derive hd, outcome_bind_of_error herror] at hok
  cases hok

/-- A validation that fails for a derivation fails for the first one that does. -/
theorem exists_first_derivationFails {fields : Fields} {id : Value} {shown : Text} {cause : Failure}
    (hpure : r.IsPure s) (ht : s.Later t)
    (h : Raises (r.validateAll (.object fields)) t (.engine (.computation id shown cause))) :
    ∃ before c after, r.criteria = before ++ c :: after ∧ c.id = id ∧
      r.DerivationFails s (.object fields) c cause ∧
        ∀ d ∈ before, ∀ cause', ¬ r.DerivationFails s (.object fields) d cause' := by
  rcases raises_validateAll_iff.mp h with ⟨judged, u, c, after, hpass, hcriteria, h⟩ |
    ⟨_, _, _, _, _, _, he⟩
  swap
  · cases he
  have hmem : ∀ j ∈ judged, j.criterion ∈ r.criteria := by
    intro j hj
    rw [hcriteria]
    exact List.mem_append_left _ (List.mem_map_of_mem hj)
  have hc : c ∈ r.criteria := by simp [hcriteria]
  obtain ⟨hu, hsettles⟩ := hpass.settles hpure ht hmem
  obtain ⟨hid, hd, w, hfails⟩ := derived_fails_of_raises_verdictOn h
  refine ⟨judged.map (·.criterion), c, after, hcriteria, hid, ⟨hd, fun x hx => ?_⟩, ?_⟩
  · rw [(hpure.derivations c hc hd _).result hx hu, hfails]
  · intro d hbefore cause'
    obtain ⟨j, hj, rfl⟩ := List.mem_map.mp hbefore
    exact (hsettles j hj).not_derivationFails hu cause'

end Reports

/-! ## Other criteria -/

section Others
variable {r r' : Resolver} {s₀ : Session σ} {configs configs' : List Criterion} {ids ids' : List Text}
  {wanted : Value} {functions : List (Text × Value)} {catalog : Catalog}

/-- Resolvers that are set up alike differ in their criteria only. -/
theorem SetUp.eq_with_criteria (h : SetUp s₀ configs ids wanted functions catalog r)
    (h' : SetUp s₀ configs' ids' wanted functions catalog r') :
    r' = { r with criteria := r'.criteria } := by
  obtain ⟨registry, criteria, messages, language⟩ := r
  obtain ⟨registry', criteria', messages', language'⟩ := r'
  obtain rfl : registry = registry' := Except.ok.inj (h.registry.symm.trans h'.registry)
  obtain rfl : messages = messages' := h.messages.trans h'.messages.symm
  obtain ⟨t, ht, hlanguage⟩ := h.language
  obtain ⟨t', ht', hlanguage'⟩ := h'.language
  have hsame := (steady_chooseLanguage catalog wanted).result ht ht'
  obtain rfl : language = language' := Except.ok.inj (hlanguage.symm.trans (hsame.trans hlanguage'))
  rfl

variable {s t t' u u' : Session σ} {record : Value} {judged judged' : List Judged}

/-- What was found out about a criterion is found out again wherever it has the same definition. -/
theorem mem_judged_of_last_eq (h : SetUp s₀ configs ids wanted functions catalog r)
    (h' : SetUp s₀ configs' ids' wanted functions catalog r')
    (hids' : configs'.map (·.id) = ids'.map Value.text) {id : Text}
    (hlast : Criterion.last? configs (.text id) = Criterion.last? configs' (.text id))
    (hj : ∀ j ∈ judged, r.Settles s record j) (hj' : ∀ j ∈ judged', r'.Settles s record j)
    (hcriteria : judged.map (·.criterion) = r.criteria)
    (hcriteria' : judged'.map (·.criterion) = r'.criteria) (ht : s.Later t) {j : Judged}
    (hmem : j ∈ judged) (hid : j.criterion.id = .text id) : j ∈ judged' := by
  obtain ⟨d, hd, hkept⟩ := h.criteria.exists_last_of_mem (hcriteria ▸ List.mem_map_of_mem hmem)
  rw [hid, hlast] at hd
  obtain ⟨c, hc, hkept'⟩ := h'.criteria.exists_mem_of_last hids' hd
  obtain ⟨j', hmem', hc'⟩ := List.mem_map.mp (hcriteria' ▸ hc)
  have hsame : j'.criterion = j.criterion := hc'.trans (Except.ok.inj (hkept'.symm.trans hkept))
  have hsettles' := hj' j' hmem'
  rw [h.eq_with_criteria h'] at hsettles'
  -- the criteria play no part in what settles one of them
  have hsettles : r.Settles s record j' := ⟨hsettles'.value, hsettles'.verdict⟩
  rwa [← hsettles.eq (hj j hmem) ht hsame]

end Others

end Resolver

/-- Summaries that say the same about an id, its errors included. -/
def Summary.AgreeOn (id : Value) (summary summary' : Summary) : Prop :=
  (id ∈ summary.passed ↔ id ∈ summary'.passed) ∧
    ∀ errors, ⟨id, errors⟩ ∈ summary.failed ↔ ⟨id, errors⟩ ∈ summary'.failed

theorem Summary.agreeOn_of_judged {id : Value} {judged judged' : List Resolver.Judged}
    (hid : ∀ j ∈ judged, j.verdict.criterion = j.criterion.id)
    (hid' : ∀ j ∈ judged', j.verdict.criterion = j.criterion.id)
    (h : ∀ j, j.criterion.id = id → (j ∈ judged ↔ j ∈ judged')) :
    AgreeOn id (ofVerdicts (judged.map (·.verdict))) (ofVerdicts (judged'.map (·.verdict))) := by
  have hmem (j : Resolver.Judged) :
      j ∈ judged ∧ j.verdict.criterion = id ↔ j ∈ judged' ∧ j.verdict.criterion = id := by
    constructor
    · rintro ⟨hj, rfl⟩
      exact ⟨(h j (hid j hj).symm).mp hj, rfl⟩
    · rintro ⟨hj, rfl⟩
      exact ⟨(h j (hid' j hj).symm).mpr hj, rfl⟩
  refine ⟨?_, fun errors => ?_⟩
  · simp only [Resolver.passed_ofJudged, List.mem_map, List.mem_filter]
    grind
  · simp only [Resolver.failed_ofJudged, List.mem_map, List.mem_filter, FailedCriterion.mk.injEq]
    grind

namespace Resolver

/-- A resolver keeps each id once, in order, as it was defined last. With pure derivations and
validators, a validation that returns reports each criterion as it is by itself, and two resolvers that
define an id alike report it alike, whatever else they define. A validation that fails for a derivation
fails for the first one that does. -/
theorem validateAll_judges_each_by_itself {r : Resolver} {s₀ s₁ s₂ s : Session σ}
    {configs : List Criterion} {ids : List Text} {wanted : Value} {functions : List (Text × Value)}
    {catalog : Catalog} (hs₁ : s₀.Later s₁) (hids : configs.map (·.id) = ids.map Value.text)
    (hcreate : outcome (create (.loaded configs) wanted functions catalog) s₁ = (.ok r, s₂))
    (hpure : r.IsPure s) (fields : Fields) :
    r.criteria.map (·.id) = ids.eraseDups.map Value.text ∧
      Criterion.KeepsLast s₀ configs ids r.criteria ∧
      (∀ t u summary, s.Later t →
        outcome (r.validateAll (.object fields)) t = (.ok summary, u) →
          r.Reports s (.object fields) summary ∧
            ∀ (r' : Resolver) (s₁' s₂' t' u' : Session σ) (configs' : List Criterion)
                (ids' : List Text) (summary' : Summary),
              s₀.Later s₁' → configs'.map (·.id) = ids'.map Value.text →
              outcome (create (.loaded configs') wanted functions catalog) s₁' = (.ok r', s₂') →
              r'.IsPure s → s.Later t' →
              outcome (r'.validateAll (.object fields)) t' = (.ok summary', u') →
                ∀ id, Criterion.last? configs (.text id) = Criterion.last? configs' (.text id) →
                  Summary.AgreeOn (.text id) summary summary') ∧
      ∀ t u id shown cause, s.Later t →
        outcome (r.validateAll (.object fields)) t =
          (.error (.engine (.computation id shown cause)), u) →
            ∃ before c after, r.criteria = before ++ c :: after ∧ c.id = id ∧
              r.DerivationFails s (.object fields) c cause ∧
                ∀ d ∈ before, ∀ cause', ¬ r.DerivationFails s (.object fields) d cause' := by
  have hset := setUp_of_create hs₁ hids hcreate
  refine ⟨hset.criteria.map_id, hset.criteria, fun t u summary ht h => ?_, fun t u id shown cause ht h => ?_⟩
  · obtain ⟨judged, w, hpass, hcriteria, rfl⟩ := exists_firstPass_of_validateAll h
    refine ⟨hpass.reports hpure ht hcriteria, ?_⟩
    intro r' s₁' s₂' t' u' configs' ids' summary' hs₁' hids' hcreate' hpure' ht' h' id hlast
    have hset' := setUp_of_create hs₁' hids' hcreate'
    obtain ⟨judged', w', hpass', hcriteria', rfl⟩ := exists_firstPass_of_validateAll h'
    have hsettles := (hpass.settles hpure ht fun j hj => hcriteria ▸ List.mem_map_of_mem hj).2
    have hsettles' := (hpass'.settles hpure' ht' fun j hj => hcriteria' ▸ List.mem_map_of_mem hj).2
    refine Summary.agreeOn_of_judged (fun j hj => hpass.criterion_of_mem hj)
      (fun j hj => hpass'.criterion_of_mem hj) fun j hid => ⟨fun hj => ?_, fun hj => ?_⟩
    · exact mem_judged_of_last_eq hset hset' hids' hlast hsettles hsettles' hcriteria hcriteria' ht
        hj hid
    · exact mem_judged_of_last_eq hset' hset hids hlast.symm hsettles' hsettles hcriteria' hcriteria
        ht' hj hid
  · exact exists_first_derivationFails hpure ht (raises_of_outcome h)

/-! ## A criterion that is defined twice -/

/-- The second definition of `x` takes the place of the first. -/
def redefined : List Criterion :=
  [⟨.text "x", .null, .null, [.equals (.integer 7)]⟩, ⟨.text "y", .null, .null, [.exists]⟩,
    ⟨.text "x", .null, .null, [.compared .atMost (.integer 5)]⟩]

/-- The second definition of `x` alone. -/
def definedOnce : List Criterion := [⟨.text "x", .null, .null, [.compared .atMost (.integer 5)]⟩]

def redefinedResolver : Resolver :=
  ⟨.builtins registryName, definedOnce ++ [⟨.text "y", .null, .null, [.exists]⟩], .bundled, .text "en"⟩

theorem exists_create_redefined : ∃ t,
    outcome (create (.loaded redefined) (.text "en") [] .bundled) freshSession =
      (.ok redefinedResolver, t) := ⟨_, rfl⟩

theorem create_definedOnce :
    outcome (create (.loaded definedOnce) (.text "en") [] .bundled) freshSession =
      (.ok { redefinedResolver with criteria := definedOnce }, freshSession) := rfl

def recordOfThree : Fields := [(.text "x", .integer 3)]

theorem exists_summary_of_isOk {r : Resolver}
    (h : (outcome (r.validateAll (.object recordOfThree)) freshSession).1.isOk = true) :
    ∃ summary t, outcome (r.validateAll (.object recordOfThree)) freshSession = (.ok summary, t) := by
  rcases hq : outcome (r.validateAll (.object recordOfThree)) freshSession with ⟨e | summary, t⟩
  · rw [hq] at h
    cases h
  · exact ⟨summary, t, rfl⟩

/-- The validation goes by the second definition of `x`, and says the same as one without `y`. -/
theorem redefined_criterion_is_judged_by_last :
    ∃ summary summary' t t',
      outcome (redefinedResolver.validateAll (.object recordOfThree)) freshSession =
          (.ok summary, t) ∧
        outcome ({ redefinedResolver with criteria := definedOnce }.validateAll
          (.object recordOfThree)) freshSession = (.ok summary', t') ∧
        Criterion.KeepsLast freshSession redefined ["x", "y", "x"] redefinedResolver.criteria ∧
        redefinedResolver.Reports freshSession (.object recordOfThree) summary ∧
        Summary.AgreeOn (.text "x") summary summary' := by
  have hfresh : freshSession.Later freshSession := .refl ready_freshSession.cache
  have hids : redefined.map (·.id) = ["x", "y", "x"].map Value.text := rfl
  obtain ⟨s₂, hcreate⟩ := exists_create_redefined
  obtain ⟨summary, t, h⟩ := exists_summary_of_isOk (r := redefinedResolver) (by decide +kernel)
  obtain ⟨summary', t', h'⟩ := exists_summary_of_isOk
    (r := { redefinedResolver with criteria := definedOnce }) (by decide +kernel)
  obtain ⟨_, hkeeps, hreturns, _⟩ := validateAll_judges_each_by_itself hfresh
    hids hcreate (isPure_of_subsingleton redefinedResolver freshSession)
    recordOfThree
  obtain ⟨hreports, hother⟩ := hreturns _ _ _ hfresh h
  refine ⟨summary, summary', t, t', h, h', hkeeps, hreports, ?_⟩
  exact hother _ _ _ _ _ _ ["x"] _ hfresh rfl create_definedOnce (isPure_of_subsingleton _ _)
    hfresh h' "x" rfl

end Resolver
end Vetting
