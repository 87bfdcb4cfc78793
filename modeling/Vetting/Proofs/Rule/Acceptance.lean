import Vetting.Proofs.Session
import Vetting.Proofs.Value.Fields

/-!
# Values that satisfy the rules of a criterion

A verdict is a success exactly when every rule was checked and held. A check is an operation of the
engine, and a validator may answer differently each time; where the validators are pure, the check
of a rule in one session decides it for all sessions that are alike.
-/

namespace Vetting

variable {σ : Type}

/-- A validator whose answer on a value is the same in all sessions like `s`. -/
def Validator.IsPure (functions : Scope) (s : Session σ) (validator : Validator) : Prop :=
  ∀ (v : Value) (t u : Session σ), s.Alike t → s.Alike u →
    (outcome (validator.call functions v) t).1 = (outcome (validator.call functions v) u).1

/-- A rule that a value satisfies, by a check in any session like `s`. -/
def Rule.Accepts (functions : Scope) (s : Session σ) (rule : Rule) (v : Value) : Prop :=
  ∀ t : Session σ, s.Alike t → (outcome (rule.check functions v) t).1 = .ok true

def Rule.ArePure (functions : Scope) (s : Session σ) (rules : List Rule) : Prop :=
  ∀ validator description, Rule.custom validator description ∈ rules → validator.IsPure functions s

section Pure
variable {functions : Scope} {s t u : Session σ} {v : Value}

def Validator.truth (functions : Scope) (v : Value) (validator : Validator) : Engine σ Bool := do
  let verdict ← validator.call functions v
  Engine.ofFault verdict.truthy

/-- What becomes of that truth: a failure is logged and counts as false. -/
def Validator.report : Except Failure Bool → Engine σ Bool
  | .ok accepted => pure accepted
  | .error e => do
    Engine.log (.debug "Custom validator raised"
      [("error_type", .text e.className), ("error", .text e.message)])
    return false

theorem Validator.outcome_accepts (validator : Validator) (t : Session σ) :
    outcome (validator.accepts functions v) t =
      outcome (report (outcome (validator.truth functions v) t).1)
        (outcome (validator.truth functions v) t).2 := by
  rcases h : outcome (validator.truth functions v) t with ⟨r, u⟩
  have hattempt : outcome (validator.truth functions v).attempt t = (.ok r, u) := by
    rw [Engine.outcome_attempt, h]
  cases r with
  | ok accepted => exact outcome_bind_of_ok hattempt
  | error e => exact outcome_bind_of_ok hattempt

theorem Validator.keeps_truth (functions : Scope) (v : Value) (validator : Validator) :
    Engine.Keeps (validator.truth functions v : Engine σ Bool) :=
  Engine.keeps_bind (Validator.keeps_call functions v validator) fun _ => Engine.keeps_ofFault _

theorem Validator.IsPure.outcome_truth_eq {validator : Validator} (h : validator.IsPure functions s)
    (ht : s.Alike t) (hu : s.Alike u) :
    (outcome (validator.truth functions v) t).1 = (outcome (validator.truth functions v) u).1 :=
  outcome_bind_fst_congr (h v t u ht hu) fun _ _ _ => rfl

theorem Validator.outcome_report_eq (ht : s.Alike t) (hu : s.Alike u) (r : Except Failure Bool) :
    (outcome (report r) t).1 = (outcome (report r) u).1 := by
  cases r with
  | ok accepted => rfl
  | error e =>
    refine outcome_bind_fst_congr ?_ fun _ _ _ => rfl
    rw [Engine.outcome_log_eq ht, Engine.outcome_log_eq hu]

/-- Pure validators decide alike in sessions that are alike. -/
theorem Validator.IsPure.outcome_accepts_eq {validator : Validator} (h : validator.IsPure functions s)
    (ht : s.Alike t) (hu : s.Alike u) :
    (outcome (validator.accepts functions v) t).1 = (outcome (validator.accepts functions v) u).1 := by
  rw [outcome_accepts, outcome_accepts, h.outcome_truth_eq ht hu]
  exact outcome_report_eq (ht.trans (keeps_truth functions v validator t))
    (hu.trans (keeps_truth functions v validator u)) _

theorem Rule.outcome_check_eq {rules : List Rule} (h : ArePure functions s rules) {rule : Rule}
    (hr : rule ∈ rules) (ht : s.Alike t) (hu : s.Alike u) :
    (outcome (rule.check functions v) t).1 = (outcome (rule.check functions v) u).1 := by
  cases rule with
  | custom validator description => exact (h validator description hr).outcome_accepts_eq ht hu
  | _ => rfl

end Pure

/-! ## Checking rule after rule -/

/-- Rules that hold of a value one after the other, from a session to another. -/
inductive Passes (functions : Scope) (v : Value) : Session σ → List Rule → Session σ → Prop
  | nil {s : Session σ} : Passes functions v s [] s
  | cons {s t u : Session σ} {rule : Rule} {rest : List Rule}
      (hc : outcome (rule.check functions v) s = (.ok true, t)) (hr : Passes functions v t rest u) :
      Passes functions v s (rule :: rest) u

theorem Passes.accepts {functions : Scope} {s t u : Session σ} {v : Value} {rules : List Rule}
    (h : Passes functions v t rules u) (ht : s.Alike t) (hpure : Rule.ArePure functions s rules) :
    ∀ rule ∈ rules, rule.Accepts functions s v := by
  induction h with
  | nil => exact fun rule h => nomatch h
  | @cons t t' u rule rest hc _ ih =>
    refine List.forall_mem_cons.mpr ⟨fun w hw => ?_, ?_⟩
    · rw [Rule.outcome_check_eq hpure List.mem_cons_self hw ht, hc]
    · refine ih (ht.trans ((Rule.keeps_check functions v rule).alike hc)) ?_
      exact fun validator description h => hpure validator description (List.mem_cons_of_mem rule h)

namespace Criterion

section Errors
variable {functions : Scope} {catalog : Catalog} {language v : Value} {c : Criterion}
  {rules : List Rule} {errors found : Fields} {s t : Session σ}

/-- Errors that were found stay. -/
theorem ne_nil_of_errorsOf (he : errors ≠ [])
    (h : outcome (errorsOf functions catalog language c v errors rules) s = (.ok found, t)) :
    found ≠ [] := by
  induction rules generalizing errors s with
  | nil =>
    cases h
    exact he
  | cons rule rest ih =>
    rw [errorsOf, outcome_bind_eq_ok_iff] at h
    obtain ⟨accepted, u, _, h⟩ := h
    cases accepted with
    | true => exact ih he h
    | false =>
      simp only [Bool.false_eq_true, ↓reduceIte] at h
      rw [outcome_bind_eq_ok_iff] at h
      obtain ⟨message, w, _, h⟩ := h
      exact ih (Fields.put_ne_nil errors _ message) h

theorem passes_of_errorsOf
    (h : outcome (errorsOf functions catalog language c v [] rules) s = (.ok [], t)) :
    Passes functions v s rules t := by
  induction rules generalizing s with
  | nil =>
    cases h
    exact .nil
  | cons rule rest ih =>
    rw [errorsOf, outcome_bind_eq_ok_iff] at h
    obtain ⟨accepted, u, hc, h⟩ := h
    cases accepted with
    | true => exact .cons hc (ih h)
    | false =>
      simp only [Bool.false_eq_true, ↓reduceIte] at h
      rw [outcome_bind_eq_ok_iff] at h
      obtain ⟨message, w, _, h⟩ := h
      exact absurd rfl (ne_nil_of_errorsOf (Fields.put_ne_nil [] _ message) h)

/-- Rules that accept a value add no errors. -/
theorem errorsOf_of_accepts (h : ∀ rule ∈ rules, rule.Accepts functions s v) (ht : s.Alike t) :
    (outcome (errorsOf functions catalog language c v errors rules) t).1 = .ok errors := by
  induction rules generalizing t with
  | nil => rfl
  | cons rule rest ih =>
    obtain ⟨hrule, hrest⟩ := List.forall_mem_cons.mp h
    obtain ⟨u, hc⟩ := exists_outcome_eq (hrule t ht)
    rw [errorsOf, outcome_bind_of_ok hc, if_pos rfl]
    exact ih hrest (ht.trans ((Rule.keeps_check functions v rule).alike hc))

variable {verdict : Verdict}

theorem criterion_of_validate
    (h : outcome (c.validate functions catalog language v) s = (.ok verdict, t)) :
    verdict.criterion = c.id := by
  rw [validate, outcome_bind_eq_ok_iff] at h
  obtain ⟨errors, u, _, h⟩ := h
  cases h
  rfl

/-- A success is a run of checks that all hold. -/
theorem passes_of_validate
    (h : outcome (c.validate functions catalog language v) s = (.ok verdict, t))
    (hs : verdict.success = true) : Passes functions v s c.rules t := by
  rw [validate, outcome_bind_eq_ok_iff] at h
  obtain ⟨errors, u, he, h⟩ := h
  cases h
  obtain rfl : errors = [] := List.isEmpty_iff.mp hs
  exact passes_of_errorsOf he

end Errors

end Criterion
end Vetting
