import Vetting.Proofs.Resolver.Equation
import Vetting.Proofs.Rule.Acceptance

/-!
# What a verdict reports

The rules of a criterion are tried one after the other. The errors of the verdict stand under the names
of the rules that reject the value: in the order in which the names are first rejected, each with the
message of the last rejection under its name. A rule that accepts leaves the errors as they are.
-/

namespace Vetting

variable {σ : Type}

/-! ## Trials -/

/-- A rule with the answer of its check. -/
structure Rule.Trial where
  rule : Rule
  holds : Bool

/-- Checks of rules that return one after the other, from a session to another. -/
inductive Rule.Tried (functions : Scope) (v : Value) : Session σ → List Trial → Session σ → Prop
  | nil {s : Session σ} : Tried functions v s [] s
  | cons {s t u : Session σ} {rule : Rule} {holds : Bool} {rest : List Trial}
      (hc : outcome (rule.check functions v) s = (.ok holds, t)) (hr : Tried functions v t rest u) :
      Tried functions v s (⟨rule, holds⟩ :: rest) u

def Rule.rejecting (trials : List Trial) : List Rule := (trials.filter (!·.holds)).map (·.rule)

namespace Rule

section Trials
variable {functions : Scope} {s t u : Session σ} {v : Value} {trials rest : List Trial} {rule : Rule}

theorem rejecting_cons_false :
    rejecting (⟨rule, false⟩ :: rest) = rule :: rejecting rest := rfl

theorem rejecting_eq_nil_iff : rejecting trials = [] ↔ ∀ x ∈ trials, x.holds = true := by
  simp [rejecting]

/-- The answers of pure rules are those of their checks by themselves. -/
theorem Tried.holds_iff (h : Tried functions v t trials u) (ht : s.Alike t)
    (hpure : ArePure functions s (trials.map (·.rule))) :
    ∀ x ∈ trials, x.holds = true ↔ x.rule.Accepts functions s v := by
  induction h with
  | nil => exact fun x hx => nomatch hx
  | @cons t t' u rule holds rest hc hr ih =>
    intro x hx
    rcases List.mem_cons.mp hx with rfl | hx
    · constructor
      · intro hholds w hw
        rw [outcome_check_eq hpure List.mem_cons_self hw ht, hc]
        exact congrArg _ hholds
      · intro haccepts
        have hchecked := haccepts t ht
        rw [hc] at hchecked
        exact Except.ok.inj hchecked
    · apply ih (ht.trans ((keeps_check functions v rule).alike hc)) _ x hx
      intro validator description hmem
      exact hpure validator description (List.mem_cons_of_mem rule hmem)

end Trials

end Rule

/-! ## Errors -/

namespace Criterion

open Rule

/-- The errors of rules with their messages, as they are set one after the other. -/
def reported (told : List (Rule × Value)) : Fields :=
  Fields.putAll [] (Fields.ofNamed (told.map fun x => (x.1.name, x.2)))

section Errors
variable {functions : Scope} {catalog : Catalog} {language v : Value} {c : Criterion}
  {rules : List Rule} {errors found : Fields} {s t : Session σ} {told : List (Rule × Value)}

/-- A run over the rules sets the message of each rejecting rule, and nothing else. -/
theorem exists_tried_of_errorsOf
    (h : outcome (errorsOf functions catalog language c v errors rules) s = (.ok found, t)) :
    ∃ (trials : List Trial) (told : List (Rule × Value)),
      trials.map (·.rule) = rules ∧ Tried functions v s trials t ∧
      told.map Prod.fst = rejecting trials ∧
      (∀ x ∈ told, c.messageFor catalog language x.1 = .ok x.2) ∧
      found = errors.putAll (Fields.ofNamed (told.map fun x => (x.1.name, x.2))) := by
  induction rules generalizing errors s with
  | nil =>
    cases h
    exact ⟨[], [], rfl, .nil, rfl, List.forall_mem_nil _, rfl⟩
  | cons rule rest ih =>
    rw [errorsOf, outcome_bind_eq_ok_iff] at h
    obtain ⟨holds, u, hc, h⟩ := h
    cases holds with
    | true =>
      obtain ⟨trials, told, rfl, htried, htold, hmessages, hfound⟩ := ih h
      exact ⟨⟨rule, true⟩ :: trials, told, rfl, .cons hc htried, htold, hmessages, hfound⟩
    | false =>
      simp only [Bool.false_eq_true, ↓reduceIte] at h
      rw [outcome_bind_eq_ok_iff] at h
      obtain ⟨message, w, hmessage, h⟩ := h
      obtain ⟨hok, rfl⟩ : c.messageFor catalog language rule = .ok message ∧ u = w := by
        rw [Engine.outcome_ofFault] at hmessage
        cases hm : c.messageFor catalog language rule with
        | error f => simp [hm, Vetting.ofFault] at hmessage
        | ok m => simpa [hm, Vetting.ofFault] using hmessage
      obtain ⟨trials, told, rfl, htried, htold, hmessages, hfound⟩ := ih h
      refine ⟨⟨rule, false⟩ :: trials, (rule, message) :: told, rfl, .cons hc htried, ?_, ?_, hfound⟩
      · rw [List.map_cons, htold, rejecting_cons_false]
      · exact List.forall_mem_cons.mpr ⟨hok, hmessages⟩

theorem reported_eq_nil_iff : reported told = [] ↔ told = [] := by
  constructor
  · intro h
    have hkeys := Fields.keys_putAll_ofNamed (told.map fun x => (x.1.name, x.2))
    rw [← reported, h, List.map_nil, List.nil_eq, List.map_eq_nil_iff] at hkeys
    cases told with
    | nil => rfl
    | cons x rest => simp [List.eraseDups_cons] at hkeys
  · rintro rfl
    rfl

theorem keys_reported (told : List (Rule × Value)) : (reported told).map Prod.fst =
    ((told.map Prod.fst).map Rule.name).eraseDups.map Value.text := by
  rw [reported, Fields.keys_putAll_ofNamed, List.map_map, List.map_map]
  rfl

theorem field?_reported_eq_some_iff {name : Text} {message : Value} :
    (reported told).field? name = some message ↔
      ∃ before rule after, told = before ++ (rule, message) :: after ∧ rule.name = name ∧
        ∀ later ∈ after, later.1.name ≠ name := by
  rw [reported, Fields.field?_putAll_nil_eq_some_iff]
  constructor
  · rintro ⟨_, _, htold, hafter⟩
    obtain ⟨before, rest, rfl, rfl, hrest⟩ := List.map_eq_append_iff.mp htold
    obtain ⟨⟨rule, m⟩, after, rfl, hx, rfl⟩ := List.map_eq_cons_iff.mp hrest
    cases hx
    exact ⟨before, rule, after, rfl, rfl, fun later hl => hafter _ (List.mem_map_of_mem hl)⟩
  · rintro ⟨before, rule, after, rfl, rfl, hafter⟩
    refine ⟨_, after.map fun x => (x.1.name, x.2), by rw [List.map_append, List.map_cons], ?_⟩
    intro later hl
    obtain ⟨x, hx, rfl⟩ := List.mem_map.mp hl
    exact hafter x hx

/-- The message under a name is that of the last rule of the name. -/
theorem message_reported_iff (hmessages : ∀ x ∈ told, c.messageFor catalog language x.1 = .ok x.2)
    {name : Text} {message : Value} :
    (reported told).field? name = some message ↔
      ∃ before rule after, told.map Prod.fst = before ++ rule :: after ∧ rule.name = name ∧
        (∀ later ∈ after, later.name ≠ name) ∧
          c.messageFor catalog language rule = .ok message := by
  rw [field?_reported_eq_some_iff]
  constructor
  · rintro ⟨before, rule, after, rfl, hname, hafter⟩
    refine ⟨before.map Prod.fst, rule, after.map Prod.fst, by simp, hname, ?_, ?_⟩
    · intro later hl
      obtain ⟨x, hx, rfl⟩ := List.mem_map.mp hl
      exact hafter x hx
    · exact hmessages (rule, message) (by simp)
  · rintro ⟨_, _, _, htold, hname, hafter, hmessage⟩
    obtain ⟨before, rest, rfl, rfl, hrest⟩ := List.map_eq_append_iff.mp htold
    obtain ⟨⟨rule, m⟩, after, rfl, rfl, rfl⟩ := List.map_eq_cons_iff.mp hrest
    obtain rfl : m = message :=
      Except.ok.inj ((hmessages (rule, m) (by simp)).symm.trans hmessage)
    exact ⟨before, rule, after, rfl, hname, fun later hl => hafter _ (List.mem_map_of_mem hl)⟩

/-- A verdict is a success, without errors, exactly when every rule accepts the value. Else its errors
are under the names of the rejecting rules, in the order of the first rejections, each with the message
of the last rule of the name that rejects. Where validators are pure, a rule rejects a value if its
check by itself does. -/
theorem verdict_reports_rejecting_rules {verdict : Verdict}
    (h : outcome (c.validate functions catalog language v) s = (.ok verdict, t)) :
    ∃ trials, trials.map (·.rule) = c.rules ∧ Tried functions v s trials t ∧
      (ArePure functions s c.rules →
        ∀ x ∈ trials, x.holds = true ↔ x.rule.Accepts functions s v) ∧
      (verdict.success = true ↔ ∀ x ∈ trials, x.holds = true) ∧
      (verdict.errors = none ↔ verdict.success = true) ∧
      ∀ errors, verdict.errors = some errors →
        errors.map Prod.fst = ((rejecting trials).map Rule.name).eraseDups.map Value.text ∧
        ∀ name message, errors.field? name = some message ↔
          ∃ before rule after, rejecting trials = before ++ rule :: after ∧ rule.name = name ∧
            (∀ later ∈ after, later.name ≠ name) ∧
              c.messageFor catalog language rule = .ok message := by
  rw [validate, outcome_bind_eq_ok_iff] at h
  obtain ⟨found, u, herrors, h⟩ := h
  cases h
  obtain ⟨trials, told, hrules, htried, htold, hmessages, hfound⟩ := exists_tried_of_errorsOf herrors
  change found = reported told at hfound
  have hempty : found.isEmpty = true ↔ ∀ x ∈ trials, x.holds = true := by
    rw [List.isEmpty_iff, hfound, reported_eq_nil_iff, ← rejecting_eq_nil_iff, ← htold,
      List.map_eq_nil_iff]
  refine ⟨trials, hrules, htried, ?_, hempty, ?_, ?_⟩
  · intro hpure
    exact htried.holds_iff (.refl s) (hrules ▸ hpure)
  · by_cases he : found.isEmpty = true <;> simp [he]
  · intro errors he
    dsimp only at he
    split at he
    · cases he
    · cases he
      rw [hfound, keys_reported, htold]
      exact ⟨rfl, fun name message => htold ▸ message_reported_iff hmessages⟩

end Errors

/-! ### Three ranges for one value -/

/-- The first and the last range reject 5, the one between them accepts it. -/
def ranged : Criterion :=
  ⟨.text "n", .null, .null,
    [.between (.integer 0) (.integer 1), .exists, .compared .atMost (.integer 3),
      .between (.integer 2) (.integer 9), .between (.integer 6) (.integer 7)]⟩

/-- What is reported about 5. -/
def rangedErrors : List (Text × Text) :=
  [("between", "Criteria n must be between 6 and 7"),
    ("lte", "Criteria n must be less than or equal to 3")]

def texts? (errors : Fields) : Option (List (Text × Text)) :=
  errors.mapM fun field =>
    match field with
    | (.text name, .text message) => some (name, message)
    | _ => none

theorem keys_of_texts? {errors : Fields} {named : List (Text × Text)} (h : texts? errors = some named) :
    errors.map Prod.fst = (named.map Prod.fst).map Value.text := by
  induction errors generalizing named with
  | nil =>
    cases h
    rfl
  | cons field rest ih =>
    rw [texts?, List.mapM_cons] at h
    obtain ⟨first, hfirst, h⟩ := Option.bind_eq_some_iff.mp h
    obtain ⟨others, hothers, h⟩ := Option.bind_eq_some_iff.mp h
    cases h
    rw [List.map_cons, List.map_cons, List.map_cons, ih hothers]
    split at hfirst
    · cases hfirst
      rfl
    · cases hfirst

theorem exists_errors_of_texts? {o : Except Failure Verdict × Session σ} {named : List (Text × Text)}
    (h : (o.1.toOption.bind (·.errors)).bind texts? = some named) :
    ∃ verdict t errors, o = (.ok verdict, t) ∧ verdict.errors = some errors ∧
      texts? errors = some named := by
  obtain ⟨errors, h, htexts⟩ := Option.bind_eq_some_iff.mp h
  obtain ⟨verdict, h, herrors⟩ := Option.bind_eq_some_iff.mp h
  obtain ⟨e | v, t⟩ := o
  · cases h
  · cases h
    exact ⟨verdict, t, errors, rfl, herrors, htexts⟩

/-- The range that accepts 5 does not show, and the message is that of the last one. -/
theorem ranges_report_last_rejection :
    ∃ verdict t errors trials,
      outcome (ranged.validate [] .bundled (.text "en") (.integer 5)) Resolver.freshSession =
          (.ok verdict, t) ∧
        verdict.success = false ∧ verdict.errors = some errors ∧ texts? errors = some rangedErrors ∧
        trials.map (·.rule) = ranged.rules ∧
        Tried [] (.integer 5) Resolver.freshSession trials t ∧
        ((rejecting trials).map Rule.name).eraseDups = rangedErrors.map Prod.fst := by
  have hshown : ((outcome (ranged.validate [] .bundled (.text "en") (.integer 5))
      Resolver.freshSession).1.toOption.bind (·.errors)).bind texts? = some rangedErrors := by
    decide +kernel
  obtain ⟨verdict, t, errors, h, herrors, htexts⟩ := exists_errors_of_texts? hshown
  obtain ⟨trials, hrules, htried, -, -, hnone, hsome⟩ := verdict_reports_rejecting_rules h
  refine ⟨verdict, t, errors, trials, h, ?_, herrors, htexts, hrules, htried, ?_⟩
  · rw [← Bool.not_eq_true, ← hnone, herrors]
    exact fun h => nomatch h
  · have hkeys := (hsome errors herrors).1.symm.trans (keys_of_texts? htexts)
    exact (List.map_inj_right fun _ _ he => Value.text.inj he).mp hkeys

end Criterion
end Vetting
