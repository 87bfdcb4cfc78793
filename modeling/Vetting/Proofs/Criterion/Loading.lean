import Vetting.Criterion.Loading
import Vetting.Proofs.Outcome

/-!
# The functions that a document is loaded with

The expressions of a document are loaded with functions, which their validators keep. Loading does nothing
else with these functions: a document that is loaded with other ones gives the same criteria, with the
other functions in their validators.
-/

namespace Vetting

variable {σ : Type}

/-! ## Other functions -/

/-- The validator with other functions in the place of those that it was loaded with. -/
def Validator.owning (functions : Scope) : Validator → Validator
  | .expression source tree (some _) => .expression source tree (some functions)
  | validator => validator

def Rule.owning (functions : Scope) : Rule → Rule
  | custom validator description => custom (validator.owning functions) description
  | rule => rule

def Criterion.owning (functions : Scope) (c : Criterion) : Criterion :=
  { c with rules := c.rules.map (Rule.owning functions) }

namespace Rule.Reading

variable {functions : Scope}

theorem one_owning {α : Type} (field : Field α) (extra : List RuleProblem) {make : α → Rule}
    (h : ∀ a, (make a).owning functions = make a) :
    one field extra make = (one field extra make).map (Rule.owning functions) := by
  unfold one
  split
  · exact (congrArg Except.ok (h _)).symm
  · rfl

theorem two_owning {α β : Type} (first : Field α) (second : Field β) (extra : List RuleProblem)
    {make : α → β → Rule} (h : ∀ a b, (make a b).owning functions = make a b) :
    two first second extra make = (two first second extra make).map (Rule.owning functions) := by
  unfold two
  split
  · exact (congrArg Except.ok (h _ _)).symm
  · rfl

/-- A validator that a rule is not given is a function, which has no functions to keep. -/
theorem required_validator_owning (functions : Scope) (fields : Fields) :
    required validator fields "validator" =
      (required validator fields "validator").map (Validator.owning functions) := by
  unfold required
  split
  · unfold validator
    split <;> rfl
  · rfl

theorem custom_owning (functions : Scope) (first : Field Validator) (second : Field Text)
    (extra : List RuleProblem) :
    two (first.map (Validator.owning functions)) second extra .custom =
      (two first second extra .custom).map (Rule.owning functions) := by
  cases first <;> cases second <;> cases extra <;> rfl

/-- A custom rule keeps the functions of the validator that it is given, and looks at nothing of it. -/
theorem ofKind_owning (functions : Scope) (kind : Text) (fields : Fields) (given : Option Validator) :
    ofKind kind fields (given.map (Validator.owning functions)) =
      (ofKind kind fields given).map (Rule.owning functions) := by
  unfold ofKind
  simp only [apply_ite (Except.map (Rule.owning functions))]
  -- the kinds in the order in which they are tried, the custom one last
  iterate 3 refine ite_congr rfl (fun _ => one_owning _ _ fun _ => rfl) fun _ => ?_
  refine ite_congr rfl (fun _ => two_owning _ _ _ fun _ _ => rfl) fun _ => ?_
  iterate 9 refine ite_congr rfl (fun _ => one_owning _ _ fun _ => rfl) fun _ => ?_
  refine ite_congr rfl (fun _ => ?_) fun _ => rfl
  rw [← custom_owning]
  cases given with
  | some v => rfl
  | none => rw [← required_validator_owning]; rfl

theorem ofFields_owning (functions : Scope) (fields : Fields) (given : Option Validator) :
    Rule.ofFields fields (given.map (Validator.owning functions)) =
      (Rule.ofFields fields given).map (Rule.owning functions) := by
  have hreading : ofFields fields (given.map (Validator.owning functions)) =
      (ofFields fields given).map (Rule.owning functions) := by
    unfold ofFields
    split
    · rfl
    · exact ofKind_owning ..
    · rfl
  rw [Rule.ofFields, Rule.ofFields, hreading]
  cases ofFields fields given <;> rfl

end Rule.Reading

/-! ## Loading -/

namespace Criterion.Loading

def RuleData.owning (functions : Scope) : RuleData → RuleData
  | custom fields validator => custom fields (validator.owning functions)
  | plain v => plain v

theorem rule_owning (functions : Scope) (data : RuleData) :
    (data.owning functions).rule = data.rule.map (Rule.owning functions) := by
  cases data with
  | custom fields validator => exact Rule.Reading.ofFields_owning functions fields (some validator)
  | plain v =>
    cases v with
    | object fields => exact Rule.Reading.ofFields_owning functions fields none
    | _ => rfl

theorem rules_owning (functions : Scope) (data : List RuleData) :
    rules (data.map (RuleData.owning functions)) =
      (rules data).map (List.map (Rule.owning functions)) := by
  induction data with
  | nil => rfl
  | cons first rest ih =>
    rw [List.map_cons, rules, rules, rule_owning, ih]
    cases first.rule with
    | error e => rfl
    | ok rule => cases rules rest <;> rfl

section Owning
variable (functions functions' : Scope)

theorem ruleData_owning (id : Text) (data : Value) : (ruleData functions id data : Engine σ RuleData) =
    RuleData.owning functions <$> ruleData functions' id data := by
  unfold ruleData
  split
  · rw [map_pure]
    rfl
  · rw [map_bind]
    simp only [map_pure]
    rfl

theorem rulesData_owning (id : Text) (data : List Value) :
    (rulesData functions id data : Engine σ (List RuleData)) =
      List.map (RuleData.owning functions) <$> rulesData functions' id data := by
  induction data with
  | nil => rfl
  | cons first rest ih =>
    rw [rulesData, rulesData, ruleData_owning functions functions', ih]
    simp only [map_bind, bind_map_left, map_pure, List.map_cons]

theorem criterion_owning (index : Nat) (data : Value) :
    (criterion functions index data : Engine σ Criterion) =
      Criterion.owning functions <$> criterion functions' index data := by
  cases data with
  | object fields =>
    have hrules (data : List RuleData) :
        (Engine.ofResult (rules (data.map (RuleData.owning functions))) : Engine σ (List Rule)) =
          List.map (Rule.owning functions) <$> Engine.ofResult (rules data) := by
      rw [rules_owning]
      cases rules data <;> rfl
    simp only [criterion, rulesData_owning functions functions', map_bind, bind_map_left, hrules,
      map_pure, Criterion.owning]
  | _ => rfl

theorem criteriaFrom_owning (index : Nat) (data : List Value) :
    (criteriaFrom functions index data : Engine σ (List Criterion)) =
      List.map (Criterion.owning functions) <$> criteriaFrom functions' index data := by
  induction data generalizing index with
  | nil => rfl
  | cons first rest ih =>
    rw [criteriaFrom, criteriaFrom, criterion_owning functions functions', ih]
    simp only [map_bind, bind_map_left, map_pure, List.map_cons]

end Owning

end Criterion.Loading

/-- The list of criteria that a document is or holds. -/
def Criterion.listed : Value → Value
  | .object fields => (Fields.field? fields "criteria").getD .null
  | v => v

theorem Criterion.ofDocument_eq (document : Value) (functions : List (Text × Value)) :
    (ofDocument document functions : Engine σ (List Criterion)) =
      match listed document with
      | .array items => do
        let registry ← Engine.ofResult ((Registry.builtins loadingRegistry).addAll functions)
        Loading.criteriaFrom registry.functions 0 items
      | _ => throw (.configuration "'criteria' must be a list of criterion definitions" []) := by
  cases document <;> rfl

/-- A document that was loaded with functions is loaded without, and gives the same criteria but for the
functions. -/
theorem Criterion.exists_ofDocument_nil {document : Value} {functions : List (Text × Value)}
    {configs : List Criterion} {s t : Session σ}
    (h : outcome (ofDocument document functions) s = (.ok configs, t)) :
    ∃ plain scope, outcome (ofDocument document []) s = (.ok plain, t) ∧
      configs = plain.map (Criterion.owning scope) := by
  rw [ofDocument_eq] at h ⊢
  cases hlist : listed document with
  | array items =>
    rw [hlist] at h
    dsimp only at h ⊢
    rw [outcome_bind_eq_ok_iff] at h
    obtain ⟨registry, t', hregistry, h⟩ := h
    obtain rfl : s = t' := congrArg Prod.snd hregistry
    rw [Loading.criteriaFrom_owning registry.functions (Registry.builtins loadingRegistry).functions,
      map_eq_pure_bind, outcome_bind_eq_ok_iff] at h
    obtain ⟨plain, _, hplain, h⟩ := h
    cases h
    exact ⟨plain, registry.functions, hplain, rfl⟩
  | _ =>
    rw [hlist] at h
    cases h

end Vetting
