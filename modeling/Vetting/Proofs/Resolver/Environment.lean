import Vetting.Proofs.Purity
import Vetting.Proofs.Resolver.Equation
import Vetting.Proofs.Value.Fields

/-!
# What an equation sees

The environment of an equation holds under each name what the last source with that name gives, or
else the derived value. Its expression is evaluated over an empty record, so the only names that the
sources can decide are those of the placeholders. With pure derivations and functions, sources that agree on
these give the same expression, result and error.
-/

namespace Vetting

open Engine

variable {σ : Type}

theorem Session.Later.ready {s t : Session σ} (h : s.Later t) (hs : s.Ready) : t.Ready where
  limits := by
    rw [h.settings]
    exact hs.limits
  cache := h.cache
  log := by
    obtain ⟨lines, hlines⟩ := h.log
    rw [hlines]
    exact fun instant event he => hs.log instant event he

namespace Resolver

/-! ## Environments -/

def mappings : Value → List Fields
  | .object fields => [fields]
  | .array items | .tuple items => items.filterMap fun item =>
    match item with
    | .object fields => some fields
    | _ => none
  | _ => []

/-- The value that the last of several mappings with a name gives it. -/
def lastGiven (name : Text) : List Fields → Option Value
  | [] => none
  | fields :: rest => (lastGiven name rest).or (Fields.field? fields.reverse name)

theorem overlay_map_object (environment : Fields) (list : List Fields) :
    overlay environment (list.map .object) = .ok (list.foldl Fields.putAll environment) := by
  induction list generalizing environment with
  | nil => rfl
  | cons fields rest ih => exact ih (environment.putAll fields)

theorem field?_foldl_putAll (environment : Fields) (list : List Fields) (name : Text) :
    (list.foldl Fields.putAll environment).field? name =
      (lastGiven name list).or (environment.field? name) := by
  induction list generalizing environment with
  | nil => rfl
  | cons fields rest ih => rw [List.foldl_cons, ih, Fields.field?_putAll, lastGiven, Option.or_assoc]

theorem filterMap_mappings {items : List Value} (h : ∀ v ∈ items, ∃ fields, v = .object fields) :
    (mappings (.array items)).map Value.object = items := by
  induction items with
  | nil => rfl
  | cons item rest ih =>
    obtain ⟨⟨fields, rfl⟩, hrest⟩ := List.forall_mem_cons.mp h
    exact congrArg (Value.object fields :: ·) (ih hrest)

theorem IsSources.sourceList_eq {sources : Value} (h : IsSources sources) :
    sourceList sources = .ok ((mappings sources).map .object) := by
  cases h with
  | none => rfl
  | one fields => rfl
  | array h => exact congrArg Except.ok (filterMap_mappings h).symm
  | tuple h => exact congrArg Except.ok (filterMap_mappings h).symm

section Environment
variable {r : Resolver} {s t t' u : Session σ} {sources : Value} {criteria : List Criterion}

theorem steady_deriveAll
    (h : ∀ c ∈ criteria, c.isDerived = true → Steady s (r.derived c (.object []) : Engine σ Value))
    (environment : Fields) : Steady s (r.deriveAll environment criteria : Engine σ Fields) := by
  induction criteria generalizing environment with
  | nil => exact steady_pure environment
  | cons c rest ih =>
    obtain ⟨hc, hrest⟩ := List.forall_mem_cons.mp h
    rw [deriveAll]
    split
    · rename_i hd
      refine steady_bind (steady_attempt (steady_derive (hc hd))) fun result => ?_
      split
      · exact ih hrest _
      · exact steady_bind (steady_log _) fun _ => ih hrest environment
      · exact steady_throw _
    · exact ih hrest environment

theorem outcome_environmentOf (h : IsSources sources) (t : Session σ) :
    outcome (r.environmentOf sources) t =
      ((outcome (r.deriveAll [] r.criteria) t).1.map ((mappings sources).foldl Fields.putAll),
        (outcome (r.deriveAll [] r.criteria) t).2) := by
  rw [environmentOf, outcome_bind, h.sourceList_eq]
  rcases outcome (r.deriveAll [] r.criteria) t with ⟨e | derived, t'⟩
  · rfl
  · rw [proceed_ok, outcome_ofFault]
    show (Vetting.ofFault (overlay derived ((mappings sources).map .object)), t') = _
    rw [overlay_map_object]
    rfl

end Environment

end Resolver

/-! ## Evaluation -/

def ProcessedEquation.over (processed : ProcessedEquation) (environment : Fields) : ProcessedEquation :=
  { processed with environment }

def ProcessedEquation.answer (processed : ProcessedEquation) : Text × Bool × Option Text :=
  (processed.expression, processed.result, processed.error)

namespace Resolver

def evaluateLogged (r : Resolver) (template : Text) (environment : Fields) :
    Engine σ ProcessedEquation := do
  let processed ← r.evaluateClosed template environment
  let settings ← Engine.settings
  if Settings.logsEquations settings then
    Engine.log (.happened "equation_evaluated" [("template", .text template),
      ("expression", .text processed.expression), ("result", .boolean processed.result)])
  return processed

section Evaluation
variable {r : Resolver} {s : Session σ} {template : Text} {environment environment' : Fields}

theorem outcome_processEquation (sources : Value) (t : Session σ) :
    outcome (r.processEquation (.text template) sources) t =
      proceed (r.evaluateLogged template) (outcome (r.environmentOf sources) t) := by
  have hd : outcome (Engine.ofFault (Value.text template).display : Engine σ Text) t =
      (.ok template, t) := rfl
  rw [processEquation, outcome_bind_of_ok hd, outcome_bind]
  rfl

theorem steady_run (h : r.HasPureFunctions s) (template : Text) (environment : Fields) :
    Steady s (r.run template environment : Engine σ (Text × Bool)) :=
  steady_bind (steady_ofResult _) fun _ => steady_bind (steady_parse _) fun tree =>
    steady_bind (h tree _ _) fun _ => steady_bind (steady_ofFault _) fun _ => steady_pure _

theorem steady_evaluateClosed (h : r.HasPureFunctions s) (template : Text) (environment : Fields) :
    Steady s (r.evaluateClosed template environment : Engine σ ProcessedEquation) := by
  refine steady_bind (steady_attempt (steady_run h template environment)) fun result => ?_
  split
  · exact steady_pure _
  · exact steady_bind (steady_log _) fun _ => steady_pure _
  · exact steady_throw _

theorem steady_evaluateLogged (h : r.HasPureFunctions s) (template : Text) (environment : Fields) :
    Steady s (r.evaluateLogged template environment : Engine σ ProcessedEquation) := by
  refine steady_bind (steady_evaluateClosed h template environment) fun processed => ?_
  refine steady_bind steady_settings fun fields => ?_
  split
  · exact steady_bind (steady_log _) fun _ => steady_pure processed
  · exact steady_pure processed

theorem run_congr (h : Template.equation template environment = Template.equation template environment') :
    (r.run template environment : Engine σ (Text × Bool)) = r.run template environment' := by
  rw [run, run, h]

theorem outcome_evaluateClosed_congr
    (h : Template.equation template environment = Template.equation template environment')
    (t : Session σ) : outcome (r.evaluateClosed template environment) t =
      ((outcome (r.evaluateClosed template environment') t).1.map (·.over environment),
        (outcome (r.evaluateClosed template environment') t).2) := by
  rw [evaluateClosed, evaluateClosed, outcome_bind_of_ok (outcome_attempt ..),
    outcome_bind_of_ok (outcome_attempt ..), run_congr h]
  rcases outcome (r.run template environment') t with ⟨e | ⟨expression, result⟩, t'⟩
  · dsimp only
    split
    · rfl
    · rw [outcome_bind, outcome_bind]
      rcases outcome (log _) t' with ⟨e | ⟨⟩, t''⟩ <;> rfl
    · rfl
  · rfl

theorem outcome_evaluateLogged_congr
    (h : Template.equation template environment = Template.equation template environment')
    (t : Session σ) : outcome (r.evaluateLogged template environment) t =
      ((outcome (r.evaluateLogged template environment') t).1.map (·.over environment),
        (outcome (r.evaluateLogged template environment') t).2) := by
  rw [evaluateLogged, evaluateLogged, outcome_bind, outcome_bind, outcome_evaluateClosed_congr h]
  rcases outcome (r.evaluateClosed template environment') t with ⟨e | processed, t'⟩
  · rfl
  · show outcome (do
        let settings ← Engine.settings
        if Settings.logsEquations settings then Engine.log _
        return processed.over environment) t' = _
    rw [proceed_ok, outcome_bind_of_ok (outcome_settings t'),
      outcome_bind_of_ok (outcome_settings t')]
    split
    · rw [outcome_bind, outcome_bind]
      show proceed _ (outcome (log (.happened "equation_evaluated" [("template", .text template),
        ("expression", .text processed.expression), ("result", .boolean processed.result)])) t') = _
      rcases outcome (log _) t' with ⟨e | ⟨⟩, t''⟩ <;> rfl
    · rfl

end Evaluation

/-- With pure derivations and functions, an equation depends on the sources only by what the last
source with the name of a placeholder gives it: its expression, result and error are the same, or it
raises the same failure. -/
theorem processEquation_sees_placeholders_only {r : Resolver} {s t u : Session σ} (ht : s.Later t)
    (hu : s.Later u)
    (hderivations : ∀ c ∈ r.criteria, c.isDerived = true →
      Steady s (r.derived c (.object []) : Engine σ Value))
    (hfunctions : r.HasPureFunctions s) {template : Text} {sources sources' : Value}
    (hsources : IsSources sources) (hsources' : IsSources sources')
    (hagree : ∀ name ∈ Template.names (Template.ofText template),
      lastGiven name (mappings sources) = lastGiven name (mappings sources')) :
    (outcome (r.processEquation (.text template) sources) t).1.map (·.answer) =
      (outcome (r.processEquation (.text template) sources') u).1.map (·.answer) := by
  rw [outcome_processEquation, outcome_processEquation, outcome_environmentOf hsources,
    outcome_environmentOf hsources']
  have hderive := steady_deriveAll hderivations []
  rcases hd : outcome (r.deriveAll [] r.criteria) t with ⟨e | derived, t'⟩
  · obtain ⟨_, _, hd'⟩ := hderive.outcome_eq ht hu (congrArg Prod.fst hd)
    rw [hd']
    rfl
  -- both derive the same values, so the environments differ by the sources only
  obtain ⟨u', hu', hd'⟩ := hderive.outcome_eq ht hu (congrArg Prod.fst hd)
  have ht' := hderive.later_of ht hd
  have hequation : Template.equation template ((mappings sources).foldl Fields.putAll derived) =
      Template.equation template ((mappings sources').foldl Fields.putAll derived) :=
    Template.equation_congr fun name hname => by
      rw [field?_foldl_putAll, field?_foldl_putAll, hagree name hname]
  rw [hd']
  show (outcome (r.evaluateLogged template _) t').1.map _ =
    (outcome (r.evaluateLogged template _) u').1.map _
  rw [outcome_evaluateLogged_congr hequation,
    (steady_evaluateLogged hfunctions template _).result ht' hu']
  cases (outcome (r.evaluateLogged template _) u').1 <;> rfl

/-! ## A source that says more -/

/-- A resolver with a derived criterion. -/
def deriving42 : Resolver := { bare with criteria := [⟨.text "d", .null, .text "40 + 2", []⟩] }

def greaterTemplate : Text := "max(\x7b\x7bx\x7d\x7d, \x7b\x7bd\x7d\x7d) > 2"

def plainSource : Value := .object [(.text "x", .integer 2)]

/-- Sources the last of which gives `x`; they have other fields, one of them named like a function. -/
def crowdedSources : Value :=
  .array [.object [(.text "x", .integer 0), (.text "max", .text "none")],
    .object [(.text "y", .integer 9), (.text "x", .integer 2)]]

theorem isSources_crowded : IsSources crowdedSources := by
  refine .array ?_
  simp

theorem crowded_sources_agree : ∀ name ∈ Template.names (Template.ofText greaterTemplate),
    lastGiven name (mappings plainSource) = lastGiven name (mappings crowdedSources) := by
  have hnames : Template.names (Template.ofText greaterTemplate) = [("x" : Text), "d"] := by
    decide +kernel
  rw [hnames]
  exact List.forall_mem_cons.mpr ⟨rfl, List.forall_mem_singleton.mpr rfl⟩

/-- The other fields do not influence the equation. -/
theorem crowded_sources_give_same_equation :
    (outcome (deriving42.processEquation (.text greaterTemplate) plainSource) freshSession).1.map
        (·.answer) =
      (outcome (deriving42.processEquation (.text greaterTemplate) crowdedSources) freshSession).1.map
        (·.answer) :=
  have hfresh : freshSession.Later freshSession := .refl ready_freshSession.cache
  processEquation_sees_placeholders_only hfresh hfresh
    (fun c hc hd => (isPure_of_subsingleton deriving42 freshSession).derivations c hc hd _)
    (hasPureFunctions_of_subsingleton deriving42 freshSession) (.one _) isSources_crowded
    crowded_sources_agree

end Resolver
end Vetting
