import Vetting.Proofs.Evaluation.FreeNames
import Vetting.Proofs.Expression.Position
import Vetting.Proofs.Function.Passing
import Vetting.Proofs.Resolver.Equation

/-!
# Where errors point

An error of an evaluation arises at a node, and so at a token of the text that was parsed. It may pass
through functions of the host on its way, and it may come from the body of a closure that a function
has called: closures stem from lambdas of the same text, as long as functions bring none of their own.
When the error leaves the evaluation it learns the text.
-/

namespace Vetting

/-! ## Errors of operators -/

namespace Operation

theorem exists_problem_of_unary {position : Nat} {operator : Text} {v : Value} {x : ExpressionError}
    (h : unary position operator v = .error (.engine (.expression x))) :
    ∃ problem, x = .ofEvaluation problem (some position) := by
  unfold unary at h
  split at h
  · cases ht : v.truthy <;> simp [ht, ofFault, bind, Except.bind, pure, Except.pure] at h
  · split at h
    · cases h
    · cases h
      exact ⟨_, rfl⟩

theorem exists_problem_of_binary {position : Nat} {operator : Text} {a b : Value} {x : ExpressionError}
    (h : binary position operator a b = .error (.engine (.expression x))) :
    ∃ problem, x = .ofEvaluation problem (some position) := by
  simp only [binary, comparison, concatenation, arithmetic, failAt, Failure.evaluation] at h
  repeat' split at h
  all_goals first | cases h; exact ⟨_, rfl⟩ | cases h

end Operation

namespace Evaluation

variable {σ α β : Type} {starts : Nat → Prop} {kept : σ → Prop} {good : α → Prop} {also : β → Prop}

/-- Errors of evaluations that do not know their text yet, at a position where this holds or at none. -/
structure Unsettled (starts : Nat → Prop) (x : ExpressionError) : Prop where
  stage : x.stage = .evaluation
  source : x.source = none
  position : ∀ p, x.position = some p → ∃ n : Nat, p = n ∧ starts n

theorem unsettled_ofEvaluation (problem : EvaluationProblem) {position : Nat} (h : starts position) :
    Unsettled starts (.ofEvaluation problem (some position)) := by
  refine ⟨rfl, rfl, ?_⟩
  rintro _ ⟨⟩
  exact ⟨position, rfl, h⟩

theorem delivers_evaluation (problem : EvaluationProblem) {position : Nat} (h : starts position) :
    Delivers (Unsettled starts) good (.error (.evaluation problem (some position))) := by
  refine delivers_error ?_
  rintro _ ⟨⟩
  exact unsettled_ofEvaluation problem h

/-- Closures of lambdas that stand where this holds, and so do the closures that they have captured. -/
inductive Stems (starts : Nat → Prop) : Value → Prop
  | closure {serial position : Nat} {parameter : Text} {body : Node} {scope : Scope}
      (hp : starts position) (hbody : body.Placed) (hn : body.StandsIn starts)
      (hs : ∀ binding ∈ scope, ∀ c ∈ binding.2.closures, Stems starts c) :
      Stems starts (.closure serial position parameter body scope)

theorem closedUnderCapture_stems : ClosedUnderCapture (Stems starts) := by
  rintro _ _ _ _ _ ⟨_, _, _, hs⟩
  exact hs

/-- Values whose closures stem from such lambdas. -/
abbrev Stemming (starts : Nat → Prop) (v : Value) : Prop := v.Holds (Stems starts)

def StemmingScope (starts : Nat → Prop) (scope : Scope) : Prop :=
  ∀ binding ∈ scope, Stemming starts binding.2

/-! ## Located computations -/

/-- Computations that end with a good result or an error that is located, and leave the state of the
host as it is kept. -/
def Located (starts : Nat → Prop) (kept : σ → Prop) (good : α → Prop) (c : Evaluation σ α) : Prop :=
  ∀ m, kept m.state →
    Delivers (Unsettled starts) good (outcome c m).1 ∧ kept (outcome c m).2.state

theorem located_ofResult {r : Except Failure α} (h : Delivers (Unsettled starts) good r) :
    Located starts kept good (ofResult r) := fun _ hm => ⟨h, hm⟩

theorem located_pure {a : α} (h : good a) : Located starts kept good (pure a) :=
  located_ofResult (delivers_ok h)

theorem located_fail (problem : EvaluationProblem) {position : Nat} (h : starts position) :
    Located starts kept good (fail problem position) :=
  located_ofResult (delivers_evaluation problem h)

theorem located_exhausted : Located starts kept good (throw .exhausted) :=
  located_ofResult delivers_exhausted

theorem Located.bind {c : Evaluation σ α} {next : α → Evaluation σ β} (h : Located starts kept good c)
    (hn : ∀ a, good a → Located starts kept also (next a)) : Located starts kept also (c >>= next) := by
  intro m hm
  obtain ⟨hr, hs⟩ := h m hm
  rcases ho : outcome c m with ⟨e | a, u⟩ <;> rw [ho] at hr hs
  · rw [outcome_bind_of_error ho]
    exact ⟨delivers_error fun x hx => hr.raised x (congrArg Except.error hx), hs⟩
  · rw [outcome_bind_of_ok ho]
    exact hn a (hr.good a rfl) u hs

theorem Located.attempt_bind {c : Evaluation σ α} {next : Except Failure α → Evaluation σ β}
    (h : Located starts kept good c)
    (hn : ∀ r, Delivers (Unsettled starts) good r → Located starts kept also (next r)) :
    Located starts kept also (c.attempt >>= next) := by
  intro m hm
  obtain ⟨hr, hs⟩ := h m hm
  rw [outcome_bind_of_ok (outcome_attempt ..)]
  exact hn _ hr _ hs

/-- The run of a script that passes on what it is given, where what it calls is located. -/
theorem located_run {call : Value → List Value → Evaluation σ Value}
    (hcall : ∀ callee arguments, Stemming starts callee → (∀ v ∈ arguments, Stemming starts v) →
      Located starts kept (Stemming starts) (call callee arguments))
    {script : Script σ α} (h : script.PassesOn (Stems starts) (Unsettled starts) kept good) :
    Located starts kept good (script.run call) := by
  induction h with
  | finish h => exact located_ofResult h
  | @call callee arguments resume hc ha _ ih =>
    rw [Script.run]
    refine (hcall callee arguments hc ha).attempt_bind fun r hr => ?_
    cases r with
    | ok v => exact ih _ hr
    | error e =>
      cases e with
      | exhausted => exact located_exhausted
      | fault f => exact ih _ hr
      | engine e => exact ih _ hr
  | read _ ih => exact fun m hm => ih m.state hm m hm
  | @write s _ hs _ ih => exact fun m _ => ih ⟨s, m.closures⟩ hs

theorem located_gather {f : Node → Evaluation σ (List Value)} {nodes : List Node}
    (h : ∀ node ∈ nodes, Located starts kept (fun values => ∀ v ∈ values, Stemming starts v) (f node)) :
    Located starts kept (fun values => ∀ v ∈ values, Stemming starts v) (gather f nodes) := by
  induction nodes with
  | nil => exact located_pure (List.forall_mem_nil _)
  | cons node rest ih =>
    obtain ⟨hn, hr⟩ := List.forall_mem_cons.mp h
    exact hn.bind fun first hf => (ih hr).bind fun others ho =>
      located_pure (List.forall_mem_append.mpr ⟨hf, ho⟩)

/-! ## Nodes -/

section Step
variable {context : Context σ} {scope : Scope}

section Names
variable (hs : StemmingScope starts scope) (hf : StemmingScope starts context.functions)
  {position : Nat} (hp : starts position)
include hs hf hp

theorem located_lookup (name : Text) :
    Located starts kept (Stemming starts) (lookup context scope name position) := by
  unfold lookup
  cases h : lookup? context scope name with
  | none => exact located_fail _ hp
  | some v => exact located_pure (lookup?_of_forall (Stemming starts) hs hf h)

theorem located_spread (name : Text) :
    Located starts kept (fun values => ∀ v ∈ values, Stemming starts v)
      (spread context scope name position) := by
  refine (located_lookup hs hf hp name).bind fun v hv => ?_
  cases hi : v.items? with
  | none => exact located_fail _ hp
  | some items => exact located_pure (hv.items hi)

end Names

theorem located_newClosure {position : Nat} {parameter : Text} {body : Node} (hp : starts position)
    (hbody : body.Placed) (hn : body.StandsIn starts) (hs : StemmingScope starts scope) :
    Located starts kept (Stemming starts)
      (newClosure position parameter body scope : Evaluation σ Value) :=
  fun _ hm => ⟨delivers_ok (Value.holds_closure_iff.mpr (.closure hp hbody hn hs)), hm⟩

theorem stemming_untuple {v : Value} (h : Stemming starts v) : Stemming starts (untuple v) := by
  cases v <;> exact h

/-- What a call makes of an error of a called function is located: an error of an expression stays
where it arose, every other one is at the call. -/
theorem delivers_callResult {name : Text} {position : Nat} (hp : starts position)
    {r : Except Failure Value} (h : Delivers (Unsettled starts) (Stemming starts) r) :
    Delivers (Unsettled starts) (Stemming starts) (callResult name position r) := by
  unfold callResult
  split
  · rename_i e
    unfold callFailure
    split
    · exact delivers_exhausted
    · exact delivers_error fun x hx => h.raised x (congrArg Except.error hx)
    · exact delivers_evaluation _ hp
  · rename_i v
    dsimp only
    split
    · exact delivers_ok (stemming_untuple (h.good v rfl))
    · exact delivers_evaluation _ hp

theorem delivers_ofFault {r : Except Fault α} (h : ∀ a, good a) :
    Delivers (Unsettled starts) good (ofFault r) := by
  cases r with
  | ok a => exact delivers_ok (h a)
  | error f => exact delivers_fault f

variable {below : Node → Scope → Evaluation σ Value} {call : Value → List Value → Evaluation σ Value}
  (hf : StemmingScope starts context.functions)
  (hbelow : ∀ node scope, node.PlacedArgument → node.StandsIn starts → StemmingScope starts scope →
    Located starts kept (Stemming starts) (below node scope))
include hbelow

theorem located_single {node : Node} (h : node.PlacedArgument) (hn : node.StandsIn starts)
    (hs : StemmingScope starts scope) :
    Located starts kept (fun values => ∀ v ∈ values, Stemming starts v) (single below scope node) :=
  (hbelow node scope h hn hs).bind fun _ hv => located_pure (List.forall_mem_singleton.mpr hv)

theorem located_items {nodes : List Node} (h : ∀ node ∈ nodes, node.Placed)
    (hn : ∀ node ∈ nodes, node.StandsIn starts) (hs : StemmingScope starts scope) :
    Located starts kept (fun values => ∀ v ∈ values, Stemming starts v) (items below scope nodes) := by
  rw [items_eq_gather]
  exact located_gather fun node hmem =>
    located_single hbelow (.ofPlaced (h node hmem)) (hn node hmem) hs

include hf

theorem located_arguments {nodes : List Node} (h : ∀ node ∈ nodes, node.PlacedArgument)
    (hn : ∀ node ∈ nodes, node.StandsIn starts) (hs : StemmingScope starts scope) :
    Located starts kept (fun values => ∀ v ∈ values, Stemming starts v)
      (arguments context below scope nodes) := by
  rw [arguments_eq_gather]
  refine located_gather fun node hmem => ?_
  have hsingle := located_single hbelow (h node hmem) (hn node hmem) hs
  have hp := (hn node hmem).position
  cases node with
  | spread position name => exact located_spread hs hf hp name
  | _ => exact hsingle

variable (hcall : ∀ callee arguments, Stemming starts callee → (∀ v ∈ arguments, Stemming starts v) →
  Located starts kept (Stemming starts) (call callee arguments))
include hcall

/-- A node is located if the nodes inside it are and calls are. -/
theorem located_step {node : Node} (h : node.PlacedArgument) (hn : node.StandsIn starts)
    (hs : StemmingScope starts scope) :
    Located starts kept (Stemming starts) (step context below call node scope) := by
  have hp : starts node.position := hn.position
  cases h with
  | spread =>
    exact (located_spread hs hf hp _).bind fun _ hv => located_pure (Value.holds_array_iff.mpr hv)
  | lambda hbody => exact located_newClosure hp hbody (Node.standsIn_lambda_iff.mp hn).2 hs
  | ofPlaced h =>
    cases h with
    | literal hv => exact located_pure (Value.holds_of_isGround hv)
    | identifier => exact located_lookup hs hf hp _
    | array h =>
      have hnodes := (Node.standsIn_array_iff.mp hn).2
      exact (located_items hbelow h hnodes hs).bind fun _ hv =>
        located_pure (Value.holds_array_iff.mpr hv)
    | @call position name nodes h =>
      have hnodes := (Node.standsIn_call_iff.mp hn).2
      refine (located_lookup hs hf hp name).bind fun callee hcallee => ?_
      have happlied : Located starts kept (Stemming starts)
          (do
            let values ← arguments context below scope nodes
            let outcome ← (call callee values).attempt
            ofResult (callResult name position outcome)) := by
        refine (located_arguments hf hbelow h hnodes hs).bind fun values hv => ?_
        refine (hcall callee values hcallee hv).attempt_bind fun r hr => ?_
        exact located_ofResult (delivers_callResult hp hr)
      have hfail : Located starts kept (fun _ : PUnit => True) (fail (.notAFunction name) position) :=
        located_fail _ hp
      dsimp only
      split
      · exact hfail.bind fun _ _ => happlied
      · exact happlied
    | unary h =>
      refine (hbelow _ scope (.ofPlaced h) (Node.standsIn_unary_iff.mp hn).2 hs).bind fun v _ => ?_
      refine located_ofResult ⟨fun w hw => Value.holds_of_isGround (Operation.isGround_unary hw), ?_⟩
      intro x hx
      obtain ⟨problem, rfl⟩ := Operation.exists_problem_of_unary hx
      exact unsettled_ofEvaluation problem hp
    | binary hl hr =>
      obtain ⟨_, hnl, hnr⟩ := Node.standsIn_binary_iff.mp hn
      refine (hbelow _ scope (.ofPlaced hl) hnl hs).bind fun a _ => ?_
      refine (hbelow _ scope (.ofPlaced hr) hnr hs).bind fun b _ => ?_
      refine located_ofResult ⟨fun w hw => Value.holds_of_isGround (Operation.isGround_binary hw), ?_⟩
      intro x hx
      obtain ⟨problem, rfl⟩ := Operation.exists_problem_of_binary hx
      exact unsettled_ofEvaluation problem hp
    | logical hl hr =>
      obtain ⟨_, hnl, hnr⟩ := Node.standsIn_logical_iff.mp hn
      refine (hbelow _ scope (.ofPlaced hl) hnl hs).bind fun v hv => ?_
      have htruth : Located starts kept (fun _ : Bool => True) (ofResult (ofFault v.truthy)) :=
        located_ofResult (delivers_ofFault fun _ => trivial)
      refine htruth.bind fun truth _ => ?_
      split
      · exact hbelow _ scope (.ofPlaced hr) hnr hs
      · exact located_pure hv

end Step

/-- With functions that pass on what they are given, nodes and calls are located. -/
theorem located_evaluate_and_call {context : Context σ}
    (hhost : ∀ f arguments, (∀ v ∈ arguments, Stemming starts v) →
      (context.host.behaviour f arguments).PassesOn (Stems starts) (Unsettled starts) kept
        (Stemming starts))
    (hf : StemmingScope starts context.functions) (budget : Nat) :
    (∀ node scope, node.PlacedArgument → node.StandsIn starts → StemmingScope starts scope →
        Located starts kept (Stemming starts) (evaluate context budget node scope)) ∧
      ∀ callee arguments, Stemming starts callee → (∀ v ∈ arguments, Stemming starts v) →
        Located starts kept (Stemming starts) (call context budget callee arguments) := by
  induction budget with
  | zero => exact ⟨fun _ _ _ _ _ => located_exhausted, fun _ _ _ _ => located_exhausted⟩
  | succ budget ih =>
    obtain ⟨hbelow, hcall⟩ := ih
    refine ⟨fun node scope h hn hs => located_step hf hbelow hcall h hn hs, ?_⟩
    intro callee arguments hcallee harguments
    cases callee with
    | host f => exact located_run hcall (hhost f arguments harguments)
    | builtin b => exact located_run hcall (b.passesOn_script harguments _)
    | closure serial position parameter body scope =>
      cases Value.holds_closure_iff.mp hcallee with
      | closure hp hbody hn hs =>
        -- the body is evaluated where the closure was built, with one more name
        rcases arguments with _ | ⟨v, _ | ⟨w, rest⟩⟩
        · exact located_fail _ hp
        · have hv := harguments v List.mem_cons_self
          exact hbelow body _ (.ofPlaced hbody) hn (List.forall_mem_cons.mpr ⟨hv, hs⟩)
        · exact located_fail _ hp
    | _ => exact located_ofResult (delivers_fault _)

theorem stemmingScope_scopeOf {fields : Fields} (h : ∀ field ∈ fields, field.2.isModel = true) :
    StemmingScope starts (scopeOf fields) := by
  intro binding hb
  obtain ⟨field, hmem, heq⟩ := exists_field_of_mem_scopeOf hb
  exact heq ▸ Value.holds_of_isGround (Value.isGround_of_isModel (h field hmem))

end Evaluation

/-! ## Whole expressions -/

/-- Whether an error carries a text, and points into it: an error of parsing to a place in the text or
to its end, an error of an evaluation to the start of a token. -/
structure ExpressionError.PointsInto (text : Text) (x : ExpressionError) : Prop where
  source : x.source = some text
  stage : x.stage = .parsing ∨ x.stage = .evaluation
  parsing : x.stage = .parsing → ∀ p, x.position = some p → 0 ≤ p ∧ p ≤ text.length
  evaluation : x.stage = .evaluation → ∀ p, x.position = some p →
    ∃ n : Nat, p = n ∧ n < text.length ∧ text.HasTokenAt n

namespace Expression

open Evaluation

variable {σ : Type} {text : Text} {x : ExpressionError}

theorem pointsInto_ofParse {failure : ParseFailure}
    (h : ∀ p, failure.position = some p → p ≤ text.length) :
    (ExpressionError.ofParse failure (some text)).PointsInto text := by
  refine ⟨rfl, .inl rfl, fun _ p hp => ?_, nofun⟩
  obtain ⟨n, hn, rfl⟩ := Option.map_eq_some_iff.mp hp
  exact ⟨Int.natCast_nonneg n, Int.ofNat_le.mpr (h n hn)⟩

/-- An error that is located points into the text when it has learned it. -/
theorem pointsInto_within (h : Unsettled text.HasTokenAt x) : (x.within (some text)).PointsInto text := by
  refine ⟨?_, .inr h.stage, fun hs => ?_, fun _ p hp => ?_⟩
  · rw [ExpressionError.within, h.source]
    rfl
  · have hstage : x.stage = .parsing := hs
    rw [h.stage] at hstage
    cases hstage
  · obtain ⟨n, rfl, hn⟩ := h.position p hp
    exact ⟨n, rfl, hn.lt, hn⟩

theorem unsettled_of_position_eq_none {starts : Nat → Prop} (problem : EvaluationProblem) :
    Unsettled starts (.ofEvaluation problem none) := ⟨rfl, rfl, nofun⟩

theorem pointsInto_of_leaving {r : Except Failure Value}
    (hr : Delivers (Unsettled text.HasTokenAt) (Stemming text.HasTokenAt) r)
    (h : leaving (some text) r = .error (.engine (.expression x))) : x.PointsInto text := by
  cases r with
  | error e =>
    cases e with
    | exhausted =>
      cases h
      exact pointsInto_within (unsettled_of_position_eq_none .exhausted)
    | fault f => cases h
    | engine e =>
      cases e with
      | expression y =>
        cases h
        exact pointsInto_within (hr.raised y rfl)
      | _ => cases h
  | ok v =>
    rw [leaving, conclude] at h
    split at h
    · cases hn : v.normalize with
      | error f =>
        rw [hn] at h
        cases h
      | ok w =>
        rw [hn] at h
        cases h
    · cases h
      exact pointsInto_within (unsettled_of_position_eq_none (.unsupportedValue v.describe))

theorem passesOn_applying : applying.PassesOn () := by
  intro given raised _
  refine ⟨fun _ => True, trivial, fun f arguments h => ?_⟩
  have hreturned : (pure (.array arguments) : Script Unit Value).PassesOn given raised (fun _ => True)
      (Value.Holds given) := .finish (delivers_ok (Value.holds_array_iff.mpr h))
  rcases arguments with _ | ⟨callee, _ | ⟨v, _ | ⟨_, _⟩⟩⟩
  · exact hreturned
  · exact hreturned
  · obtain ⟨hcallee, hv⟩ := List.forall_mem_cons.mp h
    exact .call hcallee hv fun r hr => .finish hr
  · exact hreturned

def reported? {α : Type} : Except Failure α → Option ExpressionError
  | .error (.engine (.expression x)) => some x
  | _ => none

theorem exists_of_reported? {α : Type} {r : Except Failure α} {p : Option Int}
    (h : (reported? r).map ExpressionError.position = some p) :
    ∃ x, r = .error (.engine (.expression x)) ∧ x.position = p := by
  obtain ⟨x, hx, rfl⟩ := Option.map_eq_some_iff.mp h
  unfold reported? at hx
  split at hx
  · cases hx
    exact ⟨_, rfl, rfl⟩
  · cases hx

def applyingSession : Session Unit := { Resolver.freshSession with host := applying }

def applyingFunctions : Scope := [("apply", .host ⟨"apply", 0, none⟩)]

/-- A lambda that divides by zero, and a function of the host that calls it. -/
def appliedQuotient : Text := "apply(x => x / 0, 1)"

end Expression
end Vetting
