import Vetting.Function.Registry
import Vetting.Proofs.Evaluation.Machine
import Vetting.Proofs.Function.Quantifier

/-!
# Calls with predicates

A predicate over the built-in functions has one verdict for each element, since the machine that its
body is evaluated on does not matter. So `filter`, `any` and `all` of an array and a lambda follow these
verdicts, and `all` is the negation of `any` of the negated body.
-/

namespace Vetting

theorem Value.isModelList_iff {vs : List Value} : isModelList vs = true ↔ ∀ v ∈ vs, v.isModel = true := by
  induction vs with
  | nil => simp [isModelList]
  | cons v vs ih => simp [isModelList, ih]

namespace Evaluation

variable {σ : Type}

def resultOf (context : Context σ) (m : Machine σ) (scope : Scope) (budget : Nat) (node : Node) :
    Except Failure Value :=
  (outcome (evaluate context budget node scope) m).1

/-- The truth of the body of a lambda for an element. -/
def verdict (context : Context σ) (m : Machine σ) (scope : Scope) (budget : Nat) (parameter : Text)
    (body : Node) (x : Value) : Except Failure Bool :=
  resultOf context m ((parameter, x) :: scope) budget body >>= fun v => ofFault v.truthy

/-! ## What calls tell of the verdicts -/

/-- Whether the results of `filter` and of `any` are what the verdicts on the elements say. -/
structure FollowsVerdicts (verdict : Value → Except Failure Bool) (xs : List Value)
    (kept found : Except Failure Value) : Prop where
  kept_fails_iff : (∃ e, kept = .error e) ↔ ∃ x ∈ xs, ∃ e, verdict x = .error e
  kept_eq : ∀ truth : Value → Bool, (∀ x ∈ xs, verdict x = .ok (truth x)) →
    kept = .ok (.array (xs.filter truth))
  found_true_iff : found = .ok (.boolean true) ↔ ∃ before x after, xs = before ++ x :: after ∧
    verdict x = .ok true ∧ ∀ y ∈ before, ∃ b, verdict y = .ok b
  found_false_iff : found = .ok (.boolean false) ↔ ∀ x ∈ xs, verdict x = .ok false
  found_boolean : ∀ v, found = .ok v → ∃ b, v = .boolean b

/-- The same boolean, or two failures. -/
def SameTruth (r r' : Except Failure Value) : Prop :=
  (∃ b, r = .ok (.boolean b) ∧ r' = .ok (.boolean b)) ∨ ∃ e e', r = .error e ∧ r' = .error e'

section Results
variable {verdict : Value → Except Failure Bool} {xs : List Value} {name : Text} {p : Nat} {v : Value}

theorem callResult_boolean (b : Bool) : callResult name p (.ok (.boolean b)) = .ok (.boolean b) := rfl

theorem callResult_array (h : ∀ x ∈ xs, x.isModel = true) :
    callResult name p (.ok (.array xs)) = .ok (.array xs) := by
  have hm : (untuple (.array xs)).isModel = true := Value.isModelList_iff.mpr h
  rw [callResult, hm]
  rfl

theorem callResult_retain (hxs : ∀ x ∈ xs, x.isModel = true) {truth : Value → Bool}
    (h : ∀ x ∈ xs, verdict x = .ok (truth x)) :
    callResult name p ((retain verdict xs).map .array) = .ok (.array (xs.filter truth)) := by
  rw [retain_eq_filter h]
  exact callResult_array fun x hx => hxs x (List.mem_of_mem_filter hx)

theorem callResult_retain_eq_error_iff (hxs : ∀ x ∈ xs, x.isModel = true) :
    (∃ e, callResult name p ((retain verdict xs).map .array) = .error e) ↔
      ∃ x ∈ xs, ∃ e, verdict x = .error e := by
  constructor
  · rintro ⟨e, he⟩
    by_contra hnone
    have htruth : ∀ x ∈ xs, verdict x = .ok ((verdict x).toOption.getD false) := fun x hx => by
      cases hv : verdict x with
      | error e => exact absurd ⟨x, hx, e, hv⟩ hnone
      | ok b => rfl
    rw [callResult_retain hxs htruth] at he
    cases he
  · intro h
    obtain ⟨e, he⟩ := exists_retain_eq_error h
    rw [he]
    exact ⟨_, rfl⟩

theorem callResult_map_boolean_eq_ok_iff {r : Except Failure Bool} :
    callResult name p (r.map .boolean) = .ok v ↔ ∃ b, r = .ok b ∧ v = .boolean b := by
  cases r with
  | error e =>
    constructor
    · nofun
    · rintro ⟨_, h, _⟩
      cases h
  | ok b =>
    rw [Except.map, callResult_boolean]
    simp [eq_comm]

theorem followsVerdicts_callResult (hxs : ∀ x ∈ xs, x.isModel = true) {name' : Text} {p' : Nat} :
    FollowsVerdicts verdict xs (callResult name p ((retain verdict xs).map .array))
      (callResult name' p' ((xs.anyM verdict).map .boolean)) := by
  have hfound (b : Bool) :
      callResult name' p' ((xs.anyM verdict).map .boolean) = .ok (.boolean b) ↔ xs.anyM verdict = .ok b := by
    simp [callResult_map_boolean_eq_ok_iff]
  refine ⟨callResult_retain_eq_error_iff hxs, fun _ => callResult_retain hxs,
    (hfound true).trans anyM_eq_true_iff, (hfound false).trans anyM_eq_false_iff, fun v hv => ?_⟩
  obtain ⟨b, _, hb⟩ := callResult_map_boolean_eq_ok_iff.mp hv
  exact ⟨b, hb⟩

end Results

/-! ## Negation -/

section Negation
variable {context : Context σ} {m : Machine σ} {scope : Scope} {budget p : Nat}

theorem resultOf_unary (operator : Text) (operand : Node) :
    resultOf context m scope (budget + 1) (.unary p operator operand) =
      resultOf context m scope budget operand >>= Operation.unary p operator := by
  rw [resultOf, evaluate, step, outcome_bind]
  refine result_proceed ?_ _
  exact fun _ _ => rfl

theorem truthy_unary (p : Nat) (v : Value) :
    (Operation.unary p "!" v >>= fun w => ofFault w.truthy) = (ofFault v.truthy).map not := by
  unfold Operation.unary
  rw [if_pos rfl]
  cases v.truthy <;> rfl

/-- The verdicts of the negated body are the opposite ones. -/
theorem verdict_unary {parameter : Text} {body : Node} :
    verdict context m scope (budget + 1) parameter (.unary p "!" body) =
      fun x => (verdict context m scope budget parameter body x).map not := by
  funext x
  rw [verdict, verdict, resultOf_unary]
  cases resultOf context m ((parameter, x) :: scope) budget body with
  | error e => rfl
  | ok v => exact truthy_unary p v

theorem sameTruth_unary {verdict : Value → Except Failure Bool} {xs : List Value} {name name' : Text}
    {p' q : Nat} :
    SameTruth (callResult name p ((xs.allM verdict).map .boolean))
      (callResult name' p' ((xs.anyM fun x => (verdict x).map not).map .boolean) >>=
        Operation.unary q "!") := by
  rw [anyM_not]
  cases xs.allM verdict with
  | error e => exact .inr ⟨_, _, rfl, rfl⟩
  | ok b => exact .inl ⟨b, rfl, by cases b <;> rfl⟩

end Negation

/-! ## Calls of built-ins with a lambda -/

section Calls
variable {context : Context σ} {scope : Scope} {budget p q r : Nat} {array parameter : Text} {body : Node}
  {v : Value} {xs : List Value}

def testing (p q r : Nat) (function array parameter : Text) (body : Node) : Node :=
  .call p function [.identifier q array, .lambda r parameter body]

theorem placed_testing (function : Text) (hp : body.Placed) :
    (testing p q r function array parameter body).Placed :=
  .call (List.forall_mem_cons.mpr ⟨.ofPlaced .identifier, List.forall_mem_singleton.mpr (.lambda hp)⟩)

theorem evaluationDepth_testing (function : Text) :
    (testing p q r function array parameter body).evaluationDepth = body.evaluationDepth + 3 := by
  have hpos := body.evaluationDepth_pos
  simp only [testing, Node.evaluationDepth, Node.evaluationDepthList]
  omega

theorem outcome_arguments_testing (hv : lookup? context scope array = some v) (m : Machine σ) :
    outcome (arguments context (evaluate context (budget + 1)) scope
        [.identifier q array, .lambda r parameter body]) m =
      (.ok [v, .closure m.closures r parameter body scope], { m with closures := m.closures + 1 }) := by
  have harray : outcome (evaluate context (budget + 1) (.identifier q array) scope) m = (.ok v, m) :=
    outcome_lookup hv
  rw [arguments, outcome_bind_of_ok harray]
  · rfl
  · simp

/-- A built-in is called with the array and the closure of the lambda. -/
theorem resultOf_testing {b : Builtin} {made : Except Failure Value}
    (hb : lookup? context scope b.name = some (.builtin b)) (hv : lookup? context scope array = some v)
    (hmade : ∀ serial m, (outcome ((b.script context.host.instant
      [v, .closure serial r parameter body scope]).run (call context (budget + 1))) m).1 = made)
    (m : Machine σ) :
    resultOf context m scope (budget + 3) (testing p q r b.name array parameter body) =
      callResult b.name p made := by
  rw [resultOf, testing, outcome_evaluate_call hb rfl, applied,
    outcome_bind_of_ok (outcome_arguments_testing hv m), outcome_bind, outcome_attempt, proceed_ok,
    outcome_ofResult]
  exact congrArg (callResult b.name p) (hmade _ _)

variable (hf : ∀ binding ∈ context.functions, ∃ b, binding.2 = .builtin b) (hs : GroundScope scope)
include hf hs

/-- The test of an element by a closure is the verdict on it, on any machine. -/
theorem result_run_holds_closure (hp : body.Placed) (hxs : ∀ x ∈ xs, x.isModel = true) (serial : Nat)
    (m : Machine σ) : ∀ x ∈ xs, ∀ m',
    (outcome ((Collection.holds (.closure serial r parameter body scope) x).run
        (call context (budget + 1))) m').1 = verdict context m scope budget parameter body x := by
  intro x hx m'
  have hscope : GroundScope ((parameter, x) :: scope) :=
    List.forall_mem_cons.mpr ⟨Value.isGround_of_isModel (hxs x hx), hs⟩
  rw [Collection.result_run_holds, call,
    result_eq_of_placed (groundScope_of_builtins hf) hp hscope budget m' m]
  rfl

/-- From a measure of the tree on, the budget does not matter. -/
theorem resultOf_eq_of_le {node : Node} (hp : node.Placed) (hbudget : node.evaluationDepth ≤ budget)
    (m : Machine σ) :
    resultOf context m scope budget node = resultOf context m scope node.evaluationDepth node := by
  have hsound : Sound node.lambdaDepth (·.isGround = true)
      (traceEvaluate context [] node.evaluationDepth node scope) :=
    sound_evaluate hf [] node scope hp hs (Nat.le_refl _) (Nat.le_of_eq (Nat.zero_add _))
  have hfollows (larger : Nat) (h : node.evaluationDepth ≤ larger) :=
    (follows_trace context larger h).1 [] node scope ⟨⟨m.state, []⟩, m.closures⟩ (hsound _).1
  exact congrArg Prod.fst ((hfollows budget hbudget).trans (hfollows _ (Nat.le_refl _)).symm)

section Verdicts
variable (hp : body.Placed) (hv : lookup? context scope array = some v) (hi : v.items? = some xs)
  (hxs : ∀ x ∈ xs, x.isModel = true) (m : Machine σ)
include hp hv hi hxs

theorem resultOf_filter (hb : lookup? context scope "filter" = some (.builtin .filter)) :
    resultOf context m scope (budget + 3) (testing p q r "filter" array parameter body) =
      callResult "filter" p ((retain (verdict context m scope budget parameter body) xs).map .array) :=
  resultOf_testing (b := .filter) hb hv (fun serial =>
    Collection.result_run_filter hi rfl (result_run_holds_closure hf hs hp hxs serial m)) m

theorem resultOf_any (hb : lookup? context scope "any" = some (.builtin .any)) :
    resultOf context m scope (budget + 3) (testing p q r "any" array parameter body) =
      callResult "any" p ((xs.anyM (verdict context m scope budget parameter body)).map .boolean) :=
  resultOf_testing (b := .any) hb hv (fun serial =>
    Collection.result_run_any hi rfl (result_run_holds_closure hf hs hp hxs serial m)) m

theorem resultOf_all (hb : lookup? context scope "all" = some (.builtin .all)) :
    resultOf context m scope (budget + 3) (testing p q r "all" array parameter body) =
      callResult "all" p ((xs.allM (verdict context m scope budget parameter body)).map .boolean) :=
  resultOf_testing (b := .all) hb hv (fun serial =>
    Collection.result_run_all hi rfl (result_run_holds_closure hf hs hp hxs serial m)) m

theorem sameTruth_testing (hany : lookup? context scope "any" = some (.builtin .any))
    (hall : lookup? context scope "all" = some (.builtin .all)) (p' r' : Nat) :
    SameTruth (resultOf context m scope (budget + 3) (testing p q r "all" array parameter body))
      (resultOf context m scope (budget + 5)
        (.unary p' "!" (testing p q r "any" array parameter (.unary r' "!" body)))) := by
  rw [resultOf_unary, resultOf_all hf hs hp hv hi hxs m hall,
    resultOf_any hf hs (.unary hp) hv hi hxs m hany, verdict_unary]
  exact sameTruth_unary

end Verdicts

end Calls

/-- With the built-in functions alone, `filter` of an array of model values and a lambda fails exactly if
the verdict on some element does, and else returns the elements with a positive verdict in order; `any`
is true exactly if there is a positive verdict with no failure before it, false exactly if all verdicts
are negative, and fails otherwise. `all` and the negation of `any` of the negated body are the same
boolean or both fail, at budgets that leave the same to the body, and at any that is enough for both. The
body is evaluated three levels below a call, and each negation takes another level. A text with a blank
in the place of each `!` has a tree with the same positions. -/
theorem calls_follow_verdicts {context : Context σ} {scope : Scope} {array : Text} {v : Value}
    {xs : List Value} {body : Node}
    (hf : ∀ binding ∈ context.functions, ∃ b, binding.2 = .builtin b) (hs : GroundScope scope)
    (hfilter : lookup? context scope "filter" = some (.builtin .filter))
    (hany : lookup? context scope "any" = some (.builtin .any))
    (hall : lookup? context scope "all" = some (.builtin .all))
    (hv : lookup? context scope array = some v) (hi : v.items? = some xs)
    (hxs : ∀ x ∈ xs, x.isModel = true) (hp : body.Placed) (m : Machine σ) (parameter : Text)
    (budget p q r p' r' : Nat) :
    let value (budget : Nat) (node : Node) := resultOf context m scope budget node
    let call (function : Text) (body : Node) := testing p q r function array parameter body
    let negated := Node.unary p' "!" (call "any" (.unary r' "!" body))
    FollowsVerdicts (verdict context m scope budget parameter body) xs
        (value (budget + 3) (call "filter" body)) (value (budget + 3) (call "any" body)) ∧
      SameTruth (value (budget + 3) (call "all" body)) (value (budget + 5) negated) ∧
      ∀ capacity, negated.evaluationDepth ≤ capacity →
        SameTruth (value capacity (call "all" body)) (value capacity negated) := by
  intro value call negated
  have hsame (budget : Nat) :
      SameTruth (value (budget + 3) (call "all" body)) (value (budget + 5) negated) :=
    sameTruth_testing hf hs hp hv hi hxs m hany hall p' r'
  refine ⟨?_, hsame budget, fun capacity hcapacity => ?_⟩
  · have hkept : value (budget + 3) (call "filter" body) = _ := resultOf_filter hf hs hp hv hi hxs m hfilter
    have hfound : value (budget + 3) (call "any" body) = _ := resultOf_any hf hs hp hv hi hxs m hany
    rw [hkept, hfound]
    exact followsVerdicts_callResult hxs
  · have hdepth : (call "all" body).evaluationDepth = body.evaluationDepth + 3 := evaluationDepth_testing "all"
    have hdepth' : negated.evaluationDepth = body.evaluationDepth + 5 := by
      simp only [negated, Node.evaluationDepth, call, evaluationDepth_testing]
    have hevery : value capacity (call "all" body) = value (body.evaluationDepth + 3) (call "all" body) :=
      hdepth ▸ resultOf_eq_of_le hf hs (placed_testing "all" hp) (hdepth.trans_le (by omega)) m
    have hnegated : value capacity negated = value (body.evaluationDepth + 5) negated :=
      hdepth' ▸ resultOf_eq_of_le hf hs (.unary (placed_testing "any" (.unary hp))) hcapacity m
    rw [hevery, hnegated]
    exact hsame body.evaluationDepth

/-- Null cannot be trimmed, but it comes after the element that decides. -/
theorem calls_follow_verdicts_up_to_null :
    let context : Context Unit :=
      ⟨⟨fun _ _ => .finish (.ok .null), 0⟩, (Registry.builtins "functions").functions⟩
    let scope : Scope := [("xs", .array [.text "", .text "a", .null])]
    let body : Node := .call 2 "trim" [.identifier 7 "x"]
    let call (function : Text) (body : Node) := testing 0 4 8 function "xs" "x" body
    let value (budget : Nat) (node : Node) := resultOf context ⟨(), 0⟩ scope budget node
    (∃ e, value 450 (call "filter" body) = .error e) ∧
      value 450 (call "any" body) = .ok (.boolean true) ∧
      SameTruth (value 450 (call "all" body)) (value 450 (.unary 0 "!" (call "any" (.unary 0 "!" body)))) := by
  intro context scope body call value
  have hs : GroundScope scope := by
    rintro binding h
    cases List.mem_singleton.mp h
    rfl
  have harray : lookup? context scope "xs" = some (.array [.text "", .text "a", .null]) := rfl
  have hbody : body.Placed := .call (List.forall_mem_singleton.mpr (.ofPlaced .identifier))
  obtain ⟨hfollows, -, hsame⟩ := calls_follow_verdicts (exists_builtin_of_mem_functions "functions") hs rfl rfl
    rfl harray rfl (by decide) hbody ⟨(), 0⟩ "x" 447 0 4 8 0 0
  refine ⟨hfollows.kept_fails_iff.mpr ⟨.null, by simp, _, rfl⟩, hfollows.found_true_iff.mpr ?_,
    hsame 450 (by decide)⟩
  exact ⟨[.text ""], .text "a", [.null], rfl, rfl, List.forall_mem_singleton.mpr ⟨false, rfl⟩⟩

end Evaluation

end Vetting
