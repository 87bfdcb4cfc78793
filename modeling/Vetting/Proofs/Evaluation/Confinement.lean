import Vetting.Function.Registry
import Vetting.Proofs.Evaluation.Trace
import Vetting.Proofs.Expression.Placed
import Vetting.Proofs.Function.Conduct

/-!
# Where closures go

With the built-in functions alone, a closure is given to the function of the call that it is an
argument of, is called by that function, and goes nowhere else. So the calls of closures nest no
deeper than the lambdas of the tree, and the tree tells a budget that is enough for its evaluation.
-/

namespace Vetting

namespace Evaluation

/-! ## Confined events -/

def GroundScope (scope : Scope) : Prop := ∀ binding ∈ scope, binding.2.isGround = true

def nesting : List Frame → Nat
  | [] => 0
  | .applying .. :: outer => nesting outer
  | .inside _ :: outer => nesting outer + 1

/-- Whether a closure is called as it should be: with one ground value, by the function of the
innermost call that is being evaluated, where the lambda of the closure is among the arguments and
the closure is among their values, and within fewer bodies of closures than the limit. -/
structure CalledInPlace (limit : Nat) (closure : Value) (arguments : List Value)
    (active : List Frame) (position : Nat) (parameter : Text) (body : Node) : Prop where
  argument : ∃ v, arguments = [v] ∧ v.isGround = true
  applied : ∃ place name nodes values outer,
    active = .applying (.call place name nodes) values :: outer ∧
      .lambda position parameter body ∈ nodes ∧ closure ∈ values
  nested : nesting active < limit

/-- Whether no closure is bound to a name, put in an array or returned by a call, and closures are
called where they should be. -/
def Event.Confined (limit : Nat) : Event → Prop
  | .entered _ scope => GroundScope scope
  | .evaluated node v =>
    v.isGround = true ∨ ∃ serial position parameter body scope,
      node = .lambda position parameter body ∧ v = .closure serial position parameter body scope
  | .called callee arguments active =>
    (∀ v ∈ arguments, v.isPassable = true) ∧
      ∀ serial position parameter body scope,
        callee = .closure serial position parameter body scope →
          CalledInPlace limit callee arguments active position parameter body
  | .returned _ v => v.isGround = true

/-! ## Sound computations -/

variable {σ α β : Type} {limit : Nat} {good : α → Prop} {also : β → Prop}

/-- Whether a traced computation ends within its budget, with a good result if it succeeds, and adds
nothing but confined events to the trace. -/
def Sound (limit : Nat) (good : α → Prop) (c : Evaluation (Traced σ) α) : Prop :=
  ∀ m, (outcome c m).1 ≠ .error .exhausted ∧ (∀ a, (outcome c m).1 = .ok a → good a) ∧
    ∀ event ∈ (outcome c m).2.state.events, event ∈ m.state.events ∨ event.Confined limit

theorem sound_ofResult {r : Except Failure α} (hr : r ≠ .error .exhausted)
    (h : ∀ a, r = .ok a → good a) : Sound limit good (ofResult r : Evaluation (Traced σ) α) :=
  fun _ => ⟨hr, h, fun _ he => .inl he⟩

theorem sound_pure {a : α} (h : good a) : Sound limit good (pure a : Evaluation (Traced σ) α) :=
  sound_ofResult (by simp) fun _ ha => Except.ok.inj ha ▸ h

theorem sound_throw {e : Failure} (h : e ≠ .exhausted) :
    Sound limit good (throw e : Evaluation (Traced σ) α) :=
  sound_ofResult (fun he => h (Except.error.inj he)) (by simp)

theorem sound_fail (problem : EvaluationProblem) (position : Nat) :
    Sound limit good (fail problem position : Evaluation (Traced σ) α) :=
  sound_throw (by simp [Failure.evaluation])

theorem Sound.mono {good' : α → Prop} {c : Evaluation (Traced σ) α} (h : Sound limit good c)
    (hg : ∀ a, good a → good' a) : Sound limit good' c := fun m =>
  ⟨(h m).1, fun a ha => hg a ((h m).2.1 a ha), (h m).2.2⟩

theorem Sound.bind {c : Evaluation (Traced σ) α} {next : α → Evaluation (Traced σ) β}
    (h : Sound limit good c) (hn : ∀ a, good a → Sound limit also (next a)) :
    Sound limit also (c >>= next) := by
  intro m
  obtain ⟨hx, hg, he⟩ := h m
  rcases ho : outcome c m with ⟨e | a, u⟩
  · rw [outcome_bind_of_error ho]
    rw [ho] at hx he
    exact ⟨fun h => hx (Except.error.inj h ▸ rfl), by simp, he⟩
  · rw [outcome_bind_of_ok ho]
    rw [ho] at hg he
    obtain ⟨hx', hg', he'⟩ := hn a (hg a rfl) u
    exact ⟨hx', hg', fun event hevent => (he' event hevent).elim (he event) .inr⟩

theorem Sound.attempt_bind {c : Evaluation (Traced σ) α}
    {next : Except Failure α → Evaluation (Traced σ) β} (h : Sound limit good c)
    (hn : ∀ r, r ≠ .error .exhausted → (∀ a, r = .ok a → good a) → Sound limit also (next r)) :
    Sound limit also (c.attempt >>= next) := by
  intro m
  obtain ⟨hx, hg, he⟩ := h m
  rw [outcome_bind_of_ok (outcome_attempt ..)]
  obtain ⟨hx', hg', he'⟩ := hn _ hx hg (outcome c m).2
  exact ⟨hx', hg', fun event hevent => (he' event hevent).elim (he event) .inr⟩

theorem sound_emit {event : Event} (h : event.Confined limit) :
    Sound limit (fun _ => True) (emit event : Evaluation (Traced σ) PUnit) := by
  intro m
  refine ⟨by simp [emit], fun _ _ => trivial, fun other hother => ?_⟩
  rcases List.mem_cons.mp hother with rfl | hold
  · exact .inr h
  · exact .inl hold

theorem Sound.noting {before : Event} {after : Value → Event} {ground : Value → Prop}
    {c : Evaluation (Traced σ) Value} (h : Sound limit ground c) (hb : before.Confined limit)
    (ha : ∀ v, ground v → (after v).Confined limit) : Sound limit ground (noting before after c) := by
  refine (sound_emit hb).bind fun _ _ => ?_
  refine h.bind fun v hv => ?_
  exact (sound_emit (ha v hv)).bind fun _ _ => sound_pure hv

/-- The run of a confined script, where what it calls is sound for ground values. -/
theorem sound_run {callees : List Value} {call : Value → List Value → Evaluation (Traced σ) Value}
    (hc : ∀ callee ∈ callees, ∀ x, x.isGround = true →
      Sound limit (·.isGround = true) (call callee [x]))
    {script : Script σ α} (h : script.Confined callees good) :
    Sound limit good (script.traced.run call) := by
  induction h with
  | done h => exact sound_pure h
  | failed h => exact sound_throw h
  | @call callee x resume hmem hx _ ih =>
    rw [Script.traced, Script.run]
    refine (hc callee hmem x hx).attempt_bind fun r hr hg => ?_
    cases r with
    | ok v => exact ih _ hr hg
    | error e =>
      cases e with
      | exhausted => exact absurd rfl hr
      | fault f => exact ih _ hr hg
      | engine e => exact ih _ hr hg

theorem sound_gather {f : Node → Evaluation (Traced σ) (List Value)} {ground : Value → Prop}
    {nodes : List Node}
    (h : ∀ node ∈ nodes, Sound limit (fun values => ∀ v ∈ values, ground v) (f node)) :
    Sound limit (fun values => ∀ v ∈ values, ground v) (gather f nodes) := by
  induction nodes with
  | nil => exact sound_pure (List.forall_mem_nil _)
  | cons node rest ih =>
    obtain ⟨hn, hr⟩ := List.forall_mem_cons.mp h
    exact hn.bind fun first hf => (ih hr).bind fun others ho =>
      sound_pure (List.forall_mem_append.mpr ⟨hf, ho⟩)

/-! ## Names -/

theorem groundScope_of_builtins {scope : Scope}
    (h : ∀ binding ∈ scope, ∃ b, binding.2 = .builtin b) : GroundScope scope := by
  intro binding hmem
  obtain ⟨b, hb⟩ := h binding hmem
  rw [hb]
  rfl

section Names
variable {context : Context σ} {scope : Scope} (hs : GroundScope scope)
  (hf : GroundScope context.functions)
include hs hf

theorem sound_lookup (name : Text) (position : Nat) :
    Sound limit (·.isGround = true) (lookup context.traced scope name position) := by
  have htraced : lookup? context.traced scope name = lookup? context scope name := rfl
  rw [lookup, htraced]
  cases h : lookup? context scope name with
  | none => exact sound_fail _ _
  | some v => exact sound_pure (lookup?_of_forall (·.isGround = true) hs hf h)

theorem sound_spread (name : Text) (position : Nat) :
    Sound limit (fun values => ∀ v ∈ values, v.isGround = true)
      (spread context.traced scope name position) := by
  refine (sound_lookup hs hf name position).bind fun v hv => ?_
  cases hi : v.items? with
  | none => exact sound_fail _ _
  | some items => exact sound_pure (Value.isGround_of_mem_items (Value.isPassable_of_isGround hv) hi)

end Names

/-! ## Results of nodes and calls -/

theorem isGround_untuple {v : Value} (h : v.isGround = true) : (untuple v).isGround = true := by
  unfold untuple
  split
  · exact h
  · exact h

theorem callFailure_ne_exhausted {name : Text} {position : Nat} {e : Failure} (h : e ≠ .exhausted) :
    callFailure name position e ≠ .exhausted := by
  unfold callFailure
  split
  · exact absurd rfl h
  · simp
  · simp [Failure.evaluation]

theorem sound_callResult {name : Text} {position : Nat} {r : Except Failure Value}
    (hr : r ≠ .error .exhausted) (hg : ∀ v, r = .ok v → v.isGround = true) :
    Sound limit (·.isGround = true)
      (ofResult (callResult name position r) : Evaluation (Traced σ) Value) := by
  cases r with
  | error e => exact sound_throw (callFailure_ne_exhausted fun he => hr (he ▸ rfl))
  | ok v =>
    unfold callResult
    dsimp only
    split
    · exact sound_pure (isGround_untuple (hg v rfl))
    · exact sound_throw (by simp [Failure.evaluation])

/-! ## Calls -/

theorem exists_builtin_of_isCallable {v : Value} (h : v.isGround = true)
    (hc : v.isCallable = true) : ∃ b, v = .builtin b := by
  cases v with
  | builtin b => exact ⟨b, rfl⟩
  | host | closure => cases h
  | _ => cases hc

section Calls
variable {context : Context σ} {active outer : List Frame} {budget place : Nat} {name : Text}
  {nodes : List Node} {values : List Value} {scope : Scope}

theorem confined_called {callee : Value} {arguments : List Value} (hc : callee.isGround = true)
    (ha : ∀ v ∈ arguments, v.isPassable = true) :
    (Event.called callee arguments active).Confined limit := by
  refine ⟨ha, ?_⟩
  rintro serial position parameter body scope rfl
  cases hc

/-- A built-in that is given one ground value calls nothing. -/
theorem sound_call_of_ground {callee x : Value} (hc : callee.isGround = true)
    (hx : x.isGround = true) :
    Sound limit (·.isGround = true) (traceCall context active (budget + 1) callee [x]) := by
  have hpass : ∀ v ∈ [x], v.isPassable = true :=
    List.forall_mem_singleton.mpr (Value.isPassable_of_isGround hx)
  have hcalled : (Event.called callee [x] active).Confined limit := confined_called hc hpass
  cases callee with
  | host f => cases hc
  | closure => cases hc
  | builtin b =>
    rw [traceCall]
    refine Sound.noting (sound_run ?_ (Builtin.confined_script hpass)) hcalled fun _ hv => hv
    exact List.forall_mem_nil _
  | _ =>
    rw [traceCall]
    · exact (sound_throw (by simp)).noting hcalled fun _ hv => hv
    all_goals simp

/-- Whether a value is ground, or the closure of a lambda among the arguments of a call. -/
def Argued (nodes : List Node) (scope : Scope) (v : Value) : Prop :=
  v.isGround = true ∨ ∃ serial position parameter body,
    .lambda position parameter body ∈ nodes ∧ v = .closure serial position parameter body scope

theorem Argued.isPassable {v : Value} (h : Argued nodes scope v) : v.isPassable = true := by
  rcases h with h | ⟨_, _, _, _, _, rfl⟩
  · exact Value.isPassable_of_isGround h
  · rfl

/-- A built-in calls the closures among its arguments in the call that it is called by. -/
theorem sound_call_builtin {b : Builtin} (hv : ∀ v ∈ values, Argued nodes scope v)
    (hbody : ∀ position parameter body, .lambda position parameter body ∈ nodes →
      nesting outer < limit ∧ ∀ closure x, x.isGround = true →
        Sound limit (·.isGround = true)
          (traceEvaluate context
            (.inside closure :: .applying (.call place name nodes) values :: outer) budget body
            ((parameter, x) :: scope))) :
    Sound limit (·.isGround = true)
      (traceCall context (.applying (.call place name nodes) values :: outer) (budget + 2)
        (.builtin b) values) := by
  have hpass : ∀ v ∈ values, v.isPassable = true := fun v h => (hv v h).isPassable
  rw [traceCall]
  refine Sound.noting (sound_run ?_ (Builtin.confined_script hpass)) (confined_called rfl hpass)
    fun _ hv => hv
  intro callee hcallee x hx
  have hmem := List.mem_of_mem_tail hcallee
  rcases hv callee hmem with hc | ⟨serial, position, parameter, body, hl, rfl⟩
  · exact sound_call_of_ground hc hx
  · obtain ⟨hnest, hbody⟩ := hbody position parameter body hl
    rw [traceCall]
    refine (hbody _ x hx).noting ⟨?_, ?_⟩ fun _ hv => hv
    · exact List.forall_mem_singleton.mpr (Value.isPassable_of_isGround hx)
    · rintro _ _ _ _ _ ⟨⟩
      exact ⟨⟨x, rfl, hx⟩, ⟨place, name, nodes, values, outer, rfl, hl, hmem⟩, hnest⟩

end Calls

/-! ## Nodes -/

section Nodes
variable {context : Context σ} {active : List Frame} {budget : Nat} {scope : Scope}

theorem sound_lambda {position : Nat} {parameter : Text} {body : Node} (hs : GroundScope scope) :
    Sound limit (fun v => ∃ serial, v = .closure serial position parameter body scope)
      (traceEvaluate context active (budget + 1) (.lambda position parameter body) scope) := by
  have hnew : Sound limit (fun v => ∃ serial, v = .closure serial position parameter body scope)
      (newClosure position parameter body scope : Evaluation (Traced σ) Value) := by
    intro m
    have ho : outcome (newClosure position parameter body scope) m =
      (.ok (.closure m.closures position parameter body scope), ⟨m.state, m.closures + 1⟩) := rfl
    rw [ho]
    exact ⟨by simp, fun v hv => ⟨m.closures, (Except.ok.inj hv).symm⟩, fun _ he => .inl he⟩
  rw [traceEvaluate]
  refine hnew.noting hs ?_
  rintro v ⟨serial, rfl⟩
  exact .inr ⟨serial, position, parameter, body, scope, rfl, rfl⟩

theorem sound_items {below : Node → Scope → Evaluation (Traced σ) Value} {nodes : List Node}
    (h : ∀ node ∈ nodes, Sound limit (·.isGround = true) (below node scope)) :
    Sound limit (fun values => ∀ v ∈ values, v.isGround = true) (items below scope nodes) := by
  rw [items_eq_gather]
  exact sound_gather fun node hnode => (h node hnode).bind fun v hv =>
    sound_pure (List.forall_mem_singleton.mpr hv)

theorem argument_of_placed {below : Node → Scope → Evaluation σ Value} {node : Node}
    (h : node.Placed) : argument context below scope node = single below scope node := by
  cases h <;> rfl

/-- The values of the arguments of a call are ground, or closures of lambdas among them. -/
theorem sound_arguments {nodes : List Node} (hp : ∀ node ∈ nodes, node.PlacedArgument)
    (hs : GroundScope scope) (hf : GroundScope context.functions)
    (h : ∀ node ∈ nodes, node.Placed →
      Sound limit (·.isGround = true) (traceEvaluate context active (budget + 1) node scope)) :
    Sound limit (fun values => ∀ v ∈ values, Argued nodes scope v)
      (arguments context.traced (traceEvaluate context active (budget + 1)) scope nodes) := by
  rw [arguments_eq_gather]
  refine sound_gather fun node hnode => ?_
  cases hp node hnode with
  | ofPlaced hplaced =>
    rw [argument_of_placed hplaced]
    exact (h node hnode hplaced).bind fun v hv =>
      sound_pure (List.forall_mem_singleton.mpr (.inl hv))
  | spread => exact (sound_spread hs hf _ _).mono fun _ hv v hmem => .inl (hv v hmem)
  | lambda hbody =>
    refine (sound_lambda hs).bind fun v hv => sound_pure (List.forall_mem_singleton.mpr ?_)
    obtain ⟨serial, rfl⟩ := hv
    exact .inr ⟨serial, _, _, _, hnode, rfl⟩

/-- A call is sound when its arguments are, and the bodies of the lambdas among them wherever their
closures are called. -/
theorem sound_applied {place : Nat} {name : Text} {nodes : List Node}
    (hf : ∀ binding ∈ context.functions, ∃ b, binding.2 = .builtin b)
    (hp : ∀ node ∈ nodes, node.PlacedArgument) (hs : GroundScope scope)
    (h : ∀ node ∈ nodes, node.Placed →
      Sound limit (·.isGround = true) (traceEvaluate context active (budget + 2) node scope))
    (hbody : ∀ position parameter body, .lambda position parameter body ∈ nodes →
      nesting active < limit ∧ ∀ values closure x, x.isGround = true →
        Sound limit (·.isGround = true)
          (traceEvaluate context
            (.inside closure :: .applying (.call place name nodes) values :: active) budget body
            ((parameter, x) :: scope))) :
    Sound limit (·.isGround = true)
      (step context.traced (traceEvaluate context active (budget + 2))
        (fun callee values => traceCall context (.applying (.call place name nodes) values :: active)
          (budget + 2) callee values) (.call place name nodes) scope) := by
  have hground := groundScope_of_builtins hf
  rw [step]
  refine (sound_lookup hs hground name place).bind fun callee hc => ?_
  cases hcallable : callee.isCallable with
  | false => exact sound_fail _ _
  | true =>
    obtain ⟨b, rfl⟩ := exists_builtin_of_isCallable hc hcallable
    refine (sound_arguments hp hs hground h).bind fun values hv => ?_
    refine (sound_call_builtin hv fun position parameter body hl => ?_).attempt_bind
      fun r hr hg => sound_callResult hr hg
    obtain ⟨hnest, hbody⟩ := hbody position parameter body hl
    exact ⟨hnest, hbody values⟩

end Nodes

/-- With the built-in functions alone, an evaluation whose budget is as large as its tree nests is
sound. -/
theorem sound_evaluate {context : Context σ}
    (hf : ∀ binding ∈ context.functions, ∃ b, binding.2 = .builtin b) {budget : Nat} :
    ∀ active node scope, node.Placed → GroundScope scope → node.evaluationDepth ≤ budget →
      nesting active + node.lambdaDepth ≤ limit →
      Sound limit (·.isGround = true) (traceEvaluate context active budget node scope) := by
  induction budget using Nat.strongRecOn with
  | ind budget ih =>
    intro active node scope hp hs hd hl
    obtain ⟨budget, rfl⟩ : ∃ n, budget = n + 1 :=
      ⟨budget - 1, by have hpos := node.evaluationDepth_pos; omega⟩
    rw [traceEvaluate]
    refine Sound.noting ?_ hs fun _ hv => .inl hv
    cases hp with
    | literal h => exact sound_pure h
    | identifier => exact sound_lookup hs (groundScope_of_builtins hf) _ _
    | @array position items h =>
      simp only [Node.evaluationDepth, Node.lambdaDepth] at hd hl
      refine Sound.bind (sound_items fun node hnode => ?_) fun values hv =>
        sound_pure (Value.isGround_array_iff.mpr hv)
      have hdepth := Node.evaluationDepth_le_of_mem hnode
      have hlambda := Node.lambdaDepth_le_of_mem hnode
      exact ih _ (by omega) active node scope (h node hnode) hs (by omega) (by omega)
    | @call position name arguments h =>
      simp only [Node.evaluationDepth, Node.lambdaDepth] at hd hl
      obtain ⟨budget, rfl⟩ : ∃ n, budget = n + 2 := ⟨budget - 2, by omega⟩
      refine sound_applied hf h hs (fun node hnode hplaced => ?_) fun lambdaAt parameter body hmem => ?_
      · have hdepth := Node.evaluationDepth_le_of_mem hnode
        have hlambda := Node.lambdaDepth_le_of_mem hnode
        exact ih (budget + 2) (by omega) active node scope hplaced hs (by omega) (by omega)
      · -- the body is evaluated three levels below the call: its node, the function, the closure
        have hdepth := Node.evaluationDepth_le_of_mem hmem
        have hlambda := Node.lambdaDepth_le_of_mem hmem
        simp only [Node.evaluationDepth, Node.lambdaDepth] at hdepth hlambda
        have hplaced : body.Placed := by
          cases h _ hmem with
          | lambda hbody => exact hbody
          | ofPlaced h => cases h
        refine ⟨by omega, fun values closure x hx => ?_⟩
        refine ih budget (by omega) _ body _ hplaced (List.forall_mem_cons.mpr ⟨hx, hs⟩) (by omega) ?_
        simp only [nesting]
        omega
    | @unary position operator operand h =>
      simp only [Node.evaluationDepth, Node.lambdaDepth] at hd hl
      rw [step]
      refine (ih _ (by omega) active operand scope h hs (by omega) (by omega)).bind fun v _ => ?_
      exact sound_ofResult (Operation.unary_ne_exhausted _ _ _) fun _ h => Operation.isGround_unary h
    | @binary position operator left right hleft hright =>
      simp only [Node.evaluationDepth, Node.lambdaDepth] at hd hl
      rw [step]
      refine (ih _ (by omega) active left scope hleft hs (by omega) (by omega)).bind fun a _ => ?_
      refine (ih _ (by omega) active right scope hright hs (by omega) (by omega)).bind fun b _ => ?_
      exact sound_ofResult (Operation.binary_ne_exhausted _ _ _ _) fun _ h => Operation.isGround_binary h
    | @logical position operator left right hleft hright =>
      simp only [Node.evaluationDepth, Node.lambdaDepth] at hd hl
      rw [step]
      refine (ih _ (by omega) active left scope hleft hs (by omega) (by omega)).bind fun v hv => ?_
      have htruth : Sound limit (fun _ => True)
          (ofResult (ofFault v.truthy) : Evaluation (Traced σ) Bool) := by
        refine sound_ofResult ?_ fun _ _ => trivial
        cases v.truthy <;> simp [ofFault]
      refine htruth.bind fun truth _ => ?_
      split
      · exact ih _ (by omega) active right scope hright hs (by omega) (by omega)
      · exact sound_pure hv

/-! ## Whole expressions -/

theorem exists_builtin_of_mem_functions (registry : Text) :
    ∀ binding ∈ (Registry.builtins registry).functions, ∃ b, binding.2 = .builtin b := by
  intro binding h
  obtain ⟨e, he, rfl⟩ := List.mem_map.mp h
  obtain ⟨b, _, rfl⟩ := List.mem_map.mp he
  exact ⟨b, rfl⟩

theorem groundScope_scopeOf {fields : Fields} (h : ∀ field ∈ fields, field.2.isModel = true) :
    GroundScope (scopeOf fields) := by
  intro binding hb
  obtain ⟨field, hmem, heq⟩ := exists_field_of_mem_scopeOf hb
  exact heq ▸ Value.isGround_of_isModel (h field hmem)

def closureNestings (events : List Event) : List Nat :=
  events.filterMap fun event =>
    match event with
    | .called (.closure ..) _ active => some (nesting active)
    | _ => none

end Evaluation

namespace Expression

open Evaluation
open Grammar (Phrase)
open Lexer (scan_token scan_nil)

variable {σ : Type}

/-- With the built-in functions alone, the evaluation of a parsed text over a record of model values
ends at the same outcome for every budget from a measure of its tree on. No closure is bound to a
name, put in an array or returned by a call, each is called by the function of the innermost call
that is being evaluated and has its lambda among its arguments, and within fewer bodies of
closures than lambdas stand in each other in the tree. -/
theorem evaluation_ends_and_confines_closures {capacity : Nat} {limits : Limits} {text : Text}
    {tree : Node} {record : Value} {fields : Fields}
    (hparse : parseText capacity limits text = .ok tree)
    (hrecord : record.asFieldsOrNone = .ok fields)
    (hmodel : ∀ field ∈ fields, field.2.isModel = true)
    (registry : Text) (host : Host σ) (state : σ) (source : Option Text) :
    let context : Context σ := ⟨host, (Registry.builtins registry).functions⟩
    let plain (budget : Nat) := outcome (evaluate context budget tree (scopeOf fields)) ⟨state, 0⟩
    let traced (budget : Nat) :=
      outcome (traceEvaluate context [] budget tree (scopeOf fields)) ⟨⟨state, []⟩, 0⟩
    ∀ budget, tree.evaluationDepth ≤ budget →
      (plain budget).1 ≠ .error .exhausted ∧ plain budget = plain tree.evaluationDepth ∧
        evaluateTree budget context tree record source state =
          evaluateTree tree.evaluationDepth context tree record source state ∧
        plain budget = ((traced budget).1, (traced budget).2.untraced) ∧
        ∀ event ∈ (traced budget).2.state.events, event.Confined tree.lambdaDepth := by
  intro context plain traced budget hb
  have hsound (budget : Nat) (hb : tree.evaluationDepth ≤ budget) :
      Sound tree.lambdaDepth (·.isGround = true)
        (traceEvaluate context [] budget tree (scopeOf fields)) :=
    sound_evaluate (exists_builtin_of_mem_functions registry) [] tree _ (placed_of_parseText hparse)
      (groundScope_scopeOf hmodel) hb (Nat.le_of_eq (Nat.zero_add _))
  have hfollows (budget larger : Nat) (hb : tree.evaluationDepth ≤ budget) (hl : budget ≤ larger) :
      plain larger = ((traced budget).1, (traced budget).2.untraced) :=
    (follows_trace context larger hl).1 [] tree _ ⟨⟨state, []⟩, 0⟩ (hsound budget hb _).1
  have htraced := hfollows budget budget hb (Nat.le_refl _)
  have hsame : plain budget = plain tree.evaluationDepth :=
    (hfollows _ _ (Nat.le_refl _) hb).trans (hfollows _ _ (Nat.le_refl _) (Nat.le_refl _)).symm
  obtain ⟨hended, _, hevents⟩ := hsound budget hb ⟨⟨state, []⟩, 0⟩
  refine ⟨?_, hsame, ?_, htraced, fun event he => (hevents event he).resolve_left (by simp)⟩
  · rw [htraced]
    exact hended
  · have hrun : (evaluate context budget tree (scopeOf fields)).run ⟨state, 0⟩ =
      (evaluate context tree.evaluationDepth tree (scopeOf fields)).run ⟨state, 0⟩ := hsame
    simp only [evaluateTree, hrecord, hrun]

/-- The closure of a predicate is called within that of the predicate around it. -/
theorem nested_predicates_end :
    let tree : Node := .call 0 "any" [.identifier 4 "a",
      .lambda 6 "x" (.call 9 "all" [.identifier 13 "x", .lambda 15 "y" (.identifier 18 "y")])]
    let record : Value := .object [(.text "a", .array [.array [.boolean true]])]
    let context : Context Unit :=
      ⟨⟨fun _ _ => .finish (.ok .null), 0⟩, (Registry.builtins "functions").functions⟩
    let traced := outcome (traceEvaluate context [] 7 tree
      (scopeOf [(.text "a", .array [.array [.boolean true]])])) ⟨⟨(), []⟩, 0⟩
    parseText 1000 ⟨.integer 5, .integer 30⟩ "any(a,x=>all(x,y=>y))" = .ok tree ∧
      closureNestings traced.2.state.events = [1, 0] ∧
      (∀ event ∈ traced.2.state.events, event.Confined 2) ∧
      ∀ budget, 7 ≤ budget →
        evaluateTree budget context tree record none () = evaluateTree 7 context tree record none () := by
  intro tree record context traced
  let every : Phrase := .ofCall 9 "all" (.ofTest 13 "x" "y" (.ofName 18 "y")) 19
  let some : Phrase := .ofCall 0 "any" (.ofTest 4 "a" "x" every) 20
  have hscan : Lexer.tokenize "any(a,x=>all(x,y=>y))" =
      .ok (some.tokens ++ [⟨.ending, .null, 21, ""⟩]) := by
    simp only [some, every, Grammar.Tier.tokens_ofCall, Grammar.Listing.tokens_ofTest,
      Grammar.Tier.tokens_ofName, List.cons_append, List.nil_append]
    exact @scan_token 97 [110, 121] _ _ _ 0 _ rfl rfl <| @scan_token 40 [] _ _ _ 3 _ rfl rfl <|
      @scan_token 97 [] _ _ _ 4 _ rfl rfl <| @scan_token 44 [] _ _ _ 5 _ rfl rfl <|
      @scan_token 120 [] _ _ _ 6 _ rfl rfl <| @scan_token 61 [62] _ _ _ 7 _ rfl rfl <|
      @scan_token 97 [108, 108] _ _ _ 9 _ rfl rfl <| @scan_token 40 [] _ _ _ 12 _ rfl rfl <|
      @scan_token 120 [] _ _ _ 13 _ rfl rfl <| @scan_token 44 [] _ _ _ 14 _ rfl rfl <|
      @scan_token 121 [] _ _ _ 15 _ rfl rfl <| @scan_token 61 [62] _ _ _ 16 _ rfl rfl <|
      @scan_token 121 [] _ _ _ 18 _ rfl rfl <| @scan_token 41 [] _ _ _ 19 _ rfl rfl <|
      @scan_token 41 [] _ _ _ 20 _ rfl rfl (scan_nil 21)
  have hl : Bounded ⟨.integer 5, .integer 30⟩ (.ofNat 30) (.ofNat 5) :=
    ⟨by decide +kernel, by decide +kernel⟩
  have hderives : Derives "any(a,x=>all(x,y=>y))" some := ⟨⟨.ending, .null, 21, ""⟩, rfl, hscan⟩
  have hparse : parseText 1000 ⟨.integer 5, .integer 30⟩ "any(a,x=>all(x,y=>y))" = .ok tree :=
    hderives.parseText_eq_ok hl (by decide) ⟨by decide, by decide⟩
  have hrecord : record.asFieldsOrNone = .ok [(.text "a", .array [.array [.boolean true]])] := rfl
  have key := evaluation_ends_and_confines_closures hparse hrecord (by decide) "functions"
    context.host () none
  have hcalls : closureNestings traced.2.state.events = [1, 0] := by decide +kernel
  exact ⟨hparse, hcalls, (key 7 (Nat.le_refl _)).2.2.2.2, fun budget hb => (key budget hb).2.2.1⟩

end Expression
end Vetting
