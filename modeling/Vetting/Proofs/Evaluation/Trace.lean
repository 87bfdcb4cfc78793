import Vetting.Proofs.Evaluation.Fault

/-!
# Traces of evaluations

A traced evaluation writes down what it does: the nodes that it enters, with the scope, their
values, the calls and what they return. Each call is noted with the applications and closures that
it is made in. Apart from the trace it does what the evaluation does, at that budget and at any
larger one.
-/

namespace Vetting

namespace Evaluation

/-- What encloses a call: a node that applies its function to these values, or the body of a closure. -/
inductive Frame where
  | applying (node : Node) (values : List Value)
  | inside (closure : Value)

inductive Event where
  | entered (node : Node) (scope : Scope)
  | evaluated (node : Node) (v : Value)
  /-- A call with the frames around it, innermost first. -/
  | called (callee : Value) (arguments : List Value) (active : List Frame)
  | returned (callee v : Value)

end Evaluation

open Evaluation (Frame Event)

/-- The state of the host with what has happened, the last event first. -/
structure Traced (σ : Type) where
  state : σ
  events : List Event

variable {σ α β : Type}

/-- A script over the state of the host that leaves the trace as it is. -/
def Script.traced : Script σ α → Script (Traced σ) α
  | .finish result => .finish result
  | .call callee arguments resume => .call callee arguments fun r => (resume r).traced
  | .read resume => .read fun t => (resume t.state).traced
  | .write state rest => .read fun t => .write ⟨state, t.events⟩ rest.traced

def Context.traced (context : Context σ) : Context (Traced σ) where
  host := ⟨fun f arguments => (context.host.behaviour f arguments).traced, context.host.instant⟩
  functions := context.functions

namespace Evaluation

def emit (event : Event) : Evaluation (Traced σ) PUnit :=
  modify fun m => { m with state := ⟨m.state.state, event :: m.state.events⟩ }

/-- A computation with an event before it and, if it succeeds, one after it. -/
def noting (before : Event) (after : Value → Event) (m : Evaluation (Traced σ) Value) :
    Evaluation (Traced σ) Value := do
  emit before
  let v ← m
  emit (after v)
  return v

mutual

/-- The evaluation of a node within these frames, with its trace. -/
def traceEvaluate (context : Context σ) (active : List Frame) :
    Nat → Node → Scope → Evaluation (Traced σ) Value
  | 0, _, _ => throw .exhausted
  | budget + 1, node, scope =>
    noting (.entered node scope) (.evaluated node)
      (step context.traced (traceEvaluate context active budget)
        (fun callee values =>
          traceCall context (.applying node values :: active) budget callee values) node scope)

def traceCall (context : Context σ) (active : List Frame) :
    Nat → Value → List Value → Evaluation (Traced σ) Value
  | 0, _, _ => throw .exhausted
  | budget + 1, callee, arguments =>
    noting (.called callee arguments active) (.returned callee) <|
      match callee with
      | .host f =>
        (context.host.behaviour f arguments).traced.run (traceCall context active budget)
      | .builtin b =>
        (b.script context.host.instant arguments : Script σ Value).traced.run
          (traceCall context active budget)
      | .closure _ position parameter body scope =>
        match arguments with
        | [argument] =>
          traceEvaluate context (.inside callee :: active) budget body ((parameter, argument) :: scope)
        | _ => fail (.lambdaArity parameter arguments.length) position
      | v => throw (.fault (.notCallable v.familyTypeName))

end

end Evaluation

/-! ## Without the trace -/

def Machine.untraced (m : Machine (Traced σ)) : Machine σ := ⟨m.state.state, m.closures⟩

namespace Evaluation

/-- Whether a traced computation, unless its budget ends, does the same as one without a trace. -/
def Follows (traced : Evaluation (Traced σ) α) (plain : Evaluation σ α) : Prop :=
  ∀ m, (outcome traced m).1 ≠ .error .exhausted →
    outcome plain m.untraced = ((outcome traced m).1, (outcome traced m).2.untraced)

theorem follows_pure (a : α) : Follows (pure a : Evaluation (Traced σ) α) (pure a) := fun _ _ => rfl

theorem follows_throw (e : Failure) : Follows (throw e : Evaluation (Traced σ) α) (throw e) :=
  fun _ _ => rfl

theorem follows_ofResult (r : Except Failure α) :
    Follows (ofResult r : Evaluation (Traced σ) α) (ofResult r) := fun _ _ => rfl

theorem follows_exhausted (plain : Evaluation σ α) : Follows (throw .exhausted) plain :=
  fun _ h => absurd rfl h

theorem Follows.bind {traced : Evaluation (Traced σ) α} {plain : Evaluation σ α}
    {next : α → Evaluation (Traced σ) β} {next' : α → Evaluation σ β} (h : Follows traced plain)
    (hn : ∀ a, Follows (next a) (next' a)) : Follows (traced >>= next) (plain >>= next') := by
  intro m hm
  have hfirst := h m
  rcases ho : outcome traced m with ⟨e | a, u⟩
  · rw [outcome_bind_of_error ho] at hm ⊢
    rw [ho] at hfirst
    exact outcome_bind_of_error (hfirst fun he => hm (Except.error.inj he ▸ rfl))
  · rw [outcome_bind_of_ok ho] at hm ⊢
    rw [ho] at hfirst
    rw [outcome_bind_of_ok (hfirst (by simp))]
    exact hn a u hm

/-- The outcome of a computation is looked at by one that passes on the end of the budget. -/
theorem Follows.attempt_bind {traced : Evaluation (Traced σ) α} {plain : Evaluation σ α}
    {next : Except Failure α → Evaluation (Traced σ) β} {next' : Except Failure α → Evaluation σ β}
    (h : Follows traced plain) (hn : ∀ r, Follows (next r) (next' r))
    (hx : next (.error .exhausted) = throw .exhausted) :
    Follows (traced.attempt >>= next) (plain.attempt >>= next') := by
  intro m hm
  rw [outcome_bind_of_ok (outcome_attempt ..)] at hm ⊢
  rw [outcome_bind_of_ok (outcome_attempt ..)]
  by_cases he : (outcome traced m).1 = .error .exhausted
  · rw [he, hx] at hm
    exact absurd rfl hm
  · rw [h m he]
    exact hn _ _ hm

theorem Follows.noting {before : Event} {after : Value → Event}
    {traced : Evaluation (Traced σ) Value} {plain : Evaluation σ Value} (h : Follows traced plain) :
    Follows (noting before after traced) plain := by
  intro m hm
  have hbefore : outcome (emit before) m = (.ok ⟨⟩, _) := rfl
  rw [Evaluation.noting, outcome_bind_of_ok hbefore] at hm ⊢
  have htraced := h ⟨⟨m.state.state, before :: m.state.events⟩, m.closures⟩
  rcases ho : outcome traced ⟨⟨m.state.state, before :: m.state.events⟩, m.closures⟩ with ⟨e | v, u⟩
  · rw [outcome_bind_of_error ho] at hm ⊢
    rw [ho] at htraced
    exact htraced hm
  · rw [ho] at htraced
    rw [outcome_bind_of_ok ho]
    exact htraced (by simp)

theorem follows_run {call : Value → List Value → Evaluation (Traced σ) Value}
    {call' : Value → List Value → Evaluation σ Value}
    (h : ∀ callee arguments, Follows (call callee arguments) (call' callee arguments))
    (script : Script σ α) : Follows (script.traced.run call) (script.run call') := by
  induction script with
  | finish result => exact follows_ofResult result
  | call callee arguments resume ih =>
    rw [Script.traced, Script.run, Script.run]
    refine (h callee arguments).attempt_bind (fun r => ?_) rfl
    cases r with
    | ok v => exact ih _
    | error e =>
      cases e with
      | exhausted => exact follows_exhausted _
      | fault f => exact ih _
      | engine e => exact ih _
  | read resume ih => exact fun m => ih m.state.state m
  | write state rest ih => exact fun m => ih { m with state := ⟨state, m.state.events⟩ }

section Step
variable {context : Context σ} {below : Node → Scope → Evaluation (Traced σ) Value}
  {below' : Node → Scope → Evaluation σ Value}
  {call : Value → List Value → Evaluation (Traced σ) Value}
  {call' : Value → List Value → Evaluation σ Value} {scope : Scope}

theorem follows_lookup (name : Text) (position : Nat) :
    Follows (lookup context.traced scope name position) (lookup context scope name position) := by
  have htraced : lookup? context.traced scope name = lookup? context scope name := rfl
  rw [lookup, lookup, htraced]
  cases lookup? context scope name with
  | none => exact follows_throw _
  | some v => exact follows_pure v

theorem follows_spread (name : Text) (position : Nat) :
    Follows (spread context.traced scope name position) (spread context scope name position) := by
  refine (follows_lookup name position).bind fun v => ?_
  cases v.items? with
  | none => exact follows_throw _
  | some items => exact follows_pure items

theorem follows_newClosure (position : Nat) (parameter : Text) (body : Node) :
    Follows (newClosure position parameter body scope : Evaluation (Traced σ) Value)
      (newClosure position parameter body scope) := fun _ _ => rfl

theorem follows_gather {f : Node → Evaluation (Traced σ) (List Value)}
    {f' : Node → Evaluation σ (List Value)} (h : ∀ node, Follows (f node) (f' node))
    (nodes : List Node) : Follows (gather f nodes) (gather f' nodes) := by
  induction nodes with
  | nil => exact follows_pure []
  | cons node rest ih => exact (h node).bind fun _ => ih.bind fun _ => follows_pure _

variable (hb : ∀ node scope, Follows (below node scope) (below' node scope))
include hb

theorem follows_single (node : Node) :
    Follows (single below scope node) (single below' scope node) :=
  (hb node scope).bind fun v => follows_pure [v]

theorem follows_items (nodes : List Node) :
    Follows (items below scope nodes) (items below' scope nodes) := by
  rw [items_eq_gather, items_eq_gather]
  exact follows_gather (follows_single hb) nodes

theorem follows_arguments (nodes : List Node) :
    Follows (arguments context.traced below scope nodes) (arguments context below' scope nodes) := by
  rw [arguments_eq_gather, arguments_eq_gather]
  refine follows_gather (fun node => ?_) nodes
  cases node with
  | spread position name => exact follows_spread name position
  | _ => exact follows_single hb _

variable (hc : ∀ callee arguments, Follows (call callee arguments) (call' callee arguments))
include hc

theorem follows_step (node : Node) :
    Follows (step context.traced below call node scope) (step context below' call' node scope) := by
  cases node with
  | literal position v => exact follows_pure v
  | identifier position name => exact follows_lookup name position
  | array position nodes => exact (follows_items hb nodes).bind fun _ => follows_pure _
  | spread position name => exact (follows_spread name position).bind fun _ => follows_pure _
  | lambda position parameter body => exact follows_newClosure position parameter body
  | call position name nodes =>
    refine (follows_lookup name position).bind fun callee => ?_
    cases callee.isCallable with
    | false => exact follows_throw _
    | true =>
      refine Follows.bind (follows_arguments hb nodes) fun values => ?_
      exact (hc callee values).attempt_bind (fun r => follows_ofResult _) rfl
  | unary position operator operand =>
    exact (hb operand scope).bind fun v => follows_ofResult _
  | binary position operator left right =>
    exact (hb left scope).bind fun a => (hb right scope).bind fun b => follows_ofResult _
  | logical position operator left right =>
    refine (hb left scope).bind fun v => (follows_ofResult _).bind fun truth => ?_
    split
    · exact hb right scope
    · exact follows_pure v
  | bare position => exact follows_throw _

end Step

/-- The trace of an evaluation is that of the evaluation itself, at any budget that is not smaller. -/
theorem follows_trace (context : Context σ) {budget : Nat} :
    ∀ larger, budget ≤ larger →
      (∀ active node scope,
        Follows (traceEvaluate context active budget node scope) (evaluate context larger node scope)) ∧
      ∀ active callee arguments,
        Follows (traceCall context active budget callee arguments)
          (call context larger callee arguments) := by
  induction budget with
  | zero => exact fun _ _ => ⟨fun _ _ _ => follows_exhausted _, fun _ _ _ => follows_exhausted _⟩
  | succ budget ih =>
    intro larger hl
    obtain ⟨larger, rfl⟩ : ∃ n, larger = n + 1 := ⟨larger - 1, by omega⟩
    obtain ⟨he, hc⟩ := ih larger (by omega)
    constructor
    · intro active node scope
      rw [traceEvaluate, evaluate]
      refine (follows_step (he active) ?_ node).noting
      exact fun callee values => hc (.applying node values :: active) callee values
    · intro active callee arguments
      cases callee with
      | host f =>
        rw [traceCall, call]
        exact (follows_run (hc active) _).noting
      | builtin b =>
        rw [traceCall, call]
        exact (follows_run (hc active) _).noting
      | closure serial position parameter body scope =>
        rcases arguments with _ | ⟨argument, _ | ⟨second, rest⟩⟩
        · rw [traceCall, call]
          · exact (follows_throw _).noting
          all_goals simp
        · rw [traceCall, call]
          exact (he _ body _).noting
        · rw [traceCall, call]
          · exact (follows_throw _).noting
          all_goals simp
      | _ =>
        rw [traceCall, call]
        · exact (follows_throw _).noting
        all_goals simp

end Evaluation
end Vetting
