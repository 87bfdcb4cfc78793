import Vetting.Proofs.Evaluation.Oversized
import Vetting.Proofs.Outcome
import Vetting.Proofs.Value.Writing

/-!
# Faults of evaluations

Calls turn the faults of functions into errors of the expression. What is left are the tests of
operators: the evaluation of a tree ends in a fault exactly when it comes to test an oversized
integer.
-/

namespace Vetting

/-- Trees whose operators are those of the grammar. -/
inductive Node.Regular : Node → Prop where
  | literal {position : Nat} {v : Value} : Regular (.literal position v)
  | identifier {position : Nat} {name : Text} : Regular (.identifier position name)
  | array {position : Nat} {items : List Node} (h : ∀ node ∈ items, Regular node) :
      Regular (.array position items)
  | spread {position : Nat} {name : Text} : Regular (.spread position name)
  | lambda {position : Nat} {parameter : Text} {body : Node} (h : Regular body) :
      Regular (.lambda position parameter body)
  | call {position : Nat} {name : Text} {arguments : List Node}
      (h : ∀ node ∈ arguments, Regular node) : Regular (.call position name arguments)
  | unary {position : Nat} {operator : Text} {operand : Node} (h : Regular operand) :
      Regular (.unary position operator operand)
  | binary {position : Nat} {operator : Text} {left right : Node}
      (known : Operation.Known operator) (hl : Regular left) (hr : Regular right) :
      Regular (.binary position operator left right)
  | logical {position : Nat} {operator : Text} {left right : Node} (hl : Regular left)
      (hr : Regular right) : Regular (.logical position operator left right)

namespace Evaluation

variable {σ : Type}

/-- The failures of an evaluation that are no faults. -/
def Tame (e : Failure) : Prop := e = .exhausted ∨ ∃ x, e = .engine (.expression x)

theorem tame_evaluation (problem : EvaluationProblem) (position : Option Nat) :
    Tame (.evaluation problem position) := .inr ⟨_, rfl⟩

theorem tame_callFailure (name : Text) (position : Nat) (e : Failure) :
    Tame (callFailure name position e) := by
  unfold callFailure
  split
  · exact .inl rfl
  · exact .inr ⟨_, rfl⟩
  · exact tame_evaluation ..

theorem tame_of_callResult {name : Text} {position : Nat} {r : Except Failure Value} {e : Failure}
    (h : callResult name position r = .error e) : Tame e := by
  unfold callResult at h
  split at h
  · cases h
    exact tame_callFailure ..
  · dsimp only at h
    split at h
    · cases h
    · cases h
      exact tame_evaluation ..

theorem mem_of_lookup_eq_some {scope : Scope} {name : Text} {v : Value}
    (h : scope.lookup name = some v) : (name, v) ∈ scope := by
  obtain ⟨before, after, rfl, _⟩ := List.lookup_eq_some_iff.mp h
  exact List.mem_append_right before List.mem_cons_self

/-- A name stands for a value that is bound in the scope or among the functions. -/
theorem lookup?_of_forall {context : Context σ} {scope : Scope} (good : Value → Prop)
    (hs : ∀ binding ∈ scope, good binding.2) (hf : ∀ binding ∈ context.functions, good binding.2)
    {name : Text} {v : Value} (h : lookup? context scope name = some v) : good v := by
  unfold lookup? at h
  cases hl : scope.lookup name with
  | some w =>
    rw [hl] at h
    exact hs _ (mem_of_lookup_eq_some (hl.trans h))
  | none =>
    rw [hl] at h
    exact hf _ (mem_of_lookup_eq_some h)

theorem exists_field_of_mem_scopeOf {fields : Fields} {binding : Text × Value}
    (h : binding ∈ scopeOf fields) : ∃ field ∈ fields, field.2 = binding.2 := by
  obtain ⟨⟨key, v⟩, hmem, hb⟩ := List.mem_filterMap.mp h
  split at hb
  · cases hb
    exact ⟨_, hmem, rfl⟩
  · cases hb

theorem tame_of_lookup {context : Context σ} {scope : Scope} {name : Text} {position : Nat}
    {e : Failure} {m m' : Machine σ}
    (h : outcome (lookup context scope name position) m = (.error e, m')) : Tame e := by
  unfold lookup at h
  split at h
  · cases h
  · cases h
    exact tame_evaluation ..

theorem tame_of_spread {context : Context σ} {scope : Scope} {name : Text} {position : Nat}
    {e : Failure} {m m' : Machine σ}
    (h : outcome (spread context scope name position) m = (.error e, m')) : Tame e := by
  rw [spread, outcome_bind_eq_error_iff] at h
  rcases h with h | ⟨v, u, _, h⟩
  · exact tame_of_lookup h
  · split at h
    · cases h
    · cases h
      exact tame_evaluation ..

theorem tame_or_fault_of_unary {position : Nat} {operator : Text} {v : Value} {e : Failure}
    (h : Operation.unary position operator v = .error e) : Tame e ∨ ∃ f, e = .fault f := by
  unfold Operation.unary at h
  split at h
  · rcases bind_eq_error_iff.mp h with h | ⟨_, _, h⟩
    · obtain ⟨f, _, rfl⟩ := ofFault_eq_error_iff.mp h
      exact .inr ⟨f, rfl⟩
    · cases h
  · split at h
    · cases h
    · cases h
      exact .inl (tame_evaluation ..)

theorem tame_or_fault_of_binary {position : Nat} {operator : Text} {a b : Value} {e : Failure}
    (h : Operation.binary position operator a b = .error e) : Tame e ∨ ∃ f, e = .fault f := by
  cases e with
  | fault f => exact .inr ⟨f, rfl⟩
  | exhausted => exact .inl (.inl rfl)
  | engine e =>
    refine .inl (.inr ?_)
    simp only [Operation.binary, Operation.comparison, Operation.concatenation,
      Operation.arithmetic, Operation.failAt, Failure.evaluation] at h
    repeat' split at h
    all_goals first | cases h; exact ⟨_, rfl⟩ | cases h

/-! ## Lists of nodes -/

def gather (f : Node → Evaluation σ (List Value)) : List Node → Evaluation σ (List Value)
  | [] => pure []
  | node :: rest => do
    let first ← f node
    let others ← gather f rest
    return first ++ others

def single (below : Node → Scope → Evaluation σ Value) (scope : Scope) (node : Node) :
    Evaluation σ (List Value) := do
  let v ← below node scope
  return [v]

def argument (context : Context σ) (below : Node → Scope → Evaluation σ Value) (scope : Scope) :
    Node → Evaluation σ (List Value)
  | .spread position name => spread context scope name position
  | node => single below scope node

theorem items_eq_gather (below : Node → Scope → Evaluation σ Value) (scope : Scope)
    (nodes : List Node) : items below scope nodes = gather (single below scope) nodes := by
  induction nodes with
  | nil => rfl
  | cons node rest ih => simp [items, gather, single, ih]

theorem arguments_eq_gather (context : Context σ) (below : Node → Scope → Evaluation σ Value)
    (scope : Scope) (nodes : List Node) :
    arguments context below scope nodes = gather (argument context below scope) nodes := by
  induction nodes with
  | nil => rfl
  | cons node rest ih => cases node <;> simp [arguments, gather, argument, single, ih]

/-- A list fails at its first node that fails. -/
theorem outcome_gather_eq_error_iff {f : Node → Evaluation σ (List Value)} {nodes : List Node}
    {m m' : Machine σ} {e : Failure} :
    outcome (gather f nodes) m = (.error e, m') ↔
      ∃ before node after values u, nodes = before ++ node :: after ∧
        outcome (gather f before) m = (.ok values, u) ∧ outcome (f node) u = (.error e, m') := by
  induction nodes generalizing m with
  | nil => simp [gather]
  | cons node rest ih =>
    rw [gather, outcome_bind_eq_error_iff]
    constructor
    · rintro (h | ⟨first, u, hf, h⟩)
      · exact ⟨[], node, rest, [], m, rfl, rfl, h⟩
      · rw [outcome_bind_eq_error_iff] at h
        rcases h with h | ⟨others, w, _, h⟩
        · obtain ⟨before, n, after, values, w, rfl, hb, hn⟩ := ih.mp h
          refine ⟨node :: before, n, after, first ++ values, w, rfl, ?_, hn⟩
          rw [gather, outcome_bind_of_ok hf, outcome_bind_of_ok hb, outcome_pure]
        · cases h
    · rintro ⟨before, n, after, values, w, he, hb, hn⟩
      cases before with
      | nil =>
        cases he
        cases hb
        exact .inl hn
      | cons b before =>
        cases he
        rw [gather, outcome_bind_eq_ok_iff] at hb
        obtain ⟨first, u, hf, hb⟩ := hb
        rw [outcome_bind_eq_ok_iff] at hb
        obtain ⟨others, w', ho, hb⟩ := hb
        cases hb
        refine .inr ⟨first, u, hf, ?_⟩
        rw [outcome_bind_eq_error_iff]
        exact .inl (ih.mpr ⟨before, n, after, others, w, rfl, ho, hn⟩)

theorem outcome_gather_of_error {f : Node → Evaluation σ (List Value)} {before after : List Node}
    {node : Node} {values : List Value} {m m' m'' : Machine σ} {e : Failure}
    (hb : outcome (gather f before) m = (.ok values, m'))
    (hn : outcome (f node) m' = (.error e, m'')) :
    outcome (gather f (before ++ node :: after)) m = (.error e, m'') :=
  outcome_gather_eq_error_iff.mpr ⟨before, node, after, values, m', rfl, hb, hn⟩

theorem outcome_single_eq_error_iff {below : Node → Scope → Evaluation σ Value} {scope : Scope}
    {node : Node} {m m' : Machine σ} {e : Failure} :
    outcome (single below scope node) m = (.error e, m') ↔
      outcome (below node scope) m = (.error e, m') := by
  rw [single, outcome_bind_eq_error_iff]
  constructor
  · rintro (h | ⟨v, u, _, h⟩)
    · exact h
    · cases h
  · exact .inl

/-! ## Where an evaluation tests an oversized integer -/

/-- Whether the evaluation of a node comes to test an oversized integer outside of calls: as the
operand of a negation, of a comparison or of a logical operator. What stands before that place has
been evaluated. -/
inductive TestsOversized (context : Context σ) : Nat → Node → Scope → Machine σ → Prop
  | negated {budget position : Nat} {operand : Node} {scope : Scope} {m m' : Machine σ} {v : Value}
      (hv : outcome (evaluate context budget operand scope) m = (.ok v, m')) (h : v.Oversized) :
      TestsOversized context (budget + 1) (.unary position "!" operand) scope m
  | operand {budget position : Nat} {operator : Text} {operand : Node} {scope : Scope}
      {m : Machine σ} (h : TestsOversized context budget operand scope m) :
      TestsOversized context (budget + 1) (.unary position operator operand) scope m
  | left {budget position : Nat} {operator : Text} {left right : Node} {scope : Scope}
      {m : Machine σ} (h : TestsOversized context budget left scope m) :
      TestsOversized context (budget + 1) (.binary position operator left right) scope m
  | right {budget position : Nat} {operator : Text} {left right : Node} {scope : Scope}
      {m m' : Machine σ} {a : Value} (ha : outcome (evaluate context budget left scope) m = (.ok a, m'))
      (h : TestsOversized context budget right scope m') :
      TestsOversized context (budget + 1) (.binary position operator left right) scope m
  | compared {budget position : Nat} {operator : Text} {left right : Node} {scope : Scope}
      {m m' m'' : Machine σ} {a b : Value}
      (ha : outcome (evaluate context budget left scope) m = (.ok a, m'))
      (hb : outcome (evaluate context budget right scope) m' = (.ok b, m''))
      (hr : Operation.isRelational operator = true) (h : a.ComparesOversized b) :
      TestsOversized context (budget + 1) (.binary position operator left right) scope m
  | first {budget position : Nat} {operator : Text} {left right : Node} {scope : Scope}
      {m : Machine σ} (h : TestsOversized context budget left scope m) :
      TestsOversized context (budget + 1) (.logical position operator left right) scope m
  | decided {budget position : Nat} {operator : Text} {left right : Node} {scope : Scope}
      {m m' : Machine σ} {a : Value} (ha : outcome (evaluate context budget left scope) m = (.ok a, m'))
      (h : a.Oversized) :
      TestsOversized context (budget + 1) (.logical position operator left right) scope m
  | second {budget position : Nat} {operator : Text} {left right : Node} {scope : Scope}
      {m m' : Machine σ} {a : Value} {truth : Bool}
      (ha : outcome (evaluate context budget left scope) m = (.ok a, m')) (ht : a.truthy = .ok truth)
      (hs : (truth == (operator == "&&")) = true) (h : TestsOversized context budget right scope m') :
      TestsOversized context (budget + 1) (.logical position operator left right) scope m
  | item {budget position : Nat} {before after : List Node} {node : Node} {scope : Scope}
      {m m' : Machine σ} {values : List Value}
      (hb : outcome (items (evaluate context budget) scope before) m = (.ok values, m'))
      (h : TestsOversized context budget node scope m') :
      TestsOversized context (budget + 1) (.array position (before ++ node :: after)) scope m
  | argument {budget position : Nat} {name : Text} {before after : List Node} {node : Node}
      {scope : Scope} {m m' : Machine σ} {callee : Value} {values : List Value}
      (hl : lookup? context scope name = some callee) (hc : callee.isCallable = true)
      (hb : outcome (arguments context (evaluate context budget) scope before) m = (.ok values, m'))
      (h : TestsOversized context budget node scope m') :
      TestsOversized context (budget + 1) (.call position name (before ++ node :: after)) scope m

section Calls
variable {context : Context σ} {budget position : Nat} {name : Text} {nodes : List Node} {scope : Scope}
  {m m' : Machine σ}

/-- What a call does after its function is found. -/
def applied (context : Context σ) (budget position : Nat) (name : Text) (nodes : List Node)
    (scope : Scope) (callee : Value) : Evaluation σ Value := do
  let values ← arguments context (evaluate context budget) scope nodes
  let outcome ← (call context budget callee values).attempt
  ofResult (callResult name position outcome)

theorem outcome_lookup {v : Value} (h : lookup? context scope name = some v) :
    outcome (lookup context scope name position) m = (.ok v, m) := by
  simp only [lookup, h, outcome_pure]

theorem outcome_evaluate_call {callee : Value} (hl : lookup? context scope name = some callee)
    (hc : callee.isCallable = true) :
    outcome (evaluate context (budget + 1) (.call position name nodes) scope) m =
      outcome (applied context budget position name nodes scope callee) m := by
  rw [evaluate, step, outcome_bind_of_ok (outcome_lookup hl)]
  simp only [hc, Bool.not_true, Bool.false_eq_true, ↓reduceIte]
  rfl

theorem tame_of_not_callable {e : Failure}
    (hl : ∀ callee, lookup? context scope name = some callee → callee.isCallable = false)
    (h : outcome (evaluate context (budget + 1) (.call position name nodes) scope) m =
      (.error e, m')) : Tame e := by
  rw [evaluate, step, outcome_bind_eq_error_iff] at h
  rcases h with h | ⟨callee, u, hcallee, h⟩
  · exact tame_of_lookup h
  · have hc : callee.isCallable = false := by
      unfold lookup at hcallee
      split at hcallee
      · rename_i v hv
        cases hcallee
        exact hl _ hv
      · cases hcallee
    simp only [hc, Bool.not_false, ↓reduceIte] at h
    rw [outcome_bind_of_error (outcome_fail ..)] at h
    cases h
    exact tame_evaluation ..

/-- A call fails with a fault only while its arguments are evaluated. -/
theorem tame_or_arguments_of_applied {callee : Value} {e : Failure}
    (h : outcome (applied context budget position name nodes scope callee) m = (.error e, m')) :
    Tame e ∨ outcome (arguments context (evaluate context budget) scope nodes) m = (.error e, m') := by
  rw [applied, outcome_bind_eq_error_iff] at h
  rcases h with h | ⟨values, u, _, h⟩
  · exact .inr h
  · rw [outcome_bind_of_ok (outcome_attempt ..), outcome_ofResult] at h
    exact .inl (tame_of_callResult (Prod.mk.inj h).1)

end Calls

section Faults
variable {context : Context σ} {budget : Nat} {node : Node} {scope : Scope} {m m' : Machine σ}

/-- A node that tests an oversized integer is no spread. -/
theorem TestsOversized.outcome_argument {e : Failure} (h : TestsOversized context budget node scope m)
    (he : outcome (evaluate context budget node scope) m = (.error e, m')) :
    outcome (Evaluation.argument context (evaluate context budget) scope node) m = (.error e, m') := by
  cases h <;> exact outcome_single_eq_error_iff.mpr he

/-- A test of an oversized integer ends the evaluation. -/
theorem TestsOversized.outcome_eq (h : TestsOversized context budget node scope m) :
    ∃ m', outcome (evaluate context budget node scope) m =
      (.error (.fault .integerTooLargeForFloat), m') := by
  induction h with
  | @negated _ _ _ _ _ m' _ hv h =>
    refine ⟨m', ?_⟩
    rw [evaluate, step, outcome_bind_of_ok hv, outcome_ofResult,
      Operation.unary_eq_fault_iff.mpr ⟨rfl, rfl, h⟩]
  | operand h ih =>
    obtain ⟨m', ih⟩ := ih
    exact ⟨m', by rw [evaluate, step, outcome_bind_of_error ih]⟩
  | left h ih =>
    obtain ⟨m', ih⟩ := ih
    exact ⟨m', by rw [evaluate, step, outcome_bind_of_error ih]⟩
  | right ha h ih =>
    obtain ⟨m', ih⟩ := ih
    exact ⟨m', by rw [evaluate, step, outcome_bind_of_ok ha, outcome_bind_of_error ih]⟩
  | @compared _ _ _ _ _ _ _ _ m'' _ _ ha hb hr h =>
    refine ⟨m'', ?_⟩
    rw [evaluate, step, outcome_bind_of_ok ha, outcome_bind_of_ok hb, outcome_ofResult,
      (Operation.binary_eq_fault_iff (.inr hr)).mpr ⟨hr, rfl, h⟩]
  | first h ih =>
    obtain ⟨m', ih⟩ := ih
    exact ⟨m', by rw [evaluate, step, outcome_bind_of_error ih]⟩
  | @decided _ _ _ _ _ _ _ m' _ ha h =>
    refine ⟨m', ?_⟩
    rw [evaluate, step, outcome_bind_of_ok ha, Value.truthy_eq_error_iff.mpr ⟨rfl, h⟩]
    rfl
  | second ha ht hs h ih =>
    obtain ⟨m', ih⟩ := ih
    refine ⟨m', ?_⟩
    rw [evaluate, step, outcome_bind_of_ok ha, ht, ofFault,
      outcome_bind_of_ok (outcome_ofResult ..), if_pos hs, ih]
  | item hb h ih =>
    obtain ⟨m', ih⟩ := ih
    refine ⟨m', ?_⟩
    rw [items_eq_gather] at hb
    have hn := outcome_single_eq_error_iff.mpr ih
    rw [evaluate, step, items_eq_gather, outcome_bind_of_error (outcome_gather_of_error hb hn)]
  | argument hl hc hb h ih =>
    obtain ⟨m', ih⟩ := ih
    refine ⟨m', ?_⟩
    rw [arguments_eq_gather] at hb
    have hn := h.outcome_argument ih
    rw [outcome_evaluate_call hl hc, applied, arguments_eq_gather,
      outcome_bind_of_error (outcome_gather_of_error hb hn)]

end Faults

/-! ## Evaluations that fail -/

section Steps
variable {context : Context σ} {budget position : Nat} {node : Node}

/-- Whether the evaluation of a node fails without a fault, or by a test of an oversized integer. -/
def Contained (context : Context σ) (budget : Nat) (node : Node) : Prop :=
  ∀ {scope : Scope} {m m' : Machine σ} {e : Failure},
    outcome (evaluate context budget node scope) m = (.error e, m') →
      Tame e ∨ e = .fault .integerTooLargeForFloat ∧ TestsOversized context budget node scope m

theorem contained_array {nodes : List Node} (h : ∀ node ∈ nodes, Contained context budget node) :
    Contained context (budget + 1) (.array position nodes) := by
  intro scope m m' e he
  rw [evaluate, step, outcome_bind_eq_error_iff] at he
  rcases he with he | ⟨values, u, _, he⟩
  · rw [items_eq_gather, outcome_gather_eq_error_iff] at he
    obtain ⟨before, node, after, values, u, rfl, hb, hnode⟩ := he
    rw [outcome_single_eq_error_iff] at hnode
    rw [← items_eq_gather] at hb
    exact (h node (by simp) hnode).imp_right fun hs => ⟨hs.1, .item hb hs.2⟩
  · cases he

theorem contained_call {name : Text} {nodes : List Node}
    (h : ∀ node ∈ nodes, Contained context budget node) :
    Contained context (budget + 1) (.call position name nodes) := by
  intro scope m m' e he
  by_cases hl : ∃ callee, lookup? context scope name = some callee ∧ callee.isCallable = true
  · obtain ⟨callee, hl, hc⟩ := hl
    rw [outcome_evaluate_call hl hc] at he
    rcases tame_or_arguments_of_applied he with ht | he
    · exact .inl ht
    · rw [arguments_eq_gather, outcome_gather_eq_error_iff] at he
      obtain ⟨before, node, after, values, u, rfl, hb, hnode⟩ := he
      rw [← arguments_eq_gather] at hb
      unfold argument at hnode
      split at hnode
      · exact .inl (tame_of_spread hnode)
      · rw [outcome_single_eq_error_iff] at hnode
        exact (h node (by simp) hnode).imp_right fun hs => ⟨hs.1, .argument hl hc hb hs.2⟩
  · refine .inl (tame_of_not_callable (fun callee hcallee => ?_) he)
    exact Bool.eq_false_iff.mpr fun hc => hl ⟨callee, hcallee, hc⟩

theorem contained_unary {operator : Text} {operand : Node} (h : Contained context budget operand) :
    Contained context (budget + 1) (.unary position operator operand) := by
  intro scope m m' e he
  rw [evaluate, step, outcome_bind_eq_error_iff] at he
  rcases he with he | ⟨v, u, hv, he⟩
  · exact (h he).imp_right fun hs => ⟨hs.1, .operand hs.2⟩
  · rw [outcome_ofResult] at he
    have hr := (Prod.mk.inj he).1
    refine (tame_or_fault_of_unary hr).imp_right ?_
    rintro ⟨f, rfl⟩
    obtain ⟨rfl, rfl, ho⟩ := Operation.unary_eq_fault_iff.mp hr
    exact ⟨rfl, .negated hv ho⟩

theorem contained_binary {operator : Text} {left right : Node} (known : Operation.Known operator)
    (hl : Contained context budget left) (hr : Contained context budget right) :
    Contained context (budget + 1) (.binary position operator left right) := by
  intro scope m m' e he
  rw [evaluate, step, outcome_bind_eq_error_iff] at he
  rcases he with he | ⟨a, u, ha, he⟩
  · exact (hl he).imp_right fun hs => ⟨hs.1, .left hs.2⟩
  · rw [outcome_bind_eq_error_iff] at he
    rcases he with he | ⟨b, w, hb, he⟩
    · exact (hr he).imp_right fun hs => ⟨hs.1, .right ha hs.2⟩
    · rw [outcome_ofResult] at he
      have hf := (Prod.mk.inj he).1
      refine (tame_or_fault_of_binary hf).imp_right ?_
      rintro ⟨f, rfl⟩
      obtain ⟨hrel, rfl, hc⟩ := (Operation.binary_eq_fault_iff known).mp hf
      exact ⟨rfl, .compared ha hb hrel hc⟩

theorem contained_logical {operator : Text} {left right : Node} (hl : Contained context budget left)
    (hr : Contained context budget right) :
    Contained context (budget + 1) (.logical position operator left right) := by
  intro scope m m' e he
  rw [evaluate, step, outcome_bind_eq_error_iff] at he
  rcases he with he | ⟨a, u, ha, he⟩
  · exact (hl he).imp_right fun hs => ⟨hs.1, .first hs.2⟩
  · cases ht : a.truthy with
    | error f =>
      rw [ht, ofFault, outcome_bind_of_error (outcome_ofResult ..)] at he
      cases he
      obtain ⟨rfl, ho⟩ := Value.truthy_eq_error_iff.mp ht
      exact .inr ⟨rfl, .decided ha ho⟩
    | ok truth =>
      rw [ht, ofFault, outcome_bind_of_ok (outcome_ofResult ..)] at he
      split at he
      · rename_i hs
        exact (hr he).imp_right fun hw => ⟨hw.1, .second ha ht hs hw.2⟩
      · cases he

/-- An evaluation that fails does so without a fault, or by a test of an oversized integer. -/
theorem contained_of_regular (budget : Nat) (hn : node.Regular) : Contained context budget node := by
  induction budget generalizing node with
  | zero =>
    intro scope m m' e he
    rw [evaluate] at he
    cases he
    exact .inl (.inl rfl)
  | succ budget ih =>
    cases hn with
    | literal =>
      intro scope m m' e he
      rw [evaluate, step] at he
      cases he
    | identifier =>
      intro scope m m' e he
      rw [evaluate, step] at he
      exact .inl (tame_of_lookup he)
    | array hitems => exact contained_array fun node hnode => ih (hitems node hnode)
    | spread =>
      intro scope m m' e he
      rw [evaluate, step, outcome_bind_eq_error_iff] at he
      rcases he with he | ⟨values, u, _, he⟩
      · exact .inl (tame_of_spread he)
      · cases he
    | lambda =>
      intro scope m m' e he
      rw [evaluate, step] at he
      cases he
    | call hnodes => exact contained_call fun node hnode => ih (hnodes node hnode)
    | unary hoperand => exact contained_unary (ih hoperand)
    | binary known hleft hright => exact contained_binary known (ih hleft) (ih hright)
    | logical hleft hright => exact contained_logical (ih hleft) (ih hright)

end Steps

/-! ## Whole expressions -/

theorem settle_tame {source : Option Text} {e : Failure} (h : Tame e) :
    ∃ x, settle source e = .engine (.expression x) := by
  rcases h with rfl | ⟨x, rfl⟩
  · exact ⟨_, rfl⟩
  · exact ⟨_, rfl⟩

theorem exists_of_conclude_eq_error {source : Option Text} {v : Value} {e : Failure}
    (h : conclude source v = .error e) : ∃ x, e = .engine (.expression x) := by
  unfold conclude at h
  split at h
  · rename_i hm
    obtain ⟨w, hw⟩ := Value.exists_normalize hm
    rw [hw] at h
    cases h
  · exact ⟨_, (Except.error.inj h).symm⟩

end Evaluation

namespace Expression

variable {σ : Type} {capacity : Nat} {context : Context σ} {tree : Node} {record : Value}
  {fields : Fields} {source : Option Text} {state : σ}

def leaving (source : Option Text) : Except Failure Value → Except Failure Value
  | .ok v => Evaluation.conclude source v
  | .error e => .error (Evaluation.settle source e)

theorem evaluateTree_eq (hr : record.asFieldsOrNone = .ok fields) :
    (evaluateTree capacity context tree record source state).1 =
      leaving source
        (outcome (Evaluation.evaluate context capacity tree (Evaluation.scopeOf fields)) ⟨state, 0⟩).1 := by
  unfold evaluateTree outcome
  rw [hr]
  dsimp only
  rcases (Evaluation.evaluate context capacity tree (Evaluation.scopeOf fields)).run ⟨state, 0⟩
    with ⟨v | e, m⟩ <;> rfl

/-- The evaluation of a tree fails with an error of the expression, or by a test of an oversized
integer. -/
theorem evaluateTree_eq_error {e : Failure} (ht : tree.Regular)
    (hr : record.asFieldsOrNone = .ok fields)
    (h : (evaluateTree capacity context tree record source state).1 = .error e) :
    (∃ x, e = .engine (.expression x)) ∨ e = .fault .integerTooLargeForFloat ∧
      Evaluation.TestsOversized context capacity tree (Evaluation.scopeOf fields) ⟨state, 0⟩ := by
  unfold evaluateTree at h
  rw [hr] at h
  dsimp only at h
  split at h
  rename_i outcome' machine ho
  split at h
  · exact .inl (Evaluation.exists_of_conclude_eq_error h)
  · rename_i e'
    cases h
    rcases Evaluation.contained_of_regular _ ht ho with htame | ⟨rfl, hto⟩
    · exact .inl (Evaluation.settle_tame htame)
    · exact .inr ⟨rfl, hto⟩

theorem evaluateTree_of_testsOversized (hr : record.asFieldsOrNone = .ok fields)
    (h : Evaluation.TestsOversized context capacity tree (Evaluation.scopeOf fields) ⟨state, 0⟩) :
    (evaluateTree capacity context tree record source state).1 =
      .error (.fault .integerTooLargeForFloat) := by
  obtain ⟨m', hm⟩ := h.outcome_eq
  unfold evaluateTree
  rw [hr]
  dsimp only
  rw [show (Evaluation.evaluate context capacity tree (Evaluation.scopeOf fields)).run ⟨state, 0⟩ = _
    from hm]
  rfl

end Expression
end Vetting
