import Vetting.Proofs.Evaluation.Renaming

/-!
# The machine does not matter

With the built-in functions alone, where lambdas are arguments of calls, the result of a tree does not
depend on the machine that it is evaluated on: neither on the state of the host, which no built-in looks
at, nor on how many closures there are. The closures of two such evaluations have other serial numbers;
but a built-in does not look at these either.
-/

namespace Vetting

/-- An error that is spelled as before is the same. -/
theorem Failure.respell_self (e : Failure) : e.respell (fun _ name => name) = e := by
  cases e with
  | engine error =>
    cases error with
    | expression x =>
      obtain ⟨stage, reason, source, position⟩ := x
      cases reason with
      | evaluation problem => cases position <;> cases problem <;> rfl
      | _ => rfl
    | _ => rfl
  | _ => rfl

/-! ## Closures with other numbers -/

/-- Ground values that are the same, or closures that are the same but for their serial numbers. -/
inductive Value.Renumbered : Value → Value → Prop
  | ground {v : Value} (h : v.isGround = true) : Renumbered v v
  | closure {serial serial' position : Nat} {parameter : Text} {body : Node} {scope : Scope}
      (hbody : body.Placed) (hscope : Evaluation.GroundScope scope) :
      Renumbered (.closure serial position parameter body scope)
        (.closure serial' position parameter body scope)

open Value (Renumbered Same eq_of_forall₂_same)

variable {σ α β : Type} {v w : Value} {vs ws : List Value}

theorem Value.Renumbered.alike (h : Renumbered v w) : v.Alike w := by
  cases h with
  | ground h => exact .ground h
  | closure => exact .closures

theorem Value.Renumbered.isPassable (h : Renumbered v w) : v.isPassable = true := by
  cases h with
  | ground h => exact Value.isPassable_of_isGround h
  | closure => rfl

theorem forall₂_renumbered_of_ground (h : ∀ v ∈ vs, v.isGround = true) :
    List.Forall₂ Renumbered vs vs := List.forall₂_same.mpr fun v hv => .ground (h v hv)

namespace Argument

theorem spread_renumbered (h : List.Forall₂ Renumbered vs ws) :
    List.Forall₂ Renumbered (spread vs) (spread ws) := by
  cases h with
  | nil => exact .nil
  | @cons v w _ _ hv hr =>
    cases hr with
    | nil =>
      cases hv with
      | closure hbody hscope => exact .cons (.closure hbody hscope) .nil
      | ground hground =>
        have hpass := Value.isPassable_of_isGround hground
        cases v with
        | array items => exact forall₂_renumbered_of_ground (Value.isGround_of_mem_items hpass rfl)
        | tuple items => exact forall₂_renumbered_of_ground (Value.isGround_of_mem_items hpass rfl)
        | _ => exact .cons (.ground hground) .nil
    | cons hw hr =>
      rw [spread_cons_cons, spread_cons_cons]
      exact .cons hv (.cons hw hr)

theorem numbersOf_renumbered (function : Text) (h : List.Forall₂ Renumbered vs ws) :
    numbersOf function vs = numbersOf function ws := by
  induction h with
  | nil => rfl
  | @cons v w _ _ hv _ ih =>
    cases hv with
    | closure => rfl
    | ground =>
      cases v with
      | number n => rw [numbersOf, numbersOf, ih]
      | _ => rfl

end Argument

theorem Textual.texts_renumbered (h : List.Forall₂ Renumbered vs ws) : texts vs = texts ws := by
  induction h with
  | nil => rfl
  | cons hv _ ih =>
    cases hv with
    | closure => rw [texts, texts, ih]; rfl
    | ground => rw [texts, texts, ih]

namespace Builtin

/-- A built-in that calls nothing makes the same of closures with other numbers. -/
theorem script_renumbered {b : Builtin} (hb : b ∉ tests) (instant : Int)
    (h : List.Forall₂ Renumbered vs ws) :
    (b.script instant vs : Script σ Value) = b.script instant ws := by
  have hnumbers (function : Text) : Argument.numbers function vs = Argument.numbers function ws :=
    Argument.numbersOf_renumbered function (Argument.spread_renumbered h)
  have htexts := Textual.texts_renumbered (Argument.spread_renumbered h)
  have hnull : Renumbered .null .null := .ground rfl
  have hfirst : Renumbered (vs.headD .null) (ws.headD .null) := by
    cases h with
    | nil => exact hnull
    | cons hv _ => exact hv
  have hsecond := forall₂_getD h hnull 1
  rw [script, script, h.length_eq]
  split
  · rfl
  · unfold body
    generalize vs.headD .null = v at hfirst
    generalize ws.headD .null = w at hfirst
    generalize vs.getD 1 .null = v' at hsecond
    generalize ws.getD 1 .null = w' at hsecond
    cases b with
    | filter | any | all => exact absurd (by decide) hb
    | sum => simp only [Numeric.sum, hnumbers]
    | avg => simp only [Numeric.avg, Numeric.onNumbers, hnumbers]
    | max => simp only [Numeric.max, Numeric.onNumbers, hnumbers]
    | min => simp only [Numeric.min, Numeric.onNumbers, hnumbers]
    | concat => simp only [Textual.concat, htexts]
    | daysBetween => cases hfirst <;> cases hsecond <;> rfl
    | _ => cases hfirst <;> rfl

end Builtin

namespace Evaluation

variable {good : α → α → Prop} {also : β → β → Prop}

/-! ## Computations -/

/-- Computations that have the same error or good values, whatever machines they start from. -/
def Coincide (good : α → α → Prop) (c c' : Evaluation σ α) : Prop :=
  ∀ m m', SameResult good (outcome c m).1 (outcome c' m').1

theorem coincide_ofResult {r r' : Except Failure α} (h : SameResult good r r') :
    Coincide good (ofResult r : Evaluation σ α) (ofResult r') := fun _ _ => h

theorem coincide_pure {a b : α} (h : good a b) : Coincide good (pure a : Evaluation σ α) (pure b) :=
  coincide_ofResult (.ok h)

theorem coincide_throw (e : Failure) : Coincide good (throw e : Evaluation σ α) (throw e) :=
  coincide_ofResult (.error e)

theorem coincide_fail (problem : EvaluationProblem) (position : Nat) :
    Coincide good (fail problem position : Evaluation σ α) (fail problem position) := coincide_throw _

theorem Coincide.bind {c c' : Evaluation σ α} {next next' : α → Evaluation σ β} (h : Coincide good c c')
    (hn : ∀ a b, good a b → Coincide also (next a) (next' b)) :
    Coincide also (c >>= next) (c' >>= next') := by
  intro m m'
  have hc := h m m'
  rw [outcome_bind, outcome_bind]
  generalize outcome c m = x at hc ⊢
  generalize outcome c' m' = x' at hc ⊢
  obtain ⟨r, u⟩ := x
  obtain ⟨r', u'⟩ := x'
  dsimp only at hc
  cases hc with
  | ok hab => exact hn _ _ hab u u'
  | error e => exact .error e

theorem Coincide.attempt {c c' : Evaluation σ α} (h : Coincide good c c') :
    Coincide (SameResult good) c.attempt c'.attempt := fun m m' => .ok (h m m')

theorem Coincide.mono {good' : α → α → Prop} {c c' : Evaluation σ α} (h : Coincide good c c')
    (hg : ∀ a b, good a b → good' a b) : Coincide good' c c' := by
  intro m m'
  have hc := h m m'
  generalize (outcome c m).1 = r at hc ⊢
  generalize (outcome c' m').1 = r' at hc ⊢
  cases hc with
  | ok hab => exact .ok (hg _ _ hab)
  | error e => exact .error e

theorem sameResult_ground {r : Except Failure Value} (h : ∀ v, r = .ok v → v.isGround = true) :
    SameResult Same r r := by
  cases r with
  | ok v => exact .ok ⟨rfl, h v rfl⟩
  | error e => exact .error e

/-- The runs of scripts that do the same coincide, if the calls of their callees do. -/
theorem coincide_run {call : Value → List Value → Evaluation σ Value} {callee callee' : Value}
    (hcall : ∀ x, x.isGround = true → Coincide Same (call callee [x]) (call callee' [x]))
    {script script' : Script σ α}
    (h : Script.Echoes (fun _ name => name) callee callee' good script script') :
    Coincide good (script.run call) (script'.run call) := by
  induction h with
  | done h => exact coincide_pure h
  | failed e =>
    rw [e.respell_self]
    exact coincide_throw e
  | @call x resume resume' hx _ ih =>
    rw [Script.run, Script.run]
    refine (hcall x hx).attempt.bind fun r r' hr => ?_
    cases hr with
    | ok hv =>
      obtain ⟨rfl, _⟩ := hv
      exact ih (.ok _)
    | error e =>
      have hresume := ih (.error e)
      rw [Except.mapError, e.respell_self] at hresume
      cases e with
      | exhausted => exact coincide_throw .exhausted
      | _ => exact hresume

/-! ## Nodes -/

variable {context : Context σ} {scope : Scope} {budget : Nat}

/-- Whether a placed tree has the same result on any machine within a budget. -/
def NodesCoincide (context : Context σ) (budget : Nat) : Prop :=
  ∀ node scope, node.Placed → GroundScope scope →
    Coincide Same (evaluate context budget node scope) (evaluate context budget node scope)

/-- Whether built-ins return the same for closures with other numbers within a budget. -/
def BuiltinsCoincide (context : Context σ) (budget : Nat) : Prop :=
  ∀ b vs ws, List.Forall₂ Renumbered vs ws →
    Coincide Same (call context budget (.builtin b) vs) (call context budget (.builtin b) ws)

/-- Whether what built-ins are given returns the same within a budget. -/
def PassedCoincide (context : Context σ) (budget : Nat) : Prop :=
  ∀ v w x, Renumbered v w → x.isGround = true →
    Coincide Same (call context budget v [x]) (call context budget w [x])

section Nodes
variable (hf : GroundScope context.functions) (hs : GroundScope scope)
include hf hs

theorem coincide_lookup (name : Text) (position : Nat) :
    Coincide Same (lookup context scope name position) (lookup context scope name position) := by
  unfold lookup
  cases hv : lookup? context scope name with
  | none => exact coincide_fail _ _
  | some v => exact coincide_pure ⟨rfl, lookup?_of_forall (·.isGround = true) hs hf hv⟩

theorem coincide_spread (name : Text) (position : Nat) :
    Coincide (List.Forall₂ Same) (spread context scope name position)
      (spread context scope name position) := by
  refine (coincide_lookup hf hs name position).bind fun v w hv => ?_
  obtain ⟨rfl, hground⟩ := hv
  cases hi : v.items? with
  | none => exact coincide_fail _ _
  | some items =>
    have hitems := Value.isGround_of_mem_items (Value.isPassable_of_isGround hground) hi
    exact coincide_pure (List.forall₂_same.mpr fun item hitem => ⟨rfl, hitems item hitem⟩)

omit hf hs in
theorem coincide_gather {values : Node → Evaluation σ (List Value)} {good : Value → Value → Prop}
    {nodes : List Node} (h : ∀ node ∈ nodes, Coincide (List.Forall₂ good) (values node) (values node)) :
    Coincide (List.Forall₂ good) (gather values nodes) (gather values nodes) := by
  induction nodes with
  | nil => exact coincide_pure .nil
  | cons node rest ih =>
    obtain ⟨hfirst, hothers⟩ := List.forall_mem_cons.mp h
    exact hfirst.bind fun _ _ hv => (ih hothers).bind fun _ _ hvs => coincide_pure (List.rel_append hv hvs)

variable (hnodes : NodesCoincide context budget)
include hnodes

omit hf in
theorem coincide_single {node : Node} (hp : node.Placed) :
    Coincide (List.Forall₂ Same) (single (evaluate context budget) scope node)
      (single (evaluate context budget) scope node) :=
  (hnodes node scope hp hs).bind fun _ _ hv => coincide_pure (.cons hv .nil)

theorem coincide_arguments {nodes : List Node} (hp : ∀ node ∈ nodes, node.PlacedArgument) :
    Coincide (List.Forall₂ Renumbered) (arguments context (evaluate context budget) scope nodes)
      (arguments context (evaluate context budget) scope nodes) := by
  have hground {vs ws : List Value} (h : List.Forall₂ Same vs ws) : List.Forall₂ Renumbered vs ws :=
    h.imp fun _ _ ⟨heq, h⟩ => heq ▸ .ground h
  rw [arguments_eq_gather]
  refine coincide_gather fun node hmem => ?_
  cases hp node hmem with
  | spread => exact (coincide_spread hf hs _ _).mono fun _ _ => hground
  | @lambda position parameter body hbody =>
    have hclosure : Coincide Renumbered (evaluate context budget (.lambda position parameter body) scope)
        (evaluate context budget (.lambda position parameter body) scope) := by
      cases budget with
      | zero => exact coincide_throw .exhausted
      | succ budget => exact fun m m' => .ok (.closure hbody hs)
    exact hclosure.bind fun _ _ hv => coincide_pure (.cons hv .nil)
  | ofPlaced hplaced =>
    rw [argument_of_placed hplaced]
    exact (coincide_single hs hnodes hplaced).mono fun _ _ => hground

end Nodes

theorem sameResult_callResult (name : Text) (position : Nat) {r r' : Except Failure Value}
    (h : SameResult Same r r') : SameResult Same (callResult name position r) (callResult name position r') := by
  cases h with
  | error e => exact .error _
  | ok hv =>
    obtain ⟨rfl, hground⟩ := hv
    unfold callResult
    dsimp only
    split
    · exact .ok ⟨rfl, isGround_untuple hground⟩
    · exact .error _

/-- A node has one result, if the nodes inside it have and calls of built-ins do. -/
theorem nodesCoincide_succ (hf : GroundScope context.functions) (hnodes : NodesCoincide context budget)
    (hcalls : BuiltinsCoincide context budget) : NodesCoincide context (budget + 1) := by
  intro node scope hp hs
  cases hp with
  | literal hv => exact coincide_pure ⟨rfl, hv⟩
  | identifier => exact coincide_lookup hf hs _ _
  | @array position nodes hp =>
    have hitems : Coincide (List.Forall₂ Same) (items (evaluate context budget) scope nodes)
        (items (evaluate context budget) scope nodes) := by
      rw [items_eq_gather]
      exact coincide_gather fun node hmem => coincide_single hs hnodes (hp node hmem)
    refine hitems.bind fun vs ws hv => ?_
    obtain ⟨rfl, hground⟩ := eq_of_forall₂_same hv
    exact coincide_pure ⟨rfl, Value.isGround_array_iff.mpr hground⟩
  | @call position name nodes hp =>
    rw [evaluate, step]
    refine (coincide_lookup hf hs name position).bind fun callee _ hcallee => ?_
    obtain ⟨rfl, hground⟩ := hcallee
    cases hcallable : callee.isCallable with
    | false => exact coincide_fail _ _
    | true =>
      obtain ⟨b, rfl⟩ := exists_builtin_of_isCallable hground hcallable
      refine (coincide_arguments hf hs hnodes hp).bind fun vs ws hv => ?_
      refine (hcalls b vs ws hv).attempt.bind fun r r' hr => ?_
      exact coincide_ofResult (sameResult_callResult name position hr)
  | unary hp =>
    refine (hnodes _ scope hp hs).bind fun v w hv => ?_
    obtain ⟨rfl, _⟩ := hv
    exact coincide_ofResult (sameResult_ground fun _ => Operation.isGround_unary)
  | binary hl hr =>
    refine (hnodes _ scope hl hs).bind fun a a' ha => (hnodes _ scope hr hs).bind fun b b' hb => ?_
    obtain ⟨rfl, _⟩ := ha
    obtain ⟨rfl, _⟩ := hb
    exact coincide_ofResult (sameResult_ground fun _ => Operation.isGround_binary)
  | @logical position operator left right hl hr =>
    refine (hnodes _ scope hl hs).bind fun v w hv => ?_
    obtain ⟨rfl, hground⟩ := hv
    have htruth : Coincide Eq (ofResult (ofFault v.truthy) : Evaluation σ Bool) (ofResult (ofFault v.truthy)) :=
      coincide_ofResult (.refl (fun _ => rfl) _)
    refine htruth.bind fun truth _ htruth => ?_
    subst htruth
    split
    · exact hnodes _ scope hr hs
    · exact coincide_pure ⟨rfl, hground⟩

/-! ## Calls -/

theorem builtinsCoincide_succ (h : PassedCoincide context budget) :
    BuiltinsCoincide context (budget + 1) := by
  intro b vs ws hv
  rw [call, call]
  by_cases hb : b ∈ Builtin.tests
  · have halike : List.Forall₂ Value.Alike vs ws := hv.imp fun _ _ => Value.Renumbered.alike
    have hsecond := forall₂_getD hv (.ground rfl) 1
    exact coincide_run (fun x hx => h _ _ x hsecond hx) (Builtin.echoes_script_of_mem_tests hb _ halike)
  · obtain ⟨r, hr⟩ : ∃ r, (b.script context.host.instant vs : Script σ Value) = .ofResult r :=
      Builtin.exists_result_of_not_mem_tests hb _ vs
    have hpass : ∀ v ∈ vs, v.isPassable = true :=
      ((List.forall₂_and_left vs ws).mp (hv.imp fun _ _ h => ⟨h.isPassable, h⟩)).1
    have hconfined : Script.Confined vs.tail (·.isGround = true)
        (b.script context.host.instant vs : Script σ Value) := Builtin.confined_script hpass
    rw [← Builtin.script_renumbered hb _ hv, hr]
    rw [hr] at hconfined
    refine coincide_ofResult (sameResult_ground fun v hv => ?_)
    obtain rfl := ofFault_eq_ok_iff.mp hv
    cases hconfined with
    | done hv => exact hv

theorem passedCoincide_succ (hnodes : NodesCoincide context budget)
    (hcalls : BuiltinsCoincide context (budget + 1)) : PassedCoincide context (budget + 1) := by
  intro v w x h hx
  cases h with
  | closure hbody hscope => exact hnodes _ _ hbody (List.forall_mem_cons.mpr ⟨hx, hscope⟩)
  | ground hv =>
    cases v with
    | builtin b => exact hcalls b [x] [x] (.cons (.ground hx) .nil)
    | host | closure => cases hv
    | _ => exact coincide_throw (.fault (.notCallable _))

theorem nodes_and_calls_coincide (hf : GroundScope context.functions) (budget : Nat) :
    NodesCoincide context budget ∧ BuiltinsCoincide context budget ∧ PassedCoincide context budget := by
  induction budget with
  | zero =>
    refine ⟨?_, ?_, ?_⟩
    · exact fun _ _ _ _ => coincide_throw .exhausted
    · exact fun _ _ _ _ => coincide_throw .exhausted
    · exact fun _ _ _ _ _ => coincide_throw .exhausted
  | succ budget ih =>
    obtain ⟨hnodes, hcalls, hpassed⟩ := ih
    have hcalls' : BuiltinsCoincide context (budget + 1) := builtinsCoincide_succ hpassed
    exact ⟨nodesCoincide_succ hf hnodes hcalls, hcalls', passedCoincide_succ hnodes hcalls'⟩

/-- With the built-in functions alone, the result of a tree does not depend on the machine. -/
theorem result_eq_of_placed (hf : GroundScope context.functions) {node : Node} (hp : node.Placed)
    (hs : GroundScope scope) (budget : Nat) (m m' : Machine σ) :
    (outcome (evaluate context budget node scope) m).1 =
      (outcome (evaluate context budget node scope) m').1 := by
  have h := (nodes_and_calls_coincide hf budget).1 node scope hp hs m m'
  generalize (outcome (evaluate context budget node scope) m).1 = r at h ⊢
  generalize (outcome (evaluate context budget node scope) m').1 = r' at h ⊢
  cases h with
  | ok hv => rw [hv.1]
  | error e => rfl

end Evaluation

end Vetting
