import Vetting.Proofs.Expression.Renaming
import Vetting.Proofs.Function.Conduct

/-!
# Built-ins that are given other closures

A built-in that is given a closure in the place of another one calls it in the same places, with the
same values. If the two return the same values, and fail with errors that differ only in the names
that they quote, so does the built-in. It must be one that calls predicates: others may show a closure
that they are given, and so its parameter.
-/

namespace Vetting

variable {σ α β : Type} {f : Nat → Text → Text} {callee callee' : Value} {good : α → α → Prop}
  {also : β → β → Prop}

/-! ## Values -/

/-- Ground values that are the same, or closures. -/
inductive Value.Alike : Value → Value → Prop
  | ground {v : Value} (h : v.isGround = true) : Alike v v
  | closures {serial serial' position position' : Nat} {parameter parameter' : Text}
      {body body' : Node} {s t : Scope} :
      Alike (.closure serial position parameter body s) (.closure serial' position' parameter' body' t)

/-- Values that are the same and ground. -/
def Value.Same (v w : Value) : Prop := v = w ∧ v.isGround = true

theorem Value.eq_of_forall₂_same {vs ws : List Value} (h : List.Forall₂ Same vs ws) :
    vs = ws ∧ ∀ v ∈ vs, v.isGround = true := by
  induction h with
  | nil => exact ⟨rfl, List.forall_mem_nil _⟩
  | cons hv _ ih =>
    obtain ⟨rfl, hground⟩ := hv
    obtain ⟨rfl, hrest⟩ := ih
    exact ⟨rfl, List.forall_mem_cons.mpr ⟨hground, hrest⟩⟩

theorem Value.same_array {vs ws : List Value} (h : List.Forall₂ Same vs ws) : Same (array vs) (array ws) := by
  obtain ⟨rfl, hground⟩ := eq_of_forall₂_same h
  exact ⟨rfl, isGround_array_iff.mpr hground⟩

/-- Corresponding arguments, where those that are missing are null. -/
theorem forall₂_getD {related : Value → Value → Prop} {vs ws : List Value}
    (h : List.Forall₂ related vs ws) (hnull : related .null .null) (i : Nat) :
    related (vs.getD i .null) (ws.getD i .null) := by
  induction h generalizing i with
  | nil => exact hnull
  | cons hv _ ih =>
    cases i with
    | zero => exact hv
    | succ i => exact ih i

/-! ## Scripts -/

/-- Scripts that call two callees with the same ground values, go on alike when these return the same
value or fail with errors that differ in their spelling, and end with good results or such errors. -/
inductive Script.Echoes (f : Nat → Text → Text) (callee callee' : Value) (good : α → α → Prop) :
    Script σ α → Script σ α → Prop
  | done {a b : α} (h : good a b) : Echoes f callee callee' good (.finish (.ok a)) (.finish (.ok b))
  | failed (e : Failure) :
      Echoes f callee callee' good (.finish (.error e)) (.finish (.error (e.respell f)))
  | call {x : Value} {resume resume' : Except Failure Value → Script σ α} (hx : x.isGround = true)
      (hr : ∀ r, Echoes f callee callee' good (resume r) (resume' (r.mapError (Failure.respell f)))) :
      Echoes f callee callee' good (.call callee [x] resume) (.call callee' [x] resume')

namespace Script

theorem Echoes.bind {first first' : Script σ α} {next next' : α → Script σ β}
    (h : Echoes f callee callee' good first first')
    (hn : ∀ a b, good a b → Echoes f callee callee' also (next a) (next' b)) :
    Echoes f callee callee' also (first.bind next) (first'.bind next') := by
  induction h with
  | done h => exact hn _ _ h
  | failed e => exact .failed e
  | call hx _ ih => exact .call hx ih

theorem compositional_echoes (f : Nat → Text → Text) (callee callee' : Value) :
    @Compositional σ fun good script script' => Echoes f callee callee' good script script' where
  done h := .done h
  bind h hn := h.bind hn

theorem echoes_ofResult {r r' : Except Fault α} (h : SameResult good r r') :
    Echoes f callee callee' good (ofResult r : Script σ α) (ofResult r') := by
  cases h with
  | ok h => exact .done h
  | error e => exact .failed (.fault e)

end Script

/-! ## Functions on arrays -/

namespace Collection

open Script (Echoes echoes_ofResult compositional_echoes)

variable {v w predicate predicate' item : Value}

theorem echoes_holds (h : Value.Same v w) :
    Echoes f predicate predicate' Eq (holds predicate v : Script σ Bool) (holds predicate' w) := by
  obtain ⟨rfl, hv⟩ := h
  have happly : Echoes f predicate predicate' Eq (Script.apply predicate [v] : Script σ Value)
      (Script.apply predicate' [v]) := by
    refine .call hv fun r => ?_
    cases r with
    | ok v => exact .done rfl
    | error e => exact .failed e
  refine happly.bind fun verdict _ h => ?_
  subst h
  exact echoes_ofResult (.refl (fun _ => rfl) _)

theorem sameResult_array (function : Text) (h : v.Alike w) :
    SameResult (List.Forall₂ Value.Same) (Argument.array function v) (Argument.array function w) := by
  cases h with
  | closures => exact .error _
  | ground h =>
    cases hitems : Argument.array function v with
    | error f => exact .error f
    | ok items =>
      have hground := Value.isGround_of_mem_items (Value.isPassable_of_isGround h) (items?_of_array hitems)
      exact .ok (List.forall₂_same.mpr fun item hitem => ⟨rfl, hground item hitem⟩)

theorem sameResult_predicate (function : Text) (h : predicate.Alike predicate') :
    SameResult (fun p p' => p = predicate ∧ p' = predicate') (Argument.predicate function predicate)
      (Argument.predicate function predicate') := by
  cases h with
  | closures => exact .ok ⟨rfl, rfl⟩
  | ground h =>
    unfold Argument.predicate
    split
    · exact .ok ⟨rfl, rfl⟩
    · exact .error _

theorem sameResult_testOf (f : Nat → Text → Text) (function : Text)
    (h : predicate.Alike predicate') :
    SameResult (fun test test' => ∀ v w, Value.Same v w →
        Echoes f predicate predicate' Eq (test v : Script σ Bool) (test' w))
      (testOf function predicate) (testOf function predicate') := by
  have hgiven : SameResult (fun test test' => ∀ v w, Value.Same v w →
        Echoes f predicate predicate' Eq (test v : Script σ Bool) (test' w))
      (holds <$> Argument.predicate function predicate)
      (holds <$> Argument.predicate function predicate') := by
    refine (sameResult_predicate function h).bind ?_
    rintro _ _ ⟨rfl, rfl⟩
    exact .ok fun v w hvw => echoes_holds hvw
  cases h with
  | closures => exact hgiven
  | ground h =>
    cases predicate with
    | null =>
      refine .ok fun v w hvw => ?_
      obtain ⟨rfl, _⟩ := hvw
      exact echoes_ofResult (.refl (fun _ => rfl) _)
    | _ => exact hgiven

variable (hv : v.Alike w) (hp : predicate.Alike predicate')
include hv hp

theorem echoes_filter :
    Echoes f predicate predicate' Value.Same (filter v predicate : Script σ Value)
      (filter w predicate') := by
  refine (compositional_echoes f predicate predicate').filter
    (echoes_ofResult (sameResult_predicate "filter" hp))
    (echoes_ofResult (sameResult_array "filter" hv)) ?_ fun _ _ hk => Value.same_array hk
  rintro _ _ ⟨rfl, rfl⟩ v w hvw
  exact echoes_holds hvw

theorem echoes_any :
    Echoes f predicate predicate' Value.Same (any v predicate : Script σ Value) (any w predicate') :=
  (compositional_echoes f predicate predicate').any (fun _ => ⟨rfl, rfl⟩)
    (echoes_ofResult (sameResult_array "any" hv)) (echoes_ofResult (sameResult_testOf f "any" hp))

theorem echoes_all :
    Echoes f predicate predicate' Value.Same (all v predicate : Script σ Value) (all w predicate') :=
  (compositional_echoes f predicate predicate').all (fun _ => ⟨rfl, rfl⟩)
    (echoes_ofResult (sameResult_array "all" hv)) (echoes_ofResult (sameResult_testOf f "all" hp))

end Collection

/-! ## Built-in functions -/

namespace Builtin

open Script (Echoes)

variable {arguments arguments' : List Value}

/-- A built-in that calls a predicate can tell closures apart by calling them only. -/
theorem echoes_script_of_mem_tests {b : Builtin} (hb : b ∈ tests) (instant : Int)
    (h : List.Forall₂ Value.Alike arguments arguments') :
    Echoes f (arguments.getD 1 .null) (arguments'.getD 1 .null) Value.Same
      (b.script instant arguments : Script σ Value) (b.script instant arguments') := by
  have hfirst : (arguments.headD .null).Alike (arguments'.headD .null) := by
    cases h with
    | nil => exact .ground rfl
    | cons hv _ => exact hv
  have hsecond : (arguments.getD 1 .null).Alike (arguments'.getD 1 .null) :=
    forall₂_getD h (.ground rfl) 1
  rw [script, script, h.length_eq]
  split
  · exact .failed (.fault _)
  · cases b with
    | filter => exact Collection.echoes_filter hfirst hsecond
    | any => exact Collection.echoes_any hfirst hsecond
    | all => exact Collection.echoes_all hfirst hsecond
    | _ => simp [tests] at hb

/-- Any other built-in calls nothing. -/
theorem exists_result_of_not_mem_tests {b : Builtin} (hb : b ∉ tests) (instant : Int)
    (arguments : List Value) :
    ∃ r, (b.script instant arguments : Script σ Value) = .ofResult r := by
  unfold script
  split
  · exact ⟨.error _, rfl⟩
  · cases b with
    | filter | any | all => exact absurd (by decide) hb
    | isEmpty | isString | isBoolean | isArray | now => exact ⟨.ok _, rfl⟩
    | _ => exact ⟨_, rfl⟩

theorem echoes_script_of_isGround (b : Builtin) (instant : Int)
    (h : ∀ v ∈ arguments, v.isGround = true) :
    Echoes f (arguments.getD 1 .null) (arguments.getD 1 .null) Value.Same
      (b.script instant arguments : Script σ Value) (b.script instant arguments) := by
  by_cases hb : b ∈ tests
  · refine echoes_script_of_mem_tests hb instant (List.forall₂_same.mpr fun v hv => ?_)
    exact .ground (h v hv)
  · obtain ⟨r, hr⟩ : ∃ r, (b.script instant arguments : Script σ Value) = .ofResult r :=
      exists_result_of_not_mem_tests hb instant arguments
    have hconfined : Script.Confined arguments.tail (·.isGround = true)
        (b.script instant arguments : Script σ Value) :=
      confined_script fun v hv => Value.isPassable_of_isGround (h v hv)
    rw [hr] at hconfined ⊢
    cases r with
    | error e => exact .failed (.fault e)
    | ok v =>
      cases hconfined with
      | done hv => exact .done ⟨rfl, hv⟩

end Builtin

end Vetting
