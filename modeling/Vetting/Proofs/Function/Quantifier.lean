import Vetting.Function.Collection
import Vetting.Proofs.Outcome

/-!
# Runs of predicates

`filter`, `any` and `all` run a predicate on one element after the other. If the predicate has one verdict
for each element, they do what the verdicts say: a failure ends all three, and a verdict that decides ends
`any` and `all` before. `all` is `any` of the opposite verdicts, the other way round.
-/

namespace Vetting

variable {ε σ α β : Type}

/-! ## Verdicts -/

section Verdicts
variable {verdict : α → Except ε Bool} {x : α} {rest items : List α} {e : ε} {b : Bool}

theorem anyM_cons_of_error (h : verdict x = .error e) : (x :: rest).anyM verdict = .error e := by
  rw [List.anyM, h]
  rfl

theorem anyM_cons_of_ok (h : verdict x = .ok b) :
    (x :: rest).anyM verdict = if b then .ok true else rest.anyM verdict := by
  rw [List.anyM, h]
  cases b <;> rfl

theorem allM_cons_of_error (h : verdict x = .error e) : (x :: rest).allM verdict = .error e := by
  rw [List.allM, h]
  rfl

theorem allM_cons_of_ok (h : verdict x = .ok b) :
    (x :: rest).allM verdict = if b then rest.allM verdict else .ok false := by
  rw [List.allM, h]
  cases b <;> rfl

theorem anyM_eq_true_iff :
    items.anyM verdict = .ok true ↔ ∃ before x after, items = before ++ x :: after ∧
      verdict x = .ok true ∧ ∀ y ∈ before, ∃ b, verdict y = .ok b := by
  induction items with
  | nil =>
    constructor
    · nofun
    · rintro ⟨before, x, after, h, _⟩
      cases before <;> cases h
  | cons x rest ih =>
    constructor
    · intro h
      cases hx : verdict x with
      | error e => rw [anyM_cons_of_error hx] at h; cases h
      | ok b =>
        rw [anyM_cons_of_ok hx] at h
        cases b with
        | true => exact ⟨[], x, rest, rfl, hx, List.forall_mem_nil _⟩
        | false =>
          obtain ⟨before, y, after, rfl, hy, hbefore⟩ := ih.mp h
          exact ⟨x :: before, y, after, rfl, hy, List.forall_mem_cons.mpr ⟨⟨false, hx⟩, hbefore⟩⟩
    · rintro ⟨before, y, after, h, hy, hbefore⟩
      cases before with
      | nil =>
        cases h
        rw [anyM_cons_of_ok hy, if_pos rfl]
      | cons z before =>
        cases h
        obtain ⟨⟨b, hx⟩, hbefore⟩ := List.forall_mem_cons.mp hbefore
        rw [anyM_cons_of_ok hx, ih.mpr ⟨before, y, after, rfl, hy, hbefore⟩, ite_self]

theorem anyM_eq_false_iff : items.anyM verdict = .ok false ↔ ∀ x ∈ items, verdict x = .ok false := by
  induction items with
  | nil => exact ⟨fun _ => List.forall_mem_nil _, fun _ => rfl⟩
  | cons x rest ih =>
    rw [List.forall_mem_cons, ← ih]
    cases hx : verdict x with
    | error e =>
      rw [anyM_cons_of_error hx]
      exact ⟨nofun, nofun⟩
    | ok b =>
      rw [anyM_cons_of_ok hx]
      cases b with
      | true => exact ⟨nofun, nofun⟩
      | false => exact ⟨fun h => ⟨rfl, h⟩, And.right⟩

/-- The elements with a positive verdict; the first verdict that fails is the result otherwise. -/
def retain (verdict : α → Except ε Bool) : List α → Except ε (List α)
  | [] => .ok []
  | x :: rest => do
    let kept ← verdict x
    let others ← retain verdict rest
    return if kept then x :: others else others

theorem retain_eq_filter {truth : α → Bool} (h : ∀ x ∈ items, verdict x = .ok (truth x)) :
    retain verdict items = .ok (items.filter truth) := by
  induction items with
  | nil => rfl
  | cons x rest ih =>
    obtain ⟨hx, hrest⟩ := List.forall_mem_cons.mp h
    rw [retain, hx, ih hrest, List.filter_cons]
    rfl

theorem exists_retain_eq_error (h : ∃ x ∈ items, ∃ e, verdict x = .error e) :
    ∃ e, retain verdict items = .error e := by
  induction items with
  | nil =>
    obtain ⟨x, hx, _⟩ := h
    cases hx
  | cons x rest ih =>
    rw [retain]
    cases hx : verdict x with
    | error e => exact ⟨e, rfl⟩
    | ok b =>
      obtain ⟨y, hy, e, he⟩ := h
      rcases List.mem_cons.mp hy with rfl | hy
      · rw [hx] at he
        cases he
      · obtain ⟨e, he⟩ := ih ⟨y, hy, e, he⟩
        rw [he]
        exact ⟨e, rfl⟩

/-- Some element has the opposite verdict unless every element has the verdict, failures included. -/
theorem anyM_not : (items.anyM fun x => (verdict x).map not) = (items.allM verdict).map not := by
  induction items with
  | nil => rfl
  | cons x rest ih =>
    cases hx : verdict x with
    | error e =>
      rw [allM_cons_of_error hx]
      exact anyM_cons_of_error (congrArg (Except.map not) hx)
    | ok b =>
      have hcons : ((x :: rest).anyM fun x => (verdict x).map not) =
          if !b then .ok true else rest.anyM fun x => (verdict x).map not :=
        anyM_cons_of_ok (congrArg (Except.map not) hx)
      rw [allM_cons_of_ok hx, hcons, ih]
      cases b <;> rfl

end Verdicts

/-! ## Runs of scripts -/

section Runs
variable {call : Value → List Value → Evaluation σ Value}

/-- A script that goes on with the result of another one is run after it. -/
theorem outcome_run_bind (first : Script σ α) (next : α → Script σ β) (m : Machine σ) :
    outcome ((first.bind next).run call) m =
      proceed (fun a => (next a).run call) (outcome (first.run call) m) := by
  induction first generalizing m with
  | finish r => cases r <;> rfl
  | call callee arguments resume ih =>
    rw [Script.bind, Script.run, Script.run, outcome_bind_of_ok (Evaluation.outcome_attempt ..),
      outcome_bind_of_ok (Evaluation.outcome_attempt ..)]
    cases (outcome (call callee arguments) m).1 with
    | ok v => exact ih _ _
    | error e =>
      cases e with
      | exhausted => rfl
      | _ => exact ih _ _
  | read resume ih => exact ih m.state m
  | write state rest ih => exact ih _

theorem outcome_run_apply (callee : Value) (arguments : List Value) (m : Machine σ) :
    outcome ((Script.apply callee arguments).run call) m = outcome (call callee arguments) m := by
  rw [Script.apply, Script.run, outcome_bind_of_ok (Evaluation.outcome_attempt ..)]
  rcases outcome (call callee arguments) m with ⟨(_ | _ | _) | v, t⟩ <;> rfl

theorem result_proceed {f : α → Evaluation σ β} {r : α → Except Failure β} (h : ∀ a m, (outcome (f a) m).1 = r a)
    (o : Except Failure α × Machine σ) : (proceed f o).1 = o.1 >>= r := by
  rcases o with ⟨e | a, m⟩
  · rfl
  · exact h a m

/-- What a script does with the result of another one, if that does not depend on the machine. -/
theorem result_run_bind {first : Script σ α} {next : α → Script σ β} {r : α → Except Failure β}
    (h : ∀ a m, (outcome ((next a).run call) m).1 = r a) (m : Machine σ) :
    (outcome ((first.bind next).run call) m).1 = (outcome (first.run call) m).1 >>= r := by
  rw [outcome_run_bind, result_proceed h]

end Runs

namespace Collection

variable {call : Value → List Value → Evaluation σ Value} {predicate x : Value}

/-- The verdict of a predicate is the truth of what it returns. -/
theorem result_run_holds (m : Machine σ) :
    (outcome ((holds predicate x).run call) m).1 =
      (outcome (call predicate [x]) m).1 >>= fun v => ofFault v.truthy := by
  rw [← outcome_run_apply]
  exact result_run_bind (fun _ _ => rfl) m

section Tests
variable {test : Value → Script σ Bool} {verdict : Value → Except Failure Bool} {items : List Value}
  (ht : ∀ x ∈ items, ∀ m, (outcome ((test x).run call) m).1 = verdict x)
include ht

theorem result_run_someOf (m : Machine σ) :
    (outcome ((someOf test items).run call) m).1 = items.anyM verdict := by
  induction items generalizing m with
  | nil => rfl
  | cons x rest ih =>
    obtain ⟨hx, hrest⟩ := List.forall_mem_cons.mp ht
    have hnext (b : Bool) (m : Machine σ) :
        (outcome ((if b then pure true else someOf test rest : Script σ Bool).run call) m).1 =
          if b then .ok true else rest.anyM verdict := by
      cases b with
      | true => rfl
      | false => exact ih hrest m
    rw [someOf, Script.bind_eq, result_run_bind hnext, hx]
    cases hv : verdict x with
    | error e => exact (anyM_cons_of_error hv).symm
    | ok b => exact (anyM_cons_of_ok hv).symm

theorem result_run_everyOf (m : Machine σ) :
    (outcome ((everyOf test items).run call) m).1 = items.allM verdict := by
  induction items generalizing m with
  | nil => rfl
  | cons x rest ih =>
    obtain ⟨hx, hrest⟩ := List.forall_mem_cons.mp ht
    have hnext (b : Bool) (m : Machine σ) :
        (outcome ((if b then everyOf test rest else pure false : Script σ Bool).run call) m).1 =
          if b then rest.allM verdict else .ok false := by
      cases b with
      | true => exact ih hrest m
      | false => rfl
    rw [everyOf, Script.bind_eq, result_run_bind hnext, hx]
    cases hv : verdict x with
    | error e => exact (allM_cons_of_error hv).symm
    | ok b => exact (allM_cons_of_ok hv).symm

theorem result_run_keep (m : Machine σ) :
    (outcome ((keep test items).run call) m).1 = retain verdict items := by
  induction items generalizing m with
  | nil => rfl
  | cons x rest ih =>
    obtain ⟨hx, hrest⟩ := List.forall_mem_cons.mp ht
    have hnext (kept : Bool) (m : Machine σ) :
        (outcome ((do
          let others ← keep test rest
          return if kept then x :: others else others : Script σ (List Value)).run call) m).1 =
          retain verdict rest >>= fun others => .ok (if kept then x :: others else others) := by
      rw [Script.bind_eq, result_run_bind fun _ _ => rfl, ih hrest]
    rw [keep, Script.bind_eq, result_run_bind hnext, hx]
    rfl

end Tests

section Predicates
variable {v : Value} {verdict : Value → Except Failure Bool} {items : List Value} (hi : v.items? = some items)
  (hc : predicate.isCallable = true)
  (ht : ∀ x ∈ items, ∀ m, (outcome ((holds predicate x).run call) m).1 = verdict x)
include hi hc ht

theorem result_run_filter (m : Machine σ) :
    (outcome ((filter v predicate).run call) m).1 = (retain verdict items).map .array := by
  have hscript : (filter v predicate : Script σ Value) =
      (keep (holds predicate) items).bind fun kept => pure (.array kept) := by
    simp only [filter, Argument.predicate, Argument.array, hc, hi, Script.bind_eq]
    rfl
  rw [hscript, result_run_bind fun _ _ => rfl, result_run_keep ht]
  cases retain verdict items <;> rfl

omit hi ht in
theorem testOf_of_isCallable (function : Text) :
    (testOf function predicate : Except Fault (Value → Script σ Bool)) = .ok (holds predicate) := by
  cases predicate with
  | host | builtin | closure => rfl
  | _ => cases hc

theorem result_run_any (m : Machine σ) :
    (outcome ((any v predicate).run call) m).1 = (items.anyM verdict).map .boolean := by
  have hscript : (any v predicate : Script σ Value) =
      (someOf (holds predicate) items).bind fun result => pure (.boolean result) := by
    simp only [any, Argument.array, hi, testOf_of_isCallable hc, Script.bind_eq]
    rfl
  rw [hscript, result_run_bind fun _ _ => rfl, result_run_someOf ht]
  cases items.anyM verdict <;> rfl

theorem result_run_all (m : Machine σ) :
    (outcome ((all v predicate).run call) m).1 = (items.allM verdict).map .boolean := by
  have hscript : (all v predicate : Script σ Value) =
      (everyOf (holds predicate) items).bind fun result => pure (.boolean result) := by
    simp only [all, Argument.array, hi, testOf_of_isCallable hc, Script.bind_eq]
    rfl
  rw [hscript, result_run_bind fun _ _ => rfl, result_run_everyOf ht]
  cases items.allM verdict <;> rfl

end Predicates

end Collection

end Vetting
