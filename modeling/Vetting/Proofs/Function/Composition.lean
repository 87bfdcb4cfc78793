import Mathlib.Data.List.Forall2
import Vetting.Function.Collection

/-!
# What goes through the functions on arrays

`filter`, `any` and `all` do nothing but compose what their tests do. What is said of scripts, one at a
time or of two at once, is therefore true of these functions if it is true of the tests, provided that it
is kept by composition.
-/

namespace Vetting

open Collection

variable {σ : Type}

/-- Relations between scripts, one for each relation between their results, that hold of scripts with
related results and are kept by composition. -/
structure Script.Compositional
    (relates : ∀ {α : Type}, (α → α → Prop) → Script σ α → Script σ α → Prop) : Prop where
  done {α : Type} {good : α → α → Prop} {a b : α} (h : good a b) :
    relates good (.finish (.ok a)) (.finish (.ok b))
  bind {α β : Type} {good : α → α → Prop} {also : β → β → Prop} {first first' : Script σ α}
    {next next' : α → Script σ β} (h : relates good first first')
    (hn : ∀ a b, good a b → relates also (next a) (next' b)) :
    relates also (first.bind next) (first'.bind next')

namespace Script.Compositional

variable {relates : ∀ {α : Type}, (α → α → Prop) → Script σ α → Script σ α → Prop}
  (hc : Compositional relates) {element good : Value → Value → Prop} {items items' : List Value}
include hc

section Tests
variable {test test' : Value → Script σ Bool}
  (ht : ∀ v w, element v w → relates Eq (test v) (test' w)) (hi : List.Forall₂ element items items')
include ht hi

theorem keep : relates (List.Forall₂ element) (keep test items) (keep test' items') := by
  induction hi with
  | nil => exact hc.done .nil
  | cons hv _ ih =>
    refine hc.bind (ht _ _ hv) fun kept _ hkept => hc.bind ih fun others others' ho => ?_
    subst hkept
    cases kept with
    | true => exact hc.done (.cons hv ho)
    | false => exact hc.done ho

theorem someOf : relates Eq (someOf test items) (someOf test' items') := by
  induction hi with
  | nil => exact hc.done rfl
  | cons hv _ ih =>
    refine hc.bind (ht _ _ hv) fun holds _ hholds => ?_
    subst hholds
    cases holds with
    | true => exact hc.done rfl
    | false => exact ih

theorem everyOf : relates Eq (everyOf test items) (everyOf test' items') := by
  induction hi with
  | nil => exact hc.done rfl
  | cons hv _ ih =>
    refine hc.bind (ht _ _ hv) fun holds _ hholds => ?_
    subst hholds
    cases holds with
    | true => exact ih
    | false => exact hc.done rfl

end Tests

variable {v w p q : Value}

theorem filter {callee : Value → Value → Prop}
    (hp : relates callee (ofResult (Argument.predicate "filter" p))
      (ofResult (Argument.predicate "filter" q)))
    (hi : relates (List.Forall₂ element) (ofResult (Argument.array "filter" v))
      (ofResult (Argument.array "filter" w)))
    (ht : ∀ p q, callee p q → ∀ v w, element v w → relates Eq (holds p v) (holds q w))
    (harray : ∀ kept kept', List.Forall₂ element kept kept' → good (.array kept) (.array kept')) :
    relates good (filter v p) (filter w q) := by
  refine hc.bind hp fun p q hpq => hc.bind hi fun items items' hi => ?_
  exact hc.bind (hc.keep (ht p q hpq) hi) fun kept kept' hk => hc.done (harray kept kept' hk)

section Quantifiers
variable (hboolean : ∀ b, good (.boolean b) (.boolean b))
include hboolean

theorem any
    (hi : relates (List.Forall₂ element) (ofResult (Argument.array "any" v))
      (ofResult (Argument.array "any" w)))
    (ht : relates (fun test test' => ∀ v w, element v w → relates Eq (test v) (test' w))
      (ofResult (testOf "any" p)) (ofResult (testOf "any" q))) :
    relates good (any v p) (any w q) := by
  refine hc.bind hi fun items items' hi => hc.bind ht fun test test' ht => ?_
  refine hc.bind (hc.someOf ht hi) fun b _ hb => ?_
  subst hb
  exact hc.done (hboolean b)

theorem all
    (hi : relates (List.Forall₂ element) (ofResult (Argument.array "all" v))
      (ofResult (Argument.array "all" w)))
    (ht : relates (fun test test' => ∀ v w, element v w → relates Eq (test v) (test' w))
      (ofResult (testOf "all" p)) (ofResult (testOf "all" q))) :
    relates good (all v p) (all w q) := by
  refine hc.bind hi fun items items' hi => hc.bind ht fun test test' ht => ?_
  refine hc.bind (hc.everyOf ht hi) fun b _ hb => ?_
  subst hb
  exact hc.done (hboolean b)

end Quantifiers

end Script.Compositional
end Vetting
