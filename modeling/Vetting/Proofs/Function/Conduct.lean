import Vetting.Function.Behaviour
import Vetting.Proofs.Function.Composition
import Vetting.Proofs.Function.Ground
import Vetting.Proofs.Outcome

/-!
# What built-in functions do with what they are given

Terms say which calls a script may make, what these may come to, and how the script may fail. The
built-in functions leave the host alone and abide by all terms that let them call their second
argument with an item of the first. They return an array of such items or a ground value, and so a
built-in that is given a closure calls it or shows it, but neither keeps it nor returns it.
-/

namespace Vetting

variable {σ α β : Type}

/-! ## Terms -/

/-- Terms for scripts. Faults and what a call fails with are failures to be borne. -/
structure Terms where
  asks : Value → List Value → Prop
  answered : Except Failure Value → Prop
  fails : Failure → Prop
  fails_fault : ∀ f, fails (.fault f)
  fails_of_answered : ∀ e, answered (.error e) → fails e

/-- Scripts that leave the host alone, make only calls that they may make and fail only as they may. If
their calls come to what they may come to, they return something good. -/
inductive Script.Abides (terms : Terms) (good : α → Prop) : Script σ α → Prop
  | done {a : α} (h : good a) : Abides terms good (.finish (.ok a))
  | failed {e : Failure} (h : terms.fails e) : Abides terms good (.finish (.error e))
  | call {callee : Value} {arguments : List Value} {resume : Except Failure Value → Script σ α}
      (hc : terms.asks callee arguments) (hr : ∀ r, terms.answered r → Abides terms good (resume r)) :
      Abides terms good (.call callee arguments resume)

/-- Whether all that a result can be is good. -/
def Returns (good : α → Prop) (r : Except Fault α) : Prop := ∀ a, r = .ok a → good a

theorem returns_pure {good : α → Prop} {a : α} (h : good a) : Returns good (pure a) := by
  rintro _ ⟨⟩
  exact h

theorem returns_throw {good : α → Prop} (f : Fault) : Returns good (throw f) := by
  rintro _ ⟨⟩

theorem returns_bind {good : β → Prop} {m : Except Fault α} {f : α → Except Fault β}
    (h : ∀ a, Returns good (f a)) : Returns good (m >>= f) := by
  intro b hb
  cases m with
  | error e => cases hb
  | ok a => exact h a b hb

theorem returns_map {good : β → Prop} {m : Except Fault α} {f : α → β} (h : ∀ a, good (f a)) :
    Returns good (m.map f) := by
  intro b hb
  cases m with
  | error e => cases hb
  | ok a =>
    cases hb
    exact h a

variable {terms : Terms} {good : α → Prop} {also : β → Prop}

namespace Script

theorem Abides.bind {first : Script σ α} {next : α → Script σ β} (h : Abides terms good first)
    (hn : ∀ a, good a → Abides terms also (next a)) : Abides terms also (first.bind next) := by
  induction h with
  | done h => exact hn _ h
  | failed h => exact .failed h
  | call hc _ ih => exact .call hc ih

theorem Abides.mono {good' : α → Prop} {script : Script σ α} (h : Abides terms good script)
    (hg : ∀ a, good a → good' a) : Abides terms good' script := by
  induction h with
  | done h => exact .done (hg _ h)
  | failed h => exact .failed h
  | call hc _ ih => exact .call hc ih

/-- Terms are for one script; the second of the two is not looked at. -/
theorem compositional_abides (terms : Terms) :
    @Compositional σ fun good script _ => Abides terms (fun a => ∃ b, good a b) script where
  done h := .done ⟨_, h⟩
  bind h hn := by
    refine h.bind ?_
    rintro a ⟨b, hab⟩
    exact hn a b hab

theorem abides_ofResult {r : Except Fault α} (h : Returns good r) :
    Abides terms good (ofResult r : Script σ α) := by
  cases r with
  | ok a => exact .done (h a rfl)
  | error f => exact .failed (terms.fails_fault f)

end Script

/-! ## Functions on arrays -/

namespace Collection

open Script (Abides abides_ofResult compositional_abides)

variable {predicate item : Value} {items : List Value}

theorem abides_holds {good : Bool → Prop} (hgood : ∀ b, good b) (h : terms.asks predicate [item]) :
    Abides terms good (holds predicate item : Script σ Bool) := by
  have happly : Abides terms (fun _ => True) (Script.apply predicate [item] : Script σ Value) := by
    refine .call h fun r hr => ?_
    cases r with
    | ok v => exact .done trivial
    | error e => exact .failed (terms.fails_of_answered e hr)
  exact happly.bind fun v _ => abides_ofResult fun b _ => hgood b

theorem items?_of_array {function : Text} {v : Value} (h : Argument.array function v = .ok items) :
    v.items? = some items := by
  unfold Argument.array at h
  split at h
  · rename_i items' hi
    cases h
    exact hi
  · cases h

theorem eq_of_predicate {function : Text} {v w : Value} (h : Argument.predicate function v = .ok w) :
    w = v := by
  unfold Argument.predicate at h
  split at h
  · cases h
    rfl
  · cases h

/-- The test of a predicate calls the predicate, unless it is null. -/
theorem abides_testOf {good : Bool → Prop} (hgood : ∀ b, good b) {function : Text}
    {test : Value → Script σ Bool} (hp : predicate = .null ∨ terms.asks predicate [item])
    (h : testOf function predicate = .ok test) : Abides terms good (test item) := by
  unfold testOf at h
  split at h
  · cases h
    exact abides_ofResult fun b _ => hgood b
  · rename_i hnull
    obtain ⟨p, hpredicate, hholds⟩ := bind_eq_ok_iff.mp h
    obtain rfl := eq_of_predicate hpredicate
    cases hholds
    exact abides_holds hgood (hp.resolve_left hnull)

theorem mem_of_mem_distinctAfter {kept items : List Value} {v : Value}
    (h : v ∈ distinctAfter kept items) : v ∈ items := by
  induction items generalizing kept with
  | nil => cases h
  | cons item rest ih =>
    rw [distinctAfter] at h
    split at h
    · exact List.mem_cons_of_mem _ (ih h)
    · rcases List.mem_cons.mp h with rfl | h
      · exact List.mem_cons_self
      · exact List.mem_cons_of_mem _ (ih h)

theorem exists_forall₂_iff {ofItem : Value → Prop} :
    (∃ others : List Value, List.Forall₂ (fun item _ => ofItem item) items others) ↔
      ∀ item ∈ items, ofItem item := by
  constructor
  · rintro ⟨others, h⟩
    have hand := h.imp fun _ _ hitem => And.intro hitem trivial
    exact ((List.forall₂_and_left items others).mp hand).1
  · exact fun h => ⟨items, List.forall₂_same.mpr h⟩

/-! The items of a value, and a predicate that may be called with them. -/

variable {v : Value} {ofItem good : Value → Prop}
  (hitems : ∀ items, v.items? = some items → ∀ item ∈ items, ofItem item)
include hitems

theorem returns_unique (harray : ∀ items, (∀ item ∈ items, ofItem item) → good (.array items)) :
    Returns good (unique v) := by
  intro w hw
  obtain ⟨items, hi, hdistinct⟩ := bind_eq_ok_iff.mp hw
  cases hdistinct
  refine harray _ fun item hitem => ?_
  exact hitems items (items?_of_array hi) item (mem_of_mem_distinctAfter hitem)

theorem abides_array (function : Text) :
    Abides terms (fun items => ∃ others : List Value, List.Forall₂ (fun item _ => ofItem item) items others)
      (.ofResult (Argument.array function v) : Script σ (List Value)) :=
  abides_ofResult fun items h => exists_forall₂_iff.mpr (hitems items (items?_of_array h))

variable (hp : predicate = .null ∨ ∀ item, ofItem item → terms.asks predicate [item])
include hp

theorem abides_filter (harray : ∀ items, (∀ item ∈ items, ofItem item) → good (.array items)) :
    Abides terms good (filter v predicate : Script σ Value) := by
  have hpredicate : Returns (fun p => ∃ _ : Value, ∀ item, ofItem item → terms.asks p [item])
      (Argument.predicate "filter" predicate) := by
    intro p h
    obtain rfl := eq_of_predicate h
    refine ⟨p, hp.resolve_left ?_⟩
    rintro rfl
    cases h
  have hfilter : Abides terms (fun w => ∃ _ : Value, good w) (filter v predicate : Script σ Value) := by
    refine (compositional_abides terms).filter (w := v) (q := predicate) (abides_ofResult hpredicate)
      (abides_array hitems "filter") ?_ ?_
    · exact fun p _ hp item _ hitem => abides_holds (fun b => ⟨b, rfl⟩) (hp item hitem)
    · exact fun kept _ hk => harray kept (exists_forall₂_iff.mp ⟨_, hk⟩)
  exact hfilter.mono fun _ h => h.choose_spec

theorem abides_any (hboolean : ∀ b, good (.boolean b)) :
    Abides terms good (any v predicate : Script σ Value) := by
  have hany : Abides terms (fun w => ∃ _ : Value, good w) (any v predicate : Script σ Value) := by
    refine (compositional_abides terms).any (w := v) (q := predicate) hboolean
      (abides_array hitems "any") (abides_ofResult fun test ht => ⟨test, ?_⟩)
    exact fun item _ hitem => abides_testOf (fun b => ⟨b, rfl⟩) (hp.imp_right fun h => h item hitem) ht
  exact hany.mono fun _ h => h.choose_spec

theorem abides_all (hboolean : ∀ b, good (.boolean b)) :
    Abides terms good (all v predicate : Script σ Value) := by
  have hall : Abides terms (fun w => ∃ _ : Value, good w) (all v predicate : Script σ Value) := by
    refine (compositional_abides terms).all (w := v) (q := predicate) hboolean
      (abides_array hitems "all") (abides_ofResult fun test ht => ⟨test, ?_⟩)
    exact fun item _ hitem => abides_testOf (fun b => ⟨b, rfl⟩) (hp.imp_right fun h => h item hitem) ht
  exact hall.mono fun _ h => h.choose_spec

end Collection

/-! ## Built-in functions -/

namespace Builtin

open Script (Abides abides_ofResult compositional_abides)

theorem isGround_onNumbers {function : Text} {operation : Number → List Number → Except Fault Number}
    (arguments : List Value) :
    Returns (·.isGround = true) (Numeric.onNumbers function operation arguments) := by
  refine returns_bind fun numbers => ?_
  cases numbers with
  | nil => exact returns_throw _
  | cons first rest => exact returns_bind fun _ => returns_pure rfl

variable {arguments : List Value} {ofItem good : Value → Prop}
  (hground : ∀ v, v.isGround = true → good v)
  (harray : ∀ items, (∀ item ∈ items, ofItem item) → good (.array items))
  (hitems : ∀ items, (arguments.headD .null).items? = some items → ∀ item ∈ items, ofItem item)
  (hasks : arguments.getD 1 .null = .null ∨
    ∀ item, ofItem item → terms.asks (arguments.getD 1 .null) [item])
include hground harray hitems hasks

/-- A built-in calls at most its second argument with items of its first, and what it returns is an
array of these or ground. -/
theorem abides_body (instant : Int) (b : Builtin) :
    Abides terms good (b.body instant arguments : Script σ Value) := by
  have plain {r : Except Fault Value} (h : Returns (·.isGround = true) r) :
      Abides terms good (.ofResult r : Script σ Value) :=
    abides_ofResult fun v hv => hground v (h v hv)
  have hboolean (b : Bool) : good (.boolean b) := hground _ rfl
  cases b with
  | filter => exact Collection.abides_filter hitems hasks harray
  | any => exact Collection.abides_any hitems hasks hboolean
  | all => exact Collection.abides_all hitems hasks hboolean
  | unique => exact abides_ofResult (Collection.returns_unique hitems harray)
  | avg | max | min => exact plain (isGround_onNumbers arguments)
  | sum => exact plain (returns_bind fun _ => returns_bind fun _ => returns_pure rfl)
  | abs | count | concat | toLowerCase | toUpperCase | trim =>
    exact plain (returns_bind fun _ => returns_pure rfl)
  | round | ceil | floor =>
    exact plain (returns_bind fun _ => returns_bind fun _ => returns_pure rfl)
  | isNumber => exact plain (returns_map fun _ => rfl)
  | isToday => exact plain (returns_bind fun _ => returns_bind fun _ => returns_pure rfl)
  | daysBetween =>
    exact plain (returns_bind fun _ => returns_bind fun _ => returns_bind fun _ => returns_pure rfl)
  | isEmpty | isString | isBoolean | isArray | now => exact .done (hground _ rfl)

theorem abides_script (instant : Int) (b : Builtin) :
    Abides terms good (b.script instant arguments : Script σ Value) := by
  unfold script
  split
  · exact .failed (terms.fails_fault _)
  · exact abides_body hground harray hitems hasks instant b

end Builtin

/-! ## Scripts that are given ground values -/

/-- Scripts that leave the host alone, and call nothing but some values, each with one ground value. If
what they call returns ground values, they return something good; and they do not fail as if the
budget had ended. -/
inductive Script.Confined (callees : List Value) (good : α → Prop) : Script σ α → Prop
  | done {a : α} (h : good a) : Confined callees good (.finish (.ok a))
  | failed {e : Failure} (h : e ≠ .exhausted) : Confined callees good (.finish (.error e))
  | call {callee x : Value} {resume : Except Failure Value → Script σ α} (hc : callee ∈ callees)
      (hx : x.isGround = true)
      (hr : ∀ r, r ≠ .error .exhausted → (∀ v, r = .ok v → v.isGround = true) →
        Confined callees good (resume r)) : Confined callees good (.call callee [x] resume)

def Terms.confined (callees : List Value) : Terms where
  asks callee arguments := callee ∈ callees ∧ ∃ x, arguments = [x] ∧ x.isGround = true
  answered r := r ≠ .error .exhausted
  fails e := e ≠ .exhausted
  fails_fault _ := nofun
  fails_of_answered _ h he := h (congrArg Except.error he)

theorem Script.Abides.confined {callees : List Value} {script : Script σ α}
    (h : script.Abides (.confined callees) good) : script.Confined callees good := by
  induction h with
  | done h => exact .done h
  | failed h => exact .failed h
  | call hc _ ih =>
    obtain ⟨hmem, x, rfl, hx⟩ := hc
    exact .call hmem hx fun r hr _ => ih r hr

/-- A built-in calls at most its second argument, and what it returns is ground. -/
theorem Builtin.confined_script {instant : Int} {b : Builtin} {arguments : List Value}
    (h : ∀ v ∈ arguments, v.isPassable = true) :
    Script.Confined arguments.tail (·.isGround = true)
      (b.script instant arguments : Script σ Value) := by
  have hfirst : (arguments.headD .null).isPassable = true := by
    cases arguments with
    | nil => rfl
    | cons v rest => exact h v List.mem_cons_self
  have hasks : arguments.getD 1 .null = .null ∨ ∀ x, x.isGround = true →
      (Terms.confined arguments.tail).asks (arguments.getD 1 .null) [x] := by
    rcases arguments with _ | ⟨first, _ | ⟨second, rest⟩⟩
    · exact .inl rfl
    · exact .inl rfl
    · exact .inr fun x hx => ⟨List.mem_cons_self, x, rfl, hx⟩
  exact (abides_script (fun _ hv => hv) (fun _ => Value.isGround_array_iff.mpr)
    (fun _ => Value.isGround_of_mem_items hfirst) hasks instant b).confined

end Vetting
