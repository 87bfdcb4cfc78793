import Mathlib.Data.List.Forall2
import Vetting.Expression.Evaluation
import Vetting.Proofs.Function.Composition
import Vetting.Proofs.Value.Shape

/-!
# Functions that use closures only as functions

Two values match if they are the same but for the scopes that their closures have captured. A function is
uniform if on matching arguments it does matching things: it calls matching values, goes on alike after
matching results, and returns matching values. It may so call, return or pass on the closures that it
receives, but cannot look into them. The built-in functions are uniform.
-/

namespace Vetting

variable {related : Node → Scope → Scope → Prop}

/-! ## Values -/

namespace Value

mutual

/-- Values that are the same but for the scopes that closures have captured; these are related. -/
inductive Matches (related : Node → Scope → Scope → Prop) : Value → Value → Prop
  | null : Matches related null null
  | boolean (b : Bool) : Matches related (boolean b) (boolean b)
  | number (n : Number) : Matches related (number n) (number n)
  | text (t : Text) : Matches related (text t) (text t)
  | array {vs ws : List Value} (h : List.Forall₂ (Matches related) vs ws) :
      Matches related (array vs) (array ws)
  | tuple {vs ws : List Value} (h : List.Forall₂ (Matches related) vs ws) :
      Matches related (tuple vs) (tuple ws)
  | object {fields others : Fields} (h : MatchesFields related fields others) :
      Matches related (object fields) (object others)
  | foreign (thing : Foreign) : Matches related (foreign thing) (foreign thing)
  | host (f : HostFunction) : Matches related (host f) (host f)
  | builtin (b : Builtin) : Matches related (builtin b) (builtin b)
  | closure {serial position : Nat} {parameter : Text} {body : Node} {s t : Scope}
      (h : related (.lambda position parameter body) s t) :
      Matches related (closure serial position parameter body s)
        (closure serial position parameter body t)

inductive MatchesFields (related : Node → Scope → Scope → Prop) : Fields → Fields → Prop
  | nil : MatchesFields related [] []
  | cons {k l v w : Value} {fields others : Fields} (hk : Matches related k l)
      (hv : Matches related v w) (h : MatchesFields related fields others) :
      MatchesFields related ((k, v) :: fields) ((l, w) :: others)

end

mutual

theorem Matches.forget_eq {v w : Value} (h : Matches related v w) : v.forget = w.forget := by
  match v with
  | .array items =>
    cases h with
    | array h => rw [forget, forget, forgetList_eq_of_matches h]
  | .tuple items =>
    cases h with
    | tuple h => rw [forget, forget, forgetList_eq_of_matches h]
  | .object fields =>
    cases h with
    | object h => rw [forget, forget, forgetFields_eq_of_matches h]
  | .null | .boolean _ | .number _ | .text _ | .foreign _ | .host _ | .builtin _ | .closure .. =>
    cases h
    rfl

theorem forgetList_eq_of_matches {vs ws : List Value} (h : List.Forall₂ (Matches related) vs ws) :
    forgetList vs = forgetList ws := by
  match vs with
  | [] =>
    cases h
    rfl
  | v :: vs =>
    cases h with
    | cons hv h => rw [forgetList, forgetList, hv.forget_eq, forgetList_eq_of_matches h]

theorem forgetFields_eq_of_matches {fields others : Fields} (h : MatchesFields related fields others) :
    forgetFields fields = forgetFields others := by
  match fields with
  | [] =>
    cases h
    rfl
  | (k, v) :: rest =>
    cases h with
    | cons hk hv h =>
      rw [forgetFields, forgetFields, hk.forget_eq, hv.forget_eq, forgetFields_eq_of_matches h]

end

namespace Matches

variable {v w : Value}

/-- What does not look into closures is the same of matching values. -/
theorem congr {α : Type} (f : Value → α) (hf : ∀ v, f v.forget = f v) (h : Matches related v w) :
    f v = f w := by
  rw [← hf v, h.forget_eq, hf w]

theorem isCallable_eq (h : Matches related v w) : v.isCallable = w.isCallable :=
  h.congr isCallable isCallable_forget

theorem describe_eq (h : Matches related v w) : v.describe = w.describe :=
  h.congr describe describe_forget

theorem isModel_eq (h : Matches related v w) : v.isModel = w.isModel := h.congr isModel isModel_forget

theorem truthy_eq (h : Matches related v w) : v.truthy = w.truthy := h.congr truthy truthy_forget

theorem toText_eq (h : Matches related v w) : v.toText = w.toText := h.congr toText toText_forget

theorem equal_eq {x y : Value} (h : Matches related v w) (h' : Matches related x y) :
    v.equal x = w.equal y := by
  rw [← equal_forget v x, h.forget_eq, h'.forget_eq, equal_forget w y]

/-- Model values match if they are the same. -/
theorem eq_of_isModel (h : Matches related v w) (hv : v.isModel = true) : w = v := by
  have hw : w.isModel = true := h.isModel_eq ▸ hv
  rw [← forget_of_isModel hw, ← h.forget_eq, forget_of_isModel hv]

end Matches

end Value

open Value (Matches)

/-! ## Results -/

/-- Results that are the same error, or good values. -/
inductive SameResult {ε α : Type} (good : α → α → Prop) : Except ε α → Except ε α → Prop
  | ok {a b : α} (h : good a b) : SameResult good (.ok a) (.ok b)
  | error (e : ε) : SameResult good (.error e) (.error e)

section Results
variable {ε α β : Type} {good : α → α → Prop} {also : β → β → Prop}

theorem SameResult.refl (h : ∀ a, good a a) (r : Except ε α) : SameResult good r r := by
  cases r with
  | ok a => exact .ok (h a)
  | error e => exact .error e

theorem SameResult.bind {r r' : Except ε α} {f f' : α → Except ε β} (h : SameResult good r r')
    (hf : ∀ a b, good a b → SameResult also (f a) (f' b)) :
    SameResult also (r >>= f) (r' >>= f') := by
  cases h with
  | ok h => exact hf _ _ h
  | error e => exact .error e

end Results

/-! ## Scripts -/

variable {σ α β : Type} {good : α → α → Prop} {also : β → β → Prop}

/-- Scripts that do matching things and end with the same error or with good values. What they read of
the host makes no difference. -/
inductive Script.Matches (related : Node → Scope → Scope → Prop) (good : α → α → Prop) :
    Script σ α → Script σ α → Prop
  | finish {r r' : Except Failure α} (h : SameResult good r r') :
      Matches related good (.finish r) (.finish r')
  | call {callee callee' : Value} {arguments arguments' : List Value}
      {resume resume' : Except Failure Value → Script σ α} (hc : Value.Matches related callee callee')
      (ha : List.Forall₂ (Value.Matches related) arguments arguments')
      (hr : ∀ r r', SameResult (Value.Matches related) r r' →
        Matches related good (resume r) (resume' r')) :
      Matches related good (.call callee arguments resume) (.call callee' arguments' resume')
  | read {resume resume' : σ → Script σ α} (h : ∀ s t, Matches related good (resume s) (resume' t)) :
      Matches related good (.read resume) (.read resume')
  | write (s t : σ) {rest rest' : Script σ α} (h : Matches related good rest rest') :
      Matches related good (.write s rest) (.write t rest')

/-- Whether the functions of a host are pure and use closures only as functions. -/
def Host.Uniform (host : Host σ) : Prop :=
  ∀ related : Node → Scope → Scope → Prop, (∀ v, Matches related v v) →
    ∀ (f : HostFunction) (arguments arguments' : List Value),
      List.Forall₂ (Matches related) arguments arguments' →
        Script.Matches related (Matches related) (host.behaviour f arguments)
          (host.behaviour f arguments')

namespace Script

theorem Matches.bind {first first' : Script σ α} {next next' : α → Script σ β}
    (h : Matches related good first first')
    (hn : ∀ a b, good a b → Matches related also (next a) (next' b)) :
    Matches related also (first.bind next) (first'.bind next') := by
  induction h with
  | finish h =>
    cases h with
    | ok h => exact hn _ _ h
    | error e => exact .finish (.error e)
  | call hc ha _ ih => exact .call hc ha ih
  | read _ ih => exact .read ih
  | write s t _ ih => exact .write s t ih

theorem compositional_matches (related : Node → Scope → Scope → Prop) :
    @Compositional σ fun good script script' => Matches related good script script' where
  done h := .finish (.ok h)
  bind h hn := h.bind hn

theorem matches_pure {a b : α} (h : good a b) :
    Matches related good (pure a : Script σ α) (pure b) := .finish (.ok h)

theorem matches_ofResult {r r' : Except Fault α} (h : SameResult good r r') :
    Matches related good (ofResult r : Script σ α) (ofResult r') := by
  cases h with
  | ok h => exact .finish (.ok h)
  | error f => exact .finish (.error _)

/-- Operations on values that have one result. -/
theorem matches_ofResult_of_eq (hgood : ∀ a, good a a) {r r' : Except Fault α} (h : r = r') :
    Matches related good (ofResult r : Script σ α) (ofResult r') :=
  h ▸ matches_ofResult (.refl hgood r)

end Script

/-! ## Arguments -/

namespace Argument

variable {v w : Value} {arguments arguments' : List Value}

theorem number_eq_of_matches (function : Text) (h : Matches related v w) :
    number function v = number function w := by
  cases h <;> rfl

theorem text_eq_of_matches (function : Text) (h : Matches related v w) :
    text function v = text function w := by
  cases h <;> rfl

theorem matches_array (function : Text) (h : Matches related v w) :
    SameResult (List.Forall₂ (Matches related)) (array function v) (array function w) := by
  cases h with
  | array h => exact .ok h
  | tuple h => exact .ok h
  | _ => exact .error _

theorem matches_predicate (function : Text) (h : Matches related v w) :
    SameResult (Matches related) (predicate function v) (predicate function w) := by
  rw [predicate, predicate, h.isCallable_eq]
  split
  · exact .ok h
  · exact .error _

theorem matches_spread (h : List.Forall₂ (Matches related) arguments arguments') :
    List.Forall₂ (Matches related) (spread arguments) (spread arguments') := by
  cases h with
  | nil => exact .nil
  | cons hv hr =>
    cases hr with
    | nil =>
      have hone := List.Forall₂.cons hv .nil
      cases hv with
      | array h => exact h
      | tuple h => exact h
      | _ => exact hone
    | cons hw hr =>
      rw [spread_cons_cons, spread_cons_cons]
      exact .cons hv (.cons hw hr)

theorem numbersOf_eq_of_matches (function : Text)
    (h : List.Forall₂ (Matches related) arguments arguments') :
    numbersOf function arguments = numbersOf function arguments' := by
  induction h with
  | nil => rfl
  | cons hv _ ih =>
    cases hv with
    | number n => rw [numbersOf, numbersOf, ih]
    | _ => rfl

theorem numbers_eq_of_matches (function : Text)
    (h : List.Forall₂ (Matches related) arguments arguments') :
    numbers function arguments = numbers function arguments' :=
  numbersOf_eq_of_matches function (matches_spread h)

end Argument

/-! ## Built-in functions -/

namespace Textual

theorem texts_eq_of_matches {vs ws : List Value} (h : List.Forall₂ (Matches related) vs ws) :
    texts vs = texts ws := by
  induction h with
  | nil => rfl
  | cons hv _ ih => rw [texts, texts, hv.toText_eq, ih]

end Textual

namespace Dated

theorem toTimestamp_eq_of_matches {v w : Value} (h : Matches related v w) :
    toTimestamp v = toTimestamp w := by
  cases h <;> rfl

end Dated

namespace Inspection

variable {v w : Value} (h : Matches related v w)
include h

theorem isEmpty_eq_of_matches : isEmpty v = isEmpty w := by
  cases h with
  | array h => cases h <;> rfl
  | tuple h => cases h <;> rfl
  | object h => cases h <;> rfl
  | _ => rfl

theorem isNumber_eq_of_matches : isNumber v = isNumber w := by cases h <;> rfl

theorem isBoolean_eq_of_matches : isBoolean v = isBoolean w := by cases h <;> rfl

theorem isArray_eq_of_matches : isArray v = isArray w := by cases h <;> rfl

end Inspection

namespace Collection

open Script (matches_pure matches_ofResult matches_ofResult_of_eq)

variable {v w predicate predicate' : Value} {items items' : List Value}

theorem matches_distinctAfter {kept kept' : List Value} (hk : List.Forall₂ (Matches related) kept kept')
    (h : List.Forall₂ (Matches related) items items') :
    List.Forall₂ (Matches related) (distinctAfter kept items) (distinctAfter kept' items') := by
  induction h generalizing kept kept' with
  | nil => exact .nil
  | @cons v w rest rest' hv _ ih =>
    have hseen : (kept.any fun seen => v.equal seen) = kept'.any fun seen => w.equal seen := by
      induction hk with
      | nil => rfl
      | cons hs _ ih => simp only [List.any_cons, hv.equal_eq hs, ih]
    rw [distinctAfter, distinctAfter, hseen]
    split
    · exact ih hk
    · exact .cons hv (ih (List.rel_append hk (.cons hv .nil)))

theorem matches_unique (h : Matches related v w) :
    SameResult (Matches related) (unique v) (unique w) :=
  (Argument.matches_array "unique" h).bind fun _ _ hi => .ok (.array (matches_distinctAfter .nil hi))

theorem count_eq_of_matches (h : Matches related v w) : count v = count w := by
  have hlength {vs ws : List Value} (h : vs.length = ws.length) :
      (.ok (.integer vs.length) : Except Fault Value) = .ok (.integer ws.length) := by rw [h]
  cases h with
  | array h => exact hlength h.length_eq
  | tuple h => exact hlength h.length_eq
  | _ => rfl

theorem matches_holds (hp : Matches related predicate predicate') (hv : Matches related v w) :
    Script.Matches related Eq (holds predicate v : Script σ Bool) (holds predicate' w) := by
  refine Script.Matches.bind (.call hp (.cons hv .nil) fun _ _ hr => .finish hr) fun a b hab => ?_
  exact matches_ofResult_of_eq (fun _ => rfl) hab.truthy_eq

theorem matches_testOf (function : Text) (hp : Matches related predicate predicate') :
    SameResult (fun test test' => ∀ v w, Matches related v w →
        Script.Matches related Eq (test v : Script σ Bool) (test' w))
      (testOf function predicate) (testOf function predicate') := by
  have hgiven : SameResult (fun test test' => ∀ v w, Matches related v w →
        Script.Matches related Eq (test v : Script σ Bool) (test' w))
      (holds <$> Argument.predicate function predicate)
      (holds <$> Argument.predicate function predicate') :=
    (Argument.matches_predicate function hp).bind fun p q hpq =>
      .ok fun v w hv => matches_holds hpq hv
  cases hp with
  | null => exact .ok fun v w hv => matches_ofResult_of_eq (fun _ => rfl) hv.truthy_eq
  | _ => exact hgiven

variable (hv : Matches related v w) (hp : Matches related predicate predicate')
include hv hp

theorem matches_filter :
    Script.Matches related (Matches related) (filter v predicate : Script σ Value)
      (filter w predicate') :=
  (Script.compositional_matches related).filter
    (matches_ofResult (Argument.matches_predicate "filter" hp))
    (matches_ofResult (Argument.matches_array "filter" hv))
    (fun _ _ hpq _ _ hvw => matches_holds hpq hvw) fun _ _ hk => .array hk

theorem matches_any :
    Script.Matches related (Matches related) (any v predicate : Script σ Value)
      (any w predicate') :=
  (Script.compositional_matches related).any .boolean
    (matches_ofResult (Argument.matches_array "any" hv)) (matches_ofResult (matches_testOf "any" hp))

theorem matches_all :
    Script.Matches related (Matches related) (all v predicate : Script σ Value)
      (all w predicate') :=
  (Script.compositional_matches related).all .boolean
    (matches_ofResult (Argument.matches_array "all" hv)) (matches_ofResult (matches_testOf "all" hp))

end Collection

namespace Builtin

open Script (matches_pure matches_ofResult matches_ofResult_of_eq)

variable {arguments arguments' : List Value}

theorem onNumbers_eq_of_matches (function : Text)
    (operation : Number → List Number → Except Fault Number)
    (h : List.Forall₂ (Matches related) arguments arguments') :
    Numeric.onNumbers function operation arguments =
      Numeric.onNumbers function operation arguments' := by
  rw [Numeric.onNumbers, Numeric.onNumbers, Argument.numbers_eq_of_matches function h]

theorem toInteger_eq_of_matches (function : Text) (operation : Number → Except Fault Int)
    {v w : Value} (h : Matches related v w) :
    Numeric.toInteger function operation v = Numeric.toInteger function operation w := by
  rw [Numeric.toInteger, Numeric.toInteger, Argument.number_eq_of_matches function h]

theorem onText_eq_of_matches (function : Text) (change : Text → Text) {v w : Value}
    (h : Matches related v w) :
    Textual.onText function change v = Textual.onText function change w := by
  rw [Textual.onText, Textual.onText, Argument.text_eq_of_matches function h]

theorem matches_body (hrefl : ∀ v, Matches related v v) (instant : Int) (b : Builtin)
    (h : List.Forall₂ (Matches related) arguments arguments') :
    Script.Matches related (Matches related) (b.body instant arguments : Script σ Value)
      (b.body instant arguments') := by
  have hfirst : Matches related (arguments.headD .null) (arguments'.headD .null) := by
    cases h with
    | nil => exact .null
    | cons hv _ => exact hv
  have hsecond : Matches related (arguments.getD 1 .null) (arguments'.getD 1 .null) := by
    rcases h with _ | ⟨_, _ | ⟨hw, _⟩⟩
    · exact .null
    · exact .null
    · exact hw
  have same {r r' : Except Fault Value} (hr : r = r') :
      Script.Matches related (Matches related) (.ofResult r : Script σ Value) (.ofResult r') :=
    matches_ofResult_of_eq hrefl hr
  have boolean {a b : Bool} (hab : a = b) :
      Script.Matches related (Matches related) (pure (.boolean a) : Script σ Value)
        (pure (.boolean b)) :=
    hab ▸ matches_pure (.boolean a)
  cases b with
  | filter => exact Collection.matches_filter hfirst hsecond
  | any => exact Collection.matches_any hfirst hsecond
  | all => exact Collection.matches_all hfirst hsecond
  | unique => exact matches_ofResult (Collection.matches_unique hfirst)
  | count => exact same (Collection.count_eq_of_matches hfirst)
  | sum =>
    refine same ?_
    rw [Numeric.sum, Numeric.sum, Argument.numbers_eq_of_matches "sum" h]
  | avg | max | min => exact same (onNumbers_eq_of_matches _ _ h)
  | abs =>
    refine same ?_
    rw [Numeric.abs, Numeric.abs, Argument.number_eq_of_matches "abs" hfirst]
  | round | ceil | floor => exact same (toInteger_eq_of_matches _ _ hfirst)
  | isEmpty => exact boolean (Inspection.isEmpty_eq_of_matches hfirst)
  | isNumber =>
    refine same ?_
    rw [Inspection.isNumber_eq_of_matches hfirst]
  | isString => exact boolean (hfirst.congr Value.isText Value.isText_forget)
  | isBoolean => exact boolean (Inspection.isBoolean_eq_of_matches hfirst)
  | isArray => exact boolean (Inspection.isArray_eq_of_matches hfirst)
  | concat =>
    refine same ?_
    rw [Textual.concat, Textual.concat, Textual.texts_eq_of_matches (Argument.matches_spread h)]
  | toLowerCase | toUpperCase | trim => exact same (onText_eq_of_matches _ _ hfirst)
  | now => exact matches_pure (.text _)
  | isToday =>
    refine same ?_
    rw [Dated.isToday, Dated.isToday, Dated.toTimestamp_eq_of_matches hfirst]
  | daysBetween =>
    refine same ?_
    rw [Dated.daysBetween, Dated.daysBetween, Dated.toTimestamp_eq_of_matches hfirst,
      Dated.toTimestamp_eq_of_matches hsecond]

/-- The built-in functions use closures only as functions. -/
theorem matches_script (hrefl : ∀ v, Matches related v v) (instant : Int) (b : Builtin)
    (h : List.Forall₂ (Matches related) arguments arguments') :
    Script.Matches related (Matches related) (b.script instant arguments : Script σ Value)
      (b.script instant arguments') := by
  rw [script, script, h.length_eq]
  split
  · exact .finish (.error _)
  · exact matches_body hrefl instant b h

end Builtin
end Vetting
