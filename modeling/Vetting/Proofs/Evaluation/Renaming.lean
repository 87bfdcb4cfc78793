import Vetting.Proofs.Evaluation.Confinement
import Vetting.Proofs.Evaluation.Position
import Vetting.Proofs.Evaluation.Translation
import Vetting.Proofs.Function.Echo

/-!
# The name of a parameter does not matter

Two trees that differ in names only, each of which means the same in the scope of its tree, are
evaluated in the same way: they have the same value, or fail at the same position with errors that
differ in the names that they quote. The closures of their lambdas are not the same; but they are
only called, by built-ins that cannot tell them apart, and return the same values. So the evaluation
stays the same when the parameter of a lambda gets another name.
-/

namespace Vetting

/-! ## Errors of operators -/

namespace Operation

/-- Errors of operators quote no names. -/
theorem respell_unary (f : Nat → Text → Text) (position : Nat) (operator : Text) (v : Value) :
    (unary position operator v).mapError (Failure.respell f) = unary position operator v := by
  unfold unary
  split
  · cases v.truthy <;> rfl
  · split <;> rfl

theorem respell_binary (f : Nat → Text → Text) (position : Nat) (operator : Text) (a b : Value) :
    (binary position operator a b).mapError (Failure.respell f) = binary position operator a b := by
  simp only [binary, comparison, concatenation, arithmetic, failAt]
  repeat' split
  all_goals rfl

end Operation

open Value (Same eq_of_forall₂_same)

namespace Evaluation

variable {σ α β : Type} {f : Nat → Text → Text} {good : α → α → Prop} {also : β → β → Prop}

/-! ## Computations -/

/-- Results that are good values, or errors that differ in their spelling. -/
inductive Respelt (f : Nat → Text → Text) (good : α → α → Prop) :
    Except Failure α → Except Failure α → Prop
  | ok {a b : α} (h : good a b) : Respelt f good (.ok a) (.ok b)
  | error (e : Failure) : Respelt f good (.error e) (.error (e.respell f))

/-- Computations that have such results from the same machine, and leave the same machine. -/
def Tracks (f : Nat → Text → Text) (good : α → α → Prop) (c c' : Evaluation σ α) : Prop :=
  ∀ m, Respelt f good (outcome c m).1 (outcome c' m).1 ∧ (outcome c m).2 = (outcome c' m).2

theorem tracks_ofResult {r r' : Except Failure α} (h : Respelt f good r r') :
    Tracks f good (ofResult r : Evaluation σ α) (ofResult r') := fun _ => ⟨h, rfl⟩

theorem tracks_pure {a b : α} (h : good a b) :
    Tracks f good (pure a : Evaluation σ α) (pure b) := tracks_ofResult (.ok h)

theorem tracks_throw (e : Failure) :
    Tracks f good (throw e : Evaluation σ α) (throw (e.respell f)) := tracks_ofResult (.error e)

/-- The same problem at one position, where the name that it quotes is respelled. -/
theorem tracks_fail (problem : EvaluationProblem) (position : Nat) :
    Tracks f good (fail problem position : Evaluation σ α)
      (fail (problem.respell (f position)) position) :=
  tracks_throw (.evaluation problem (some position))

theorem Tracks.bind {c c' : Evaluation σ α} {next next' : α → Evaluation σ β} (h : Tracks f good c c')
    (hn : ∀ a b, good a b → Tracks f also (next a) (next' b)) :
    Tracks f also (c >>= next) (c' >>= next') := by
  intro m
  have hc := h m
  rw [outcome_bind, outcome_bind]
  generalize outcome c m = x at hc ⊢
  generalize outcome c' m = x' at hc ⊢
  obtain ⟨r, u⟩ := x
  obtain ⟨r', u'⟩ := x'
  obtain ⟨hr, hm⟩ := hc
  dsimp only at hm
  subst hm
  cases hr with
  | ok hab => exact hn _ _ hab u
  | error e => exact ⟨.error e, rfl⟩

theorem Respelt.mono {good' : α → α → Prop} {r r' : Except Failure α} (h : Respelt f good r r')
    (hg : ∀ a b, good a b → good' a b) : Respelt f good' r r' := by
  cases h with
  | ok hab => exact .ok (hg _ _ hab)
  | error e => exact .error e

theorem Tracks.mono {good' : α → α → Prop} {c c' : Evaluation σ α} (h : Tracks f good c c')
    (hg : ∀ a b, good a b → good' a b) : Tracks f good' c c' := fun m =>
  ⟨(h m).1.mono hg, (h m).2⟩

theorem Tracks.attempt {c c' : Evaluation σ α} (h : Tracks f good c c') :
    Tracks f (Respelt f good) c.attempt c'.attempt := fun m => ⟨.ok (h m).1, (h m).2⟩

theorem respelt_ofFault (r : Except Fault α) : Respelt f Eq (ofFault r) (ofFault r) := by
  cases r with
  | ok a => exact .ok rfl
  | error fault => exact .error (.fault fault)

/-! ## Values -/

variable {context : Context σ}

/-- A result that quotes no names. -/
theorem respelt_of_mapError_eq {r : Except Failure Value}
    (hr : r.mapError (Failure.respell f) = r) (h : ∀ v, r = .ok v → v.isGround = true) :
    Respelt f Same r r := by
  cases r with
  | ok v => exact .ok ⟨rfl, h v rfl⟩
  | error e =>
    have he : e.respell f = e := Except.error.inj hr
    have herror : Respelt f Same (.error e) (.error (e.respell f)) := .error e
    rwa [he] at herror

/-- Scopes of ground values, where the name of a built-in that calls a predicate stands for no function but
such a built-in. -/
structure Testing (context : Context σ) (s : Scope) : Prop where
  ground : GroundScope s
  tests : ∀ x ∈ Builtin.testNames, ∀ v, lookup? context s x = some v → v.isCallable = true →
    ∃ b ∈ Builtin.tests, v = .builtin b

theorem Testing.bind {s : Scope} (h : Testing context s) {x : Text}
    (hx : x ∉ Builtin.testNames) {v : Value} (hv : v.isGround = true) :
    Testing context ((x, v) :: s) := by
  refine ⟨List.forall_mem_cons.mpr ⟨hv, h.ground⟩, fun y hy w hw hcallable => ?_⟩
  have hne : y ≠ x := fun hne => hx (hne ▸ hy)
  rw [lookup?_cons_of_ne hne] at hw
  exact h.tests y hy w hw hcallable

/-- Closures whose bodies translate into each other, whatever value their parameters get. -/
inductive Twins (context : Context σ) (f : Nat → Text → Text) : Value → Value → Prop
  | intro {serial position : Nat} {x y : Text} {body body' : Node} {s t : Scope} (hbody : body.Placed)
      (htest : body.LambdasTest) (hx : x ∉ Builtin.testNames) (hs : Testing context s)
      (h : ∀ v, Translates context f body body' ((x, v) :: s) ((y, v) :: t)) :
      Twins context f (.closure serial position x body s) (.closure serial position y body' t)

/-- What corresponding arguments come to. -/
def Passed (context : Context σ) (f : Nat → Text → Text) (v w : Value) : Prop :=
  Same v w ∨ Twins context f v w

/-- What corresponding arguments of a call by a name come to: closures are given to built-ins that call
them. -/
def PassedTo (context : Context σ) (f : Nat → Text → Text) (name : Text) (v w : Value) : Prop :=
  Same v w ∨ name ∈ Builtin.testNames ∧ Twins context f v w

theorem Passed.alike {v w : Value} (h : Passed context f v w) : v.Alike w := by
  rcases h with ⟨rfl, hv⟩ | ⟨_, _, _, _, _⟩
  · exact .ground hv
  · exact .closures

/-- Whether a built-in may be given corresponding arguments. -/
def Fits (context : Context σ) (f : Nat → Text → Text) (b : Builtin) (vs ws : List Value) : Prop :=
  List.Forall₂ Same vs ws ∨ b ∈ Builtin.tests ∧ List.Forall₂ (Passed context f) vs ws

theorem fits_of_passedTo {name : Text} {b : Builtin} {vs ws : List Value}
    (hb : name ∈ Builtin.testNames → b ∈ Builtin.tests)
    (h : List.Forall₂ (PassedTo context f name) vs ws) : Fits context f b vs ws := by
  by_cases hn : name ∈ Builtin.testNames
  · refine .inr ⟨hb hn, h.imp fun v w hvw => ?_⟩
    exact hvw.imp_right And.right
  · refine .inl (h.imp fun v w hvw => ?_)
    exact hvw.resolve_right fun htwins => hn htwins.1

/-! ## Scripts -/

/-- The runs of scripts that echo each other, where their callees track each other. -/
theorem tracks_run {call : Value → List Value → Evaluation σ Value} {callee callee' : Value}
    (hcall : ∀ x, x.isGround = true → Tracks f Same (call callee [x]) (call callee' [x]))
    {script script' : Script σ α} (h : Script.Echoes f callee callee' good script script') :
    Tracks f good (script.run call) (script'.run call) := by
  induction h with
  | done h => exact tracks_pure h
  | failed e => exact tracks_throw e
  | @call x resume resume' hx _ ih =>
    rw [Script.run, Script.run]
    refine (hcall x hx).attempt.bind fun r r' hr => ?_
    cases hr with
    | ok hv =>
      obtain ⟨rfl, _⟩ := hv
      exact ih (.ok _)
    | error e =>
      -- the end of the budget passes through, any other failure is seen by the scripts
      cases e with
      | exhausted => exact tracks_throw .exhausted
      | fault fault => exact ih (.error (.fault fault))
      | engine error =>
        cases error with
        | expression x => exact ih (.error (.engine (.expression x)))
        | _ => exact ih (.error (.engine _))

/-! ## Nodes -/

section Names
variable {s t : Scope} (hs : Testing context s)
  (hf : GroundScope context.functions) {x y : Text} {p : Nat} (h : Means context (f p) x y s t)
include hs hf h

theorem tracks_lookup :
    Tracks f (fun v w => Same v w ∧ lookup? context s x = some v) (lookup context s x p)
      (lookup context t y p) := by
  obtain ⟨rfl, hsame⟩ := h
  unfold lookup
  rw [← hsame]
  cases hv : lookup? context s x with
  | none => exact tracks_fail (.unknownIdentifier x) p
  | some v => exact tracks_pure ⟨⟨rfl, lookup?_of_forall (·.isGround = true) hs.ground hf hv⟩, rfl⟩

theorem tracks_spread : Tracks f (List.Forall₂ Same) (spread context s x p) (spread context t y p) := by
  refine (tracks_lookup hs hf h).bind fun v w hv => ?_
  obtain ⟨⟨rfl, hground⟩, _⟩ := hv
  obtain ⟨rfl, _⟩ := h
  cases hi : v.items? with
  | none => exact tracks_fail (.cannotSpread x v.describe) p
  | some items =>
    have hitems := Value.isGround_of_mem_items (Value.isPassable_of_isGround hground) hi
    exact tracks_pure (List.forall₂_same.mpr fun item hitem => ⟨rfl, hitems item hitem⟩)

end Names

theorem respelt_callResult {x : Text} {p : Nat} {r r' : Except Failure Value}
    (h : Respelt f Same r r') :
    Respelt f Same (callResult x p r) (callResult (f p x) p r') := by
  cases h with
  | ok hv =>
    obtain ⟨rfl, hground⟩ := hv
    unfold callResult
    dsimp only
    split
    · exact .ok ⟨rfl, isGround_untuple hground⟩
    · exact .error (.evaluation (.unsupportedResult x _) (some p))
  | error e =>
    have hfailure : callFailure (f p x) p (e.respell f) = (callFailure x p e).respell f := by
      cases e with
      | engine error => cases error <;> rfl
      | _ => rfl
    unfold callResult
    dsimp only
    rw [hfailure]
    exact .error _

/-! ## Evaluations -/

/-- Whether placed trees that translate into each other are evaluated alike within a budget. -/
def NodesTrack (context : Context σ) (f : Nat → Text → Text) (budget : Nat) : Prop :=
  ∀ node node' s t, node.Placed → node.LambdasTest → Testing context s →
    Translates context f node node' s t →
      Tracks f Same (evaluate context budget node s) (evaluate context budget node' t)

/-- Whether built-ins are called alike within a budget. -/
def BuiltinsTrack (context : Context σ) (f : Nat → Text → Text) (budget : Nat) : Prop :=
  ∀ b vs ws, Fits context f b vs ws →
    Tracks f Same (call context budget (.builtin b) vs) (call context budget (.builtin b) ws)

/-- Whether what built-ins are given is called alike within a budget. -/
def PassedTrack (context : Context σ) (f : Nat → Text → Text) (budget : Nat) : Prop :=
  ∀ v w x, Passed context f v w → x.isGround = true →
    Tracks f Same (call context budget v [x]) (call context budget w [x])

section Nodes
variable {s t : Scope} {budget : Nat}

theorem tracks_gather {values values' : Node → Evaluation σ (List Value)} {good : Value → Value → Prop}
    {nodes nodes' : List Node} (hn : TranslatesAll context f nodes nodes' s t)
    (h : ∀ node ∈ nodes, ∀ node', Translates context f node node' s t →
      Tracks f (List.Forall₂ good) (values node) (values' node')) :
    Tracks f (List.Forall₂ good) (gather values nodes) (gather values' nodes') := by
  induction nodes generalizing nodes' with
  | nil =>
    cases hn
    exact tracks_pure .nil
  | cons node rest ih =>
    cases hn with
    | cons hnode hrest =>
      obtain ⟨hfirst, hothers⟩ := List.forall_mem_cons.mp h
      refine (hfirst _ hnode).bind fun vs ws hv => (ih hrest hothers).bind fun _ _ hvs => ?_
      exact tracks_pure (List.rel_append hv hvs)

/-- The closures of a lambda and of its translation. -/
theorem tracks_lambda {position : Nat} {x y : Text} {body body' : Node} (hbody : body.Placed)
    (htest : body.LambdasTest) (hx : x ∉ Builtin.testNames) (hs : Testing context s)
    (h : Translates context f (.lambda position x body) (.lambda position y body') s t) :
    Tracks f (Twins context f) (evaluate context budget (.lambda position x body) s)
      (evaluate context budget (.lambda position y body') t) := by
  cases h with
  | lambda _ h =>
    cases budget with
    | zero => exact tracks_throw .exhausted
    | succ budget => exact fun m => ⟨.ok (.intro hbody htest hx hs h), rfl⟩

variable (hf : GroundScope context.functions) (hs : Testing context s)
  (hnodes : NodesTrack context f budget)
include hs hnodes

theorem tracks_single {node node' : Node} (hp : node.Placed) (ht : node.LambdasTest)
    (h : Translates context f node node' s t) :
    Tracks f (List.Forall₂ Same) (single (evaluate context budget) s node)
      (single (evaluate context budget) t node') :=
  (hnodes node node' s t hp ht hs h).bind fun _ _ hv => tracks_pure (.cons hv .nil)

theorem tracks_items {nodes nodes' : List Node} (hp : ∀ node ∈ nodes, node.Placed)
    (ht : ∀ node ∈ nodes, node.LambdasTest) (h : TranslatesAll context f nodes nodes' s t) :
    Tracks f (List.Forall₂ Same) (items (evaluate context budget) s nodes)
      (items (evaluate context budget) t nodes') := by
  rw [items_eq_gather, items_eq_gather]
  exact tracks_gather h fun node hmem node' hnode =>
    tracks_single hs hnodes (hp node hmem) (ht node hmem) hnode

include hf

theorem tracks_arguments {name : Text} {nodes nodes' : List Node}
    (hp : ∀ node ∈ nodes, node.PlacedArgument) (ht : ∀ node ∈ nodes, node.LambdasTestFor name)
    (h : TranslatesAll context f nodes nodes' s t) :
    Tracks f (List.Forall₂ (PassedTo context f name))
      (arguments context (evaluate context budget) s nodes)
      (arguments context (evaluate context budget) t nodes') := by
  have hsame {vs ws : List Value} (h : List.Forall₂ Same vs ws) :
      List.Forall₂ (PassedTo context f name) vs ws := h.imp fun _ _ h => .inl h
  rw [arguments_eq_gather, arguments_eq_gather]
  refine tracks_gather h fun node hmem node' hnode => ?_
  have htest := ht node hmem
  cases hp node hmem with
  | spread =>
    cases hnode with
    | spread h => exact (tracks_spread hs hf h).mono fun _ _ => hsame
  | lambda hbody =>
    cases htest with
    | plain h => cases h
    | lambda hn hx htest =>
      have hcopy := hnode
      cases hcopy with
      | lambda _ _ =>
        exact (tracks_lambda hbody htest hx hs hnode).bind fun _ _ hv =>
          tracks_pure (.cons (.inr ⟨hn, hv⟩) .nil)
  | ofPlaced hplaced =>
    have hsingle (htest : node.LambdasTest) := tracks_single hs hnodes hplaced htest hnode
    have hself : argument context (evaluate context budget) t node' =
        single (evaluate context budget) t node' := by
      cases hnode with
      | spread => cases hplaced
      | _ => rfl
    rw [argument_of_placed hplaced, hself]
    cases htest with
    | plain htest => exact (hsingle htest).mono fun _ _ => hsame
    | lambda => cases hplaced

theorem tracks_call (hcalls : BuiltinsTrack context f budget) {p : Nat} {x y : Text}
    {nodes nodes' : List Node}
    (hp : ∀ node ∈ nodes, node.PlacedArgument) (ht : ∀ node ∈ nodes, node.LambdasTestFor x)
    (h : Means context (f p) x y s t) (hn : TranslatesAll context f nodes nodes' s t) :
    Tracks f Same
      (step context (evaluate context budget) (call context budget) (.call p x nodes) s)
      (step context (evaluate context budget) (call context budget) (.call p y nodes') t) := by
  rw [step, step]
  refine (tracks_lookup hs hf h).bind fun callee _ hcallee => ?_
  obtain ⟨⟨rfl, hground⟩, hlookup⟩ := hcallee
  obtain ⟨rfl, _⟩ := h
  cases hcallable : callee.isCallable with
  | false => exact tracks_fail (.notAFunction x) p
  | true =>
    obtain ⟨b, rfl⟩ := exists_builtin_of_isCallable hground hcallable
    have hb : x ∈ Builtin.testNames → b ∈ Builtin.tests := fun hx => by
      obtain ⟨b', hb', heq⟩ := hs.tests x hx _ hlookup hcallable
      cases heq
      exact hb'
    refine (tracks_arguments hf hs hnodes hp ht hn).bind fun vs ws hv => ?_
    refine (hcalls b vs ws (fits_of_passedTo hb hv)).attempt.bind fun r r' hr => ?_
    exact tracks_ofResult (respelt_callResult hr)

end Nodes

/-- A node is evaluated like its translation, if the nodes inside it are and calls of built-ins are. -/
theorem nodesTrack_succ (hf : GroundScope context.functions) {budget : Nat}
    (hnodes : NodesTrack context f budget) (hcalls : BuiltinsTrack context f budget) :
    NodesTrack context f (budget + 1) := by
  intro node node' s t hp ht hs h
  cases hp with
  | literal hv =>
    cases h
    exact tracks_pure ⟨rfl, hv⟩
  | identifier =>
    cases h with
    | identifier h => exact (tracks_lookup hs hf h).mono fun _ _ => And.left
  | array hp =>
    cases ht with
    | array ht =>
      cases h with
      | array h =>
        refine (tracks_items hs hnodes hp ht h).bind fun vs ws hv => ?_
        obtain ⟨rfl, hground⟩ := eq_of_forall₂_same hv
        exact tracks_pure ⟨rfl, Value.isGround_array_iff.mpr hground⟩
  | @call position name arguments hp =>
    cases ht with
    | call ht =>
      cases h with
      | call h hn => exact tracks_call hf hs hnodes hcalls hp ht h hn
  | @unary position operator operand hp =>
    cases ht with
    | unary ht =>
      cases h with
      | unary h =>
        refine (hnodes _ _ s t hp ht hs h).bind fun v w hv => ?_
        obtain ⟨rfl, _⟩ := hv
        exact tracks_ofResult (respelt_of_mapError_eq (Operation.respell_unary f _ _ _)
          fun _ => Operation.isGround_unary)
  | binary hpl hpr =>
    cases ht with
    | binary htl htr =>
      cases h with
      | binary hl hr =>
        refine (hnodes _ _ s t hpl htl hs hl).bind fun a a' ha => ?_
        refine (hnodes _ _ s t hpr htr hs hr).bind fun b b' hb => ?_
        obtain ⟨rfl, _⟩ := ha
        obtain ⟨rfl, _⟩ := hb
        exact tracks_ofResult (respelt_of_mapError_eq (Operation.respell_binary f _ _ _ _)
          fun _ => Operation.isGround_binary)
  | @logical position operator left right hpl hpr =>
    cases ht with
    | logical htl htr =>
      cases h with
      | @logical _ _ _ left' _ right' _ _ hl hr =>
        refine (hnodes _ _ s t hpl htl hs hl).bind fun v w hv => ?_
        obtain ⟨rfl, hground⟩ := hv
        refine (tracks_ofResult (respelt_ofFault v.truthy)).bind fun truth _ htruth => ?_
        subst htruth
        split
        · exact hnodes _ _ s t hpr htr hs hr
        · exact tracks_pure ⟨rfl, hground⟩

/-! ## Calls -/

/-- A built-in is called alike if what it is given is. -/
theorem builtinsTrack_succ {budget : Nat} (h : PassedTrack context f budget) :
    BuiltinsTrack context f (budget + 1) := by
  intro b vs ws hfits
  have hnull : Same .null .null := ⟨rfl, rfl⟩
  have hrun {callee callee' : Value} (hc : Passed context f callee callee')
      (he : Script.Echoes f callee callee' Same
        (b.script context.host.instant vs : Script σ Value) (b.script context.host.instant ws)) :
      Tracks f Same (call context (budget + 1) (.builtin b) vs)
        (call context (budget + 1) (.builtin b) ws) :=
    tracks_run (fun x hx => h _ _ x hc hx) he
  rcases hfits with hsame | ⟨hb, hpassed⟩
  · have hsecond := forall₂_getD hsame hnull 1
    obtain ⟨rfl, hground⟩ := eq_of_forall₂_same hsame
    exact hrun (.inl hsecond) (b.echoes_script_of_isGround _ hground)
  · refine hrun (forall₂_getD hpassed (.inl hnull) 1) ?_
    exact Builtin.echoes_script_of_mem_tests hb _ (hpassed.imp fun _ _ => Passed.alike)

/-- What built-ins are given is called alike if built-ins are, and the bodies of closures are evaluated
alike. -/
theorem passedTrack_succ {budget : Nat} (hnodes : NodesTrack context f budget)
    (hcalls : BuiltinsTrack context f (budget + 1)) : PassedTrack context f (budget + 1) := by
  intro v w x h hx
  rcases h with ⟨rfl, hv⟩ | ⟨hbody, htest, hparameter, hs, h⟩
  · cases v with
    | builtin b => exact hcalls b [x] [x] (.inl (.cons ⟨rfl, hx⟩ .nil))
    | host | closure => cases hv
    | _ => exact tracks_throw (.fault (.notCallable _))
  · exact hnodes _ _ _ _ hbody htest (hs.bind hparameter hx) (h x)

/-- Within any budget, trees that translate into each other are evaluated alike. -/
theorem nodes_and_calls_track (hf : GroundScope context.functions) (budget : Nat) :
    NodesTrack context f budget ∧ BuiltinsTrack context f budget ∧ PassedTrack context f budget := by
  induction budget with
  | zero =>
    refine ⟨?_, ?_, ?_⟩
    · exact fun _ _ _ _ _ _ _ _ => tracks_throw .exhausted
    · exact fun _ _ _ _ => tracks_throw .exhausted
    · exact fun _ _ _ _ _ => tracks_throw .exhausted
  | succ budget ih =>
    obtain ⟨hnodes, hcalls, hpassed⟩ := ih
    have hcalls' : BuiltinsTrack context f (budget + 1) := builtinsTrack_succ hpassed
    exact ⟨nodesTrack_succ hf hnodes hcalls, hcalls', passedTrack_succ hnodes hcalls'⟩

/-! ## Records -/

/-- With the built-in functions alone, the fields of a record are no other functions. -/
theorem testing_scopeOf {fields : Fields} (h : ∀ field ∈ fields, field.2.isModel = true)
    (registry : Text) (host : Host σ) :
    Testing (⟨host, (Registry.builtins registry).functions⟩ : Context σ) (scopeOf fields) := by
  refine ⟨groundScope_scopeOf h, fun x hx v hv hcallable => ?_⟩
  have hfunctions : (Registry.builtins registry).functions.lookup x = some v := by
    unfold lookup? at hv
    cases hl : (scopeOf fields).lookup x with
    | none => rwa [hl] at hv
    | some w =>
      rw [hl] at hv
      obtain ⟨field, hmem, hfield⟩ := exists_field_of_mem_scopeOf (mem_of_lookup_eq_some (hl.trans hv))
      have hmodel : field.2.isCallable = false := Value.isCallable_of_isModel (h field hmem)
      rw [hfield, hcallable] at hmodel
      cases hmodel
  obtain ⟨e, he, hentry⟩ := List.mem_map.mp (mem_of_lookup_eq_some hfunctions)
  obtain ⟨b, _, rfl⟩ := List.mem_map.mp he
  cases hentry
  exact ⟨b, Builtin.mem_tests_of_name_mem hx, rfl⟩

theorem settle_respell (source : Option Text) (e : Failure) :
    settle source (e.respell f) = (settle source e).respell f := by
  cases e with
  | engine error =>
    cases error with
    | expression x =>
      obtain ⟨stage, reason, text, position⟩ := x
      cases reason <;> cases position <;> rfl
    | _ => rfl
  | _ => rfl

theorem conclude_respell (source : Option Text) (v : Value) :
    (conclude source v).mapError (Failure.respell f) = conclude source v := by
  unfold conclude
  split
  · cases v.normalize <;> rfl
  · rfl

theorem leaving_of_respelt (source : Option Text) {r r' : Except Failure Value}
    (h : Respelt f Same r r') :
    Expression.leaving source r' = (Expression.leaving source r).mapError (Failure.respell f) := by
  cases h with
  | ok hv =>
    obtain ⟨rfl, _⟩ := hv
    exact (conclude_respell source _).symm
  | error e => exact congrArg Except.error (settle_respell source e)

end Evaluation

namespace Expression

open Evaluation
open Grammar (Phrase)
open Lexer (scan_token scan_nil)

variable {σ : Type}

theorem evaluateTree_eq_leaving {capacity : Nat} {context : Context σ} {tree : Node} {record : Value}
    {fields : Fields} {source : Option Text} {state : σ} (h : record.asFieldsOrNone = .ok fields) :
    evaluateTree capacity context tree record source state =
      (leaving source (outcome (evaluate context capacity tree (scopeOf fields)) ⟨state, 0⟩).1,
        (outcome (evaluate context capacity tree (scopeOf fields)) ⟨state, 0⟩).2.state) := by
  refine Prod.ext (evaluateTree_eq h) ?_
  rw [evaluateTree, h]
  rfl

/-- The parameter of a lambda may have any name that is not free in its body and is captured by no
lambda in it, also that of a field, a function or a parameter around it. With the built-in functions
alone, where lambdas are arguments of the built-ins that call them, the evaluation of a parsed text
over a record of model values has the same result: the same value, or the same error at the same
position, which quotes the new name where it would have quoted the old one. -/
theorem evaluateTree_renameParameter {capacity : Nat} {limits : Limits} {text : Text} {tree body : Node}
    {place : Nat} {old new : Text} {record : Value} {fields : Fields}
    (hparse : parseText capacity limits text = .ok tree) (htest : tree.LambdasTest)
    (hlambda : .lambda place old body ∈ tree.subtrees) (hfree : new ∉ body.freeNames)
    (hcaptures : body.captures old new = false) (hrecord : record.asFieldsOrNone = .ok fields)
    (hmodel : ∀ field ∈ fields, field.2.isModel = true) (registry : Text) (host : Host σ) (state : σ)
    (source : Option Text) (budget : Nat) :
    let context : Context σ := ⟨host, (Registry.builtins registry).functions⟩
    let renamed := tree.renameParameter place new
    let before := evaluateTree budget context tree record source state
    evaluateTree budget context renamed record source state =
      (before.1.mapError (Failure.respell (Node.respelling old new renamed)), before.2) := by
  intro context renamed before
  have hfunctions : GroundScope context.functions :=
    groundScope_of_builtins (exists_builtin_of_mem_functions registry)
  obtain ⟨hresult, hmachine⟩ := (nodes_and_calls_track hfunctions budget).1 tree renamed
    (scopeOf fields) (scopeOf fields) (placed_of_parseText hparse) htest
    (testing_scopeOf hmodel registry host)
    (translates_of_mem_subtrees (spaced_of_parseText hparse) hlambda hfree hcaptures context _)
    ⟨state, 0⟩
  have hbefore : before = (leaving source (outcome (evaluate context budget tree (scopeOf fields))
      ⟨state, 0⟩).1, (outcome (evaluate context budget tree (scopeOf fields)) ⟨state, 0⟩).2.state) :=
    evaluateTree_eq_leaving hrecord
  rw [evaluateTree_eq_leaving hrecord, leaving_of_respelt source hresult, ← hmachine, hbefore]

/-- A parameter gets the name of a field, which the argument before the lambda still means. The error in
the inner lambda quotes the parameter of the outer one. -/
theorem evaluateTree_renameParameter_of_nested :
    let text : Text := "any(a,x=>all(x,y=>x(y)))"
    let nested (x : Text) : Node := .call 0 "any" [.identifier 4 "a",
      .lambda 6 x (.call 9 "all" [.identifier 13 x, .lambda 15 "y" (.call 18 x [.identifier 20 "y"])])]
    let record : Value := .object [(.text "a", .array [.array [.integer 1]])]
    let context : Context Unit :=
      ⟨⟨fun _ _ => .finish (.ok .null), 0⟩, (Registry.builtins "functions").functions⟩
    let result (x : Text) := evaluateTree 20 context (nested x) record (some text) ()
    parseText 1000 ⟨.integer 6, .integer 30⟩ text = .ok (nested "x") ∧ (nested "x").LambdasTest ∧
      (nested "x").renameParameter 6 "a" = nested "a" ∧
      (reported? (result "x").1).map ExpressionError.message =
        some "'x' is not a function (at position 18)" ∧
      (reported? (result "a").1).map ExpressionError.message =
        some "'a' is not a function (at position 18)" ∧
      result "a" =
        ((result "x").1.mapError (Failure.respell (Node.respelling "x" "a" (nested "a"))),
          (result "x").2) := by
  intro text nested record context result
  let called : Phrase := .ofCall 18 "x" (.ofOne (.ofName 20 "y")) 21
  let every : Phrase := .ofCall 9 "all" (.ofTest 13 "x" "y" called) 22
  let some : Phrase := .ofCall 0 "any" (.ofTest 4 "a" "x" every) 23
  have hscan : Lexer.tokenize text = .ok (some.tokens ++ [⟨.ending, .null, 24, ""⟩]) := by
    simp only [some, every, called, Grammar.Tier.tokens_ofCall, Grammar.Listing.tokens_ofTest,
      Grammar.Listing.tokens_ofOne, Grammar.Tier.tokens_ofName, List.cons_append, List.nil_append]
    exact @scan_token 97 [110, 121] _ _ _ 0 _ rfl rfl <| @scan_token 40 [] _ _ _ 3 _ rfl rfl <|
      @scan_token 97 [] _ _ _ 4 _ rfl rfl <| @scan_token 44 [] _ _ _ 5 _ rfl rfl <|
      @scan_token 120 [] _ _ _ 6 _ rfl rfl <| @scan_token 61 [62] _ _ _ 7 _ rfl rfl <|
      @scan_token 97 [108, 108] _ _ _ 9 _ rfl rfl <| @scan_token 40 [] _ _ _ 12 _ rfl rfl <|
      @scan_token 120 [] _ _ _ 13 _ rfl rfl <| @scan_token 44 [] _ _ _ 14 _ rfl rfl <|
      @scan_token 121 [] _ _ _ 15 _ rfl rfl <| @scan_token 61 [62] _ _ _ 16 _ rfl rfl <|
      @scan_token 120 [] _ _ _ 18 _ rfl rfl <| @scan_token 40 [] _ _ _ 19 _ rfl rfl <|
      @scan_token 121 [] _ _ _ 20 _ rfl rfl <| @scan_token 41 [] _ _ _ 21 _ rfl rfl <|
      @scan_token 41 [] _ _ _ 22 _ rfl rfl <| @scan_token 41 [] _ _ _ 23 _ rfl rfl (scan_nil 24)
  have hl : Bounded ⟨.integer 6, .integer 30⟩ (.ofNat 30) (.ofNat 6) :=
    ⟨by decide +kernel, by decide +kernel⟩
  have hderives : Derives text some := ⟨⟨.ending, .null, 24, ""⟩, rfl, hscan⟩
  have hparse : parseText 1000 ⟨.integer 6, .integer 30⟩ text = .ok (nested "x") :=
    hderives.parseText_eq_ok hl (by decide) ⟨by decide, by decide⟩
  have hcalled : (Node.call 18 "x" [.identifier 20 "y"]).LambdasTest :=
    .call (List.forall_mem_singleton.mpr (.plain .identifier))
  have hinner : (Node.call 9 "all" [.identifier 13 "x", .lambda 15 "y" (.call 18 "x"
      [.identifier 20 "y"])]).LambdasTest :=
    .call (List.forall_mem_cons.mpr ⟨.plain .identifier,
      List.forall_mem_singleton.mpr (.lambda (by decide) (by decide) hcalled)⟩)
  have htest : (nested "x").LambdasTest :=
    .call (List.forall_mem_cons.mpr ⟨.plain .identifier,
      List.forall_mem_singleton.mpr (.lambda (by decide) (by decide) hinner)⟩)
  have hfree : ("a" : Text) ∉ (Node.call 9 "all" [.identifier 13 "x", .lambda 15 "y" (.call 18 "x"
      [.identifier 20 "y"])]).freeNames := by decide
  have hrecord : record.asFieldsOrNone = .ok [(.text "a", .array [.array [.integer 1]])] := rfl
  have key := evaluateTree_renameParameter hparse htest
    (List.mem_cons_of_mem _ (List.mem_cons_of_mem _ List.mem_cons_self)) hfree (by decide) hrecord
    (by decide) "functions" context.host () (.some text) 20
  exact ⟨hparse, htest, rfl, by decide +kernel, by decide +kernel, key⟩

end Expression
end Vetting
