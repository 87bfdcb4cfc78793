import Vetting.Proofs.Evaluation.Fault
import Vetting.Proofs.Function.Uniform
import Vetting.Proofs.Value.Key

/-!
# Free names

The value of a tree depends on the values of its free names only. Two evaluations of a tree, in scopes
that agree on its free names, build closures that have captured different scopes; but these agree on the
free names of the closures, and so on at any depth. Operators and functions cannot tell such values
apart, so the two evaluations go the same way and end with values that match.
-/

namespace Vetting

namespace Node

mutual

/-- The names in a tree that no lambda around them binds. -/
def freeNames : Node → List Text
  | literal .. | bare _ => []
  | identifier _ name | spread _ name => [name]
  | array _ items => freeNamesIn items
  | lambda _ parameter body => body.freeNames.filter fun name => name ≠ parameter
  | call _ name arguments => name :: freeNamesIn arguments
  | unary _ _ operand => operand.freeNames
  | binary _ _ left right | logical _ _ left right => left.freeNames ++ right.freeNames

def freeNamesIn : List Node → List Text
  | [] => []
  | node :: rest => node.freeNames ++ freeNamesIn rest

end

theorem freeNames_subset_freeNamesIn {node : Node} {nodes : List Node} (h : node ∈ nodes) :
    node.freeNames ⊆ freeNamesIn nodes := by
  induction nodes with
  | nil => cases h
  | cons first rest ih =>
    rw [freeNamesIn]
    rcases List.mem_cons.mp h with rfl | h
    · exact List.subset_append_left _ _
    · exact List.Subset.trans (ih h) (List.subset_append_right _ _)

end Node

namespace Evaluation

variable {σ α β : Type} {good : α → α → Prop} {also : β → β → Prop}

/-! ## Scopes -/

/-- Scopes that give matching values to the free names of a node: the closures among these have
captured scopes that agree in the same way. -/
inductive Agreeing : Node → Scope → Scope → Prop
  | intro {node : Node} {s t : Scope}
      (h : ∀ name ∈ node.freeNames,
        Option.Rel (Value.Matches Agreeing) (s.lookup name) (t.lookup name)) : Agreeing node s t

/-- Values whose closures agree on their free names. -/
abbrev Matches : Value → Value → Prop := Value.Matches Agreeing

/-- Lists of such values. -/
abbrev AllMatch : List Value → List Value → Prop := List.Forall₂ Matches

theorem Agreeing.at {node : Node} {s t : Scope} (h : Agreeing node s t) :
    ∀ name ∈ node.freeNames, Option.Rel Matches (s.lookup name) (t.lookup name) := by
  cases h with
  | intro h => exact h

theorem Agreeing.mono {node inner : Node} {s t : Scope} (h : Agreeing node s t)
    (hfree : inner.freeNames ⊆ node.freeNames) : Agreeing inner s t :=
  .intro fun name hname => h.at name (hfree hname)

mutual

/-- A value matches itself: what its closures have captured is inside it. -/
theorem matches_refl (v : Value) : Matches v v := by
  match v with
  | .null => exact .null
  | .boolean b => exact .boolean b
  | .number n => exact .number n
  | .text t => exact .text t
  | .array items => exact .array (allMatch_refl items)
  | .tuple items => exact .tuple (allMatch_refl items)
  | .object fields => exact .object (matchesFields_refl fields)
  | .foreign thing => exact .foreign thing
  | .host f => exact .host f
  | .builtin b => exact .builtin b
  | .closure _ _ _ _ scope => exact .closure (.intro fun name _ => lookup_refl scope name)

theorem allMatch_refl (vs : List Value) : AllMatch vs vs := by
  match vs with
  | [] => exact .nil
  | v :: vs => exact .cons (matches_refl v) (allMatch_refl vs)

theorem matchesFields_refl (fields : Fields) : Value.MatchesFields Agreeing fields fields := by
  match fields with
  | [] => exact .nil
  | (k, v) :: rest => exact .cons (matches_refl k) (matches_refl v) (matchesFields_refl rest)

theorem lookup_refl (s : Scope) (name : Text) :
    Option.Rel Matches (s.lookup name) (s.lookup name) := by
  match s with
  | [] => exact .none
  | (n, v) :: rest =>
    rw [List.lookup_cons]
    split
    · exact .some (matches_refl v)
    · exact lookup_refl rest name

end

theorem agreeing_of_lookup_eq {node : Node} {s t : Scope}
    (h : ∀ name ∈ node.freeNames, s.lookup name = t.lookup name) : Agreeing node s t :=
  .intro fun name hname => h name hname ▸ lookup_refl s name

/-- Within a lambda its parameter is bound as well. -/
theorem Agreeing.bind {position : Nat} {parameter : Text} {body : Node} {s t : Scope} {v w : Value}
    (h : Agreeing (.lambda position parameter body) s t) (hv : Matches v w) :
    Agreeing body ((parameter, v) :: s) ((parameter, w) :: t) := by
  refine .intro fun name hname => ?_
  by_cases hp : name = parameter
  · subst hp
    simpa using hv
  · have hfree : name ∈ (Node.lambda position parameter body).freeNames := by
      simpa [Node.freeNames, hp] using hname
    rw [List.lookup_cons, List.lookup_cons, beq_false_of_ne hp]
    exact h.at name hfree

/-! ## Computations -/

/-- Computations that, when as many closures have been built, end with the same error or with good
values, and build as many closures. -/
def Agree (good : α → α → Prop) (c c' : Evaluation σ α) : Prop :=
  ∀ m m' : Machine σ, m.closures = m'.closures →
    SameResult good (outcome c m).1 (outcome c' m').1 ∧
      (outcome c m).2.closures = (outcome c' m').2.closures

theorem agree_ofResult {r r' : Except Failure α} (h : SameResult good r r') :
    Agree good (ofResult r : Evaluation σ α) (ofResult r') := fun _ _ hm => ⟨h, hm⟩

theorem agree_pure {a b : α} (h : good a b) : Agree good (pure a : Evaluation σ α) (pure b) :=
  agree_ofResult (.ok h)

theorem agree_throw (e : Failure) : Agree good (throw e : Evaluation σ α) (throw e) :=
  agree_ofResult (.error e)

theorem agree_fail (problem : EvaluationProblem) (position : Nat) :
    Agree good (fail problem position : Evaluation σ α) (fail problem position) := agree_throw _

theorem Agree.bind {c c' : Evaluation σ α} {f f' : α → Evaluation σ β} (h : Agree good c c')
    (hf : ∀ a b, good a b → Agree also (f a) (f' b)) : Agree also (c >>= f) (c' >>= f') := by
  intro m m' hm
  have hc := h m m' hm
  rw [outcome_bind, outcome_bind]
  generalize outcome c m = x at hc ⊢
  generalize outcome c' m' = x' at hc ⊢
  obtain ⟨r, u⟩ := x
  obtain ⟨r', u'⟩ := x'
  obtain ⟨hr, hc⟩ := hc
  cases hr with
  | ok hab => exact hf _ _ hab u u' hc
  | error e => exact ⟨.error e, hc⟩

theorem Agree.attempt {c c' : Evaluation σ α} (h : Agree good c c') :
    Agree (SameResult good) c.attempt c'.attempt := fun m m' hm =>
  ⟨.ok (h m m' hm).1, (h m m' hm).2⟩

/-! ## Scripts -/

/-- Matching scripts agree when matching values that they call agree. -/
theorem agree_run {call : Value → List Value → Evaluation σ Value}
    (hcall : ∀ callee callee' arguments arguments', Matches callee callee' →
      AllMatch arguments arguments' → Agree Matches (call callee arguments) (call callee' arguments'))
    {script script' : Script σ α} (h : Script.Matches Agreeing good script script') :
    Agree good (script.run call) (script'.run call) := by
  induction h with
  | finish h => exact agree_ofResult h
  | call hc ha _ ih =>
    rw [Script.run, Script.run]
    refine (hcall _ _ _ _ hc ha).attempt.bind fun r r' hr => ?_
    cases hr with
    | ok hv => exact ih _ _ (.ok hv)
    | error e =>
      cases e with
      | exhausted => exact agree_throw _
      | _ => exact ih _ _ (.error _)
  | read _ ih => exact fun m m' hm => ih m.state m'.state m m' hm
  | write s t _ ih => exact fun m m' hm => ih ⟨s, m.closures⟩ ⟨t, m'.closures⟩ hm

/-! ## Nodes -/

section Step
variable {context : Context σ} {s t : Scope}

theorem matches_lookup? {node : Node} {name : Text} (h : Agreeing node s t)
    (hname : name ∈ node.freeNames) :
    Option.Rel Matches (lookup? context s name) (lookup? context t name) := by
  have hrel := h.at name hname
  unfold lookup?
  generalize s.lookup name = v at hrel ⊢
  generalize t.lookup name = w at hrel ⊢
  cases hrel with
  | none => exact lookup_refl context.functions name
  | some hv => exact .some hv

theorem agree_lookup {node : Node} {name : Text} (h : Agreeing node s t)
    (hname : name ∈ node.freeNames) (position : Nat) :
    Agree Matches (lookup context s name position) (lookup context t name position) := by
  have hrel : Option.Rel Matches (lookup? context s name) (lookup? context t name) :=
    matches_lookup? h hname
  unfold lookup
  generalize lookup? context s name = v at hrel ⊢
  generalize lookup? context t name = w at hrel ⊢
  cases hrel with
  | none => exact agree_fail _ _
  | some hv => exact agree_pure hv

theorem agree_spread {node : Node} {name : Text} (h : Agreeing node s t)
    (hname : name ∈ node.freeNames) (position : Nat) :
    Agree AllMatch (spread context s name position) (spread context t name position) := by
  refine (agree_lookup h hname position).bind fun v w hv => ?_
  have hd := hv.describe_eq
  cases hv with
  | array h => exact agree_pure h
  | tuple h => exact agree_pure h
  | _ => exact agree_fail _ _

theorem agree_newClosure {position : Nat} {parameter : Text} {body : Node}
    (h : Agreeing (.lambda position parameter body) s t) :
    Agree Matches (newClosure position parameter body s : Evaluation σ Value)
      (newClosure position parameter body t) := by
  intro m m' hm
  refine ⟨.ok ?_, congrArg (· + 1) hm⟩
  rw [hm]
  exact .closure h

theorem agree_gather {f f' : Node → Evaluation σ (List Value)} {nodes : List Node}
    (h : ∀ node ∈ nodes, Agree AllMatch (f node) (f' node)) :
    Agree AllMatch (gather f nodes) (gather f' nodes) := by
  induction nodes with
  | nil => exact agree_pure .nil
  | cons node rest ih =>
    obtain ⟨hnode, hrest⟩ := List.forall_mem_cons.mp h
    exact hnode.bind fun _ _ hv => (ih hrest).bind fun _ _ hvs => agree_pure (List.rel_append hv hvs)

theorem matches_untuple {v w : Value} (h : Matches v w) : Matches (untuple v) (untuple w) := by
  have hvw := h
  cases h with
  | tuple h => exact .array h
  | _ => exact hvw

theorem matches_callResult (name : Text) (position : Nat) {r r' : Except Failure Value}
    (h : SameResult Matches r r') :
    SameResult Matches (callResult name position r) (callResult name position r') := by
  cases h with
  | error e => exact .error _
  | ok hv =>
    have hu := matches_untuple hv
    dsimp only [callResult]
    rw [hu.isModel_eq, hu.isCallable_eq, hu.describe_eq]
    split
    · exact .ok hu
    · exact .error _

/-! ## Evaluations -/

variable {below : Node → Scope → Evaluation σ Value} {call : Value → List Value → Evaluation σ Value}
  (hbelow : ∀ node s t, Agreeing node s t → Agree Matches (below node s) (below node t))

section Nodes
include hbelow

theorem agree_single {node : Node} (h : Agreeing node s t) :
    Agree AllMatch (single below s node) (single below t node) :=
  (hbelow node s t h).bind fun _ _ hv => agree_pure (.cons hv .nil)

theorem agree_items {nodes : List Node} (h : ∀ node ∈ nodes, Agreeing node s t) :
    Agree AllMatch (items below s nodes) (items below t nodes) := by
  rw [items_eq_gather, items_eq_gather]
  exact agree_gather fun node hnode => agree_single hbelow (h node hnode)

theorem agree_arguments {nodes : List Node} (h : ∀ node ∈ nodes, Agreeing node s t) :
    Agree AllMatch (arguments context below s nodes) (arguments context below t nodes) := by
  rw [arguments_eq_gather, arguments_eq_gather]
  refine agree_gather fun node hnode => ?_
  have hsingle := agree_single hbelow (h node hnode)
  cases node with
  | spread position name => exact agree_spread (h _ hnode) List.mem_cons_self position
  | _ => exact hsingle

end Nodes

variable (hcall : ∀ callee callee' arguments arguments', Matches callee callee' →
  AllMatch arguments arguments' → Agree Matches (call callee arguments) (call callee' arguments'))
include hbelow hcall

/-- A node has matching values in scopes that agree on it, if the nodes inside it have and calls do. -/
theorem agree_step {node : Node} (h : Agreeing node s t) :
    Agree Matches (step context below call node s) (step context below call node t) := by
  cases node with
  | literal position v => exact agree_pure (matches_refl v)
  | identifier position name => exact agree_lookup h List.mem_cons_self position
  | array position nodes =>
    have hnodes : ∀ node ∈ nodes, Agreeing node s t := fun node hnode =>
      h.mono (Node.freeNames_subset_freeNamesIn hnode)
    exact (agree_items hbelow hnodes).bind fun _ _ hv => agree_pure (.array hv)
  | spread position name =>
    exact (agree_spread h List.mem_cons_self position).bind fun _ _ hv => agree_pure (.array hv)
  | lambda position parameter body => exact agree_newClosure h
  | call position name nodes =>
    have hnodes : ∀ node ∈ nodes, Agreeing node s t := fun node hnode =>
      h.mono (List.subset_cons_of_subset _ (Node.freeNames_subset_freeNamesIn hnode))
    refine (agree_lookup h List.mem_cons_self position).bind fun callee callee' hcallee => ?_
    have hfail : Agree Eq (fail (.notAFunction name) position : Evaluation σ PUnit)
      (fail (.notAFunction name) position) := agree_fail _ _
    have happlied : Agree Matches
        (do
          let values ← arguments context below s nodes
          let outcome ← (call callee values).attempt
          ofResult (callResult name position outcome))
        (do
          let values ← arguments context below t nodes
          let outcome ← (call callee' values).attempt
          ofResult (callResult name position outcome)) := by
      refine (agree_arguments hbelow hnodes).bind fun values values' hvalues => ?_
      refine (hcall _ _ _ _ hcallee hvalues).attempt.bind fun r r' hr => ?_
      exact agree_ofResult (matches_callResult name position hr)
    dsimp only
    rw [hcallee.isCallable_eq]
    split
    · exact hfail.bind fun _ _ _ => happlied
    · exact happlied
  | unary position operator operand =>
    refine (hbelow operand s t (h.mono (List.Subset.refl _))).bind fun v w hv => agree_ofResult ?_
    rw [← Operation.unary_forget, hv.forget_eq, Operation.unary_forget]
    exact .refl matches_refl _
  | binary position operator left right =>
    have hleft := hbelow left s t (h.mono (List.subset_append_left _ _))
    have hright := hbelow right s t (h.mono (List.subset_append_right _ _))
    refine hleft.bind fun a a' ha => hright.bind fun b b' hb => agree_ofResult ?_
    rw [← Operation.binary_forget, ha.forget_eq, hb.forget_eq, Operation.binary_forget]
    exact .refl matches_refl _
  | logical position operator left right =>
    have hleft := hbelow left s t (h.mono (List.subset_append_left _ _))
    have hright := hbelow right s t (h.mono (List.subset_append_right _ _))
    refine hleft.bind fun v w hv => ?_
    rw [hv.truthy_eq]
    have htruthy : Agree Eq (ofFault w.truthy : Evaluation σ Bool) (ofFault w.truthy) :=
      agree_ofResult (.refl (fun _ => rfl) _)
    refine htruthy.bind fun truth _ htruth => ?_
    subst htruth
    split
    · exact hright
    · exact agree_pure hv
  | bare position => exact agree_fail _ _

end Step

/-- On a uniform host, a node has matching values in scopes that agree on its free names, and matching
values that are called with matching ones return matching ones. -/
theorem agree_evaluate_and_call {context : Context σ} (hhost : context.host.Uniform) (budget : Nat) :
    (∀ node s t, Agreeing node s t →
        Agree Matches (evaluate context budget node s) (evaluate context budget node t)) ∧
      ∀ callee callee' arguments arguments', Matches callee callee' → AllMatch arguments arguments' →
        Agree Matches (call context budget callee arguments) (call context budget callee' arguments') := by
  induction budget with
  | zero => exact ⟨fun _ _ _ _ => agree_throw _, fun _ _ _ _ _ _ => agree_throw _⟩
  | succ budget ih =>
    obtain ⟨hbelow, hcall⟩ := ih
    refine ⟨fun node s t h => agree_step hbelow hcall h, ?_⟩
    intro callee callee' arguments arguments' hcallee harguments
    cases hcallee with
    | host f => exact agree_run hcall (hhost Agreeing matches_refl f _ _ harguments)
    | builtin b => exact agree_run hcall (b.matches_script matches_refl _ harguments)
    | @closure serial position parameter body s t h =>
      -- a closure takes one argument; the body's free names are the closure's and the parameter
      rcases harguments with _ | ⟨hv, _ | ⟨_, hrest⟩⟩
      · exact agree_fail _ _
      · exact hbelow body _ _ (h.bind hv)
      · show Agree Matches (fail (.lambdaArity parameter (_ + 2)) position)
          (fail (.lambdaArity parameter (_ + 2)) position)
        rw [hrest.length_eq]
        exact agree_fail _ _
    | _ => exact agree_throw _

/-! ## Records -/

theorem lookup_scopeOf (fields : Fields) (name : Text) :
    (scopeOf fields).lookup name = fields.field? name := by
  induction fields with
  | nil => rfl
  | cons field rest ih =>
    obtain ⟨key, v⟩ := field
    rw [Fields.field?, Fields.get?]
    by_cases hkey : key.sameKey (.text name) = true
    · rw [if_pos hkey, Value.eq_text_of_sameKey hkey]
      exact List.lookup_cons_self
    · rw [if_neg hkey, ← Fields.field?, ← ih]
      cases key with
      | text n =>
        have hne : name ≠ n := by
          rintro rfl
          exact hkey (by simp)
        have hcons : scopeOf ((.text n, v) :: rest) = (n, v) :: scopeOf rest := rfl
        rw [hcons, List.lookup_cons, beq_false_of_ne hne]
      | _ => rfl

theorem conclude_eq_of_matches (source : Option Text) {v w : Value} (h : Matches v w) :
    conclude source v = conclude source w := by
  rw [conclude, conclude, h.isModel_eq, h.describe_eq]
  split
  · rename_i hw
    rw [h.eq_of_isModel (h.isModel_eq ▸ hw)]
  · rfl

/-- On a host whose functions are pure and use closures only as functions, a tree has the same value, or
the same error, over records that agree on its free names: what else is in the records makes no
difference, nor does the state of the host. -/
theorem evaluateTree_eq_of_free_names_agree {context : Context σ} (hhost : context.host.Uniform)
    {tree : Node} {record record' : Value} {fields fields' : Fields}
    (hrecord : record.asFieldsOrNone = .ok fields) (hrecord' : record'.asFieldsOrNone = .ok fields')
    (hagree : ∀ name ∈ tree.freeNames, fields.field? name = fields'.field? name) (capacity : Nat)
    (source : Option Text) (state state' : σ) :
    (Expression.evaluateTree capacity context tree record source state).1 =
      (Expression.evaluateTree capacity context tree record' source state').1 := by
  have hscopes : Agreeing tree (scopeOf fields) (scopeOf fields') :=
    agreeing_of_lookup_eq fun name hname => by
      rw [lookup_scopeOf, lookup_scopeOf, hagree name hname]
  have hrun := ((agree_evaluate_and_call hhost capacity).1 tree _ _ hscopes ⟨state, 0⟩ ⟨state', 0⟩ rfl).1
  unfold Expression.evaluateTree
  rw [hrecord, hrecord']
  unfold outcome at hrun
  dsimp only
  generalize (evaluate context capacity tree (scopeOf fields)).run ⟨state, 0⟩ = x at hrun ⊢
  generalize (evaluate context capacity tree (scopeOf fields')).run ⟨state', 0⟩ = x' at hrun ⊢
  obtain ⟨r, m⟩ := x
  obtain ⟨r', m'⟩ := x'
  cases hrun with
  | ok hv => exact conclude_eq_of_matches source hv
  | error e => rfl

/-! ## A record that says more -/

/-- A host whose functions call the first of two arguments with the second, and return any others. -/
def applying : Host Unit where
  behaviour _ arguments :=
    match arguments with
    | [callee, v] => .apply callee [v]
    | _ => pure (.array arguments)
  instant := 0

theorem uniform_applying : applying.Uniform := by
  intro related _ f arguments arguments' h
  have hreturned : Script.Matches related (Value.Matches related)
      (pure (.array arguments) : Script Unit Value) (pure (.array arguments')) :=
    Script.matches_pure (.array h)
  rcases h with _ | ⟨hcallee, _ | ⟨hv, _ | ⟨_, _⟩⟩⟩
  · exact hreturned
  · exact hreturned
  · exact .call hcallee (.cons hv .nil) fun _ _ hr => .finish hr
  · exact hreturned

/-- `apply(x => x + a, 1)` -/
def appliedSum : Node :=
  .call 0 "apply" [.lambda 6 "x" (.binary 13 "+" (.identifier 11 "x") (.identifier 15 "a")),
    .literal 18 (.integer 1)]

/-- What a record says about the parameter of the lambda makes no difference. -/
theorem appliedSum_sees_a_only :
    applying.Uniform ∧
      (Value.object [(.text "a", .integer 2)]).asFieldsOrNone = .ok [(.text "a", .integer 2)] ∧
      (Value.object [(.text "x", .null), (.text "a", .integer 2)]).asFieldsOrNone =
        .ok [(.text "x", .null), (.text "a", .integer 2)] ∧
      (∀ name ∈ appliedSum.freeNames, Fields.field? [(.text "a", .integer 2)] name =
        Fields.field? [(.text "x", .null), (.text "a", .integer 2)] name) ∧
      (Expression.evaluateTree 450 ⟨applying, [("apply", .host ⟨"apply", 0, none⟩)]⟩ appliedSum
          (.object [(.text "a", .integer 2)]) none ()).1 =
        (Expression.evaluateTree 450 ⟨applying, [("apply", .host ⟨"apply", 0, none⟩)]⟩ appliedSum
          (.object [(.text "x", .null), (.text "a", .integer 2)]) none ()).1 := by
  have hnames : appliedSum.freeNames = [("apply" : Text), "a"] := by decide
  have hagree : ∀ name ∈ appliedSum.freeNames, Fields.field? [(.text "a", .integer 2)] name =
      Fields.field? [(.text "x", .null), (.text "a", .integer 2)] name := by
    rw [hnames]
    exact List.forall_mem_cons.mpr ⟨rfl, List.forall_mem_singleton.mpr rfl⟩
  exact ⟨uniform_applying, rfl, rfl, hagree,
    evaluateTree_eq_of_free_names_agree uniform_applying rfl rfl hagree 450 none () ()⟩

end Evaluation
end Vetting
