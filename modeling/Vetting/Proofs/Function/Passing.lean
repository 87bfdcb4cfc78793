import Vetting.Proofs.Function.Conduct

/-!
# Functions without errors of their own

A function passes on what it is given: the closures that it calls, hands over, keeps and returns are
among those that it was given, and an error of an expression that it fails with is one that a call of
it failed with. This is said for all closures and all errors alike, so that a function can tell
neither where a closure comes from nor what an error says. The built-in functions pass on what they
are given.
-/

namespace Vetting

/-! ## Closures in values -/

namespace Value

mutual

/-- The closures in a value. What these have captured is not looked at. -/
def closures : Value → List Value
  | null | boolean _ | number _ | text _ | foreign _ | host _ | builtin _ => []
  | array items | tuple items => closuresIn items
  | object fields => closuresInFields fields
  | closure serial position parameter body scope => [closure serial position parameter body scope]

def closuresIn : List Value → List Value
  | [] => []
  | v :: vs => v.closures ++ closuresIn vs

def closuresInFields : Fields → List Value
  | [] => []
  | (k, v) :: rest => k.closures ++ (v.closures ++ closuresInFields rest)

end

def Holds (given : Value → Prop) (v : Value) : Prop := ∀ c ∈ v.closures, given c

mutual

theorem closures_of_isGround {v : Value} (h : v.isGround = true) : v.closures = [] := by
  match v with
  | null | boolean _ | number _ | text _ | foreign _ | builtin _ => rfl
  | array items => exact closuresIn_of_isGroundList h
  | tuple items => exact closuresIn_of_isGroundList h
  | object fields => exact closuresInFields_of_isGroundFields h
  | host _ | closure .. => cases h

theorem closuresIn_of_isGroundList {vs : List Value} (h : isGroundList vs = true) :
    closuresIn vs = [] := by
  match vs with
  | [] => rfl
  | v :: vs =>
    simp only [isGroundList, Bool.and_eq_true] at h
    rw [closuresIn, closures_of_isGround h.1, closuresIn_of_isGroundList h.2, List.nil_append]

theorem closuresInFields_of_isGroundFields {fields : Fields} (h : isGroundFields fields = true) :
    closuresInFields fields = [] := by
  match fields with
  | [] => rfl
  | (k, v) :: rest =>
    simp only [isGroundFields, Bool.and_eq_true] at h
    rw [closuresInFields, closures_of_isGround h.1.1, closures_of_isGround h.1.2,
      closuresInFields_of_isGroundFields h.2, List.nil_append, List.nil_append]

end

section Holds
variable {given : Value → Prop}

theorem holds_of_closures_eq_nil {v : Value} (h : v.closures = []) : v.Holds given := by
  rw [Holds, h]
  exact List.forall_mem_nil given

theorem holds_of_isGround {v : Value} (h : v.isGround = true) : v.Holds given :=
  holds_of_closures_eq_nil (closures_of_isGround h)

theorem holds_closure_iff {serial position : Nat} {parameter : Text} {body : Node} {scope : Scope} :
    (closure serial position parameter body scope).Holds given ↔
      given (closure serial position parameter body scope) := List.forall_mem_singleton

theorem forall_mem_closuresIn_iff {items : List Value} :
    (∀ c ∈ closuresIn items, given c) ↔ ∀ v ∈ items, v.Holds given := by
  induction items with
  | nil => simp [closuresIn]
  | cons v items ih =>
    rw [closuresIn, List.forall_mem_append, ih, List.forall_mem_cons]
    rfl

theorem holds_array_iff {items : List Value} :
    (array items).Holds given ↔ ∀ v ∈ items, v.Holds given := forall_mem_closuresIn_iff

theorem Holds.items {v : Value} (h : v.Holds given) {items : List Value} (hi : v.items? = some items) :
    ∀ item ∈ items, item.Holds given := by
  cases v with
  | array _ | tuple _ =>
    cases hi
    exact forall_mem_closuresIn_iff.mp h
  | _ => cases hi

end Holds

end Value

/-! ## Results -/

variable {σ α β : Type}

/-- Whether a result is good, or no error of an expression but one that may be raised. -/
structure Delivers (raised : ExpressionError → Prop) (good : α → Prop) (r : Except Failure α) : Prop where
  good : ∀ a, r = .ok a → good a
  raised : ∀ x, r = .error (.engine (.expression x)) → raised x

section Delivers
variable {raised : ExpressionError → Prop} {good : α → Prop}

theorem delivers_ok {a : α} (h : good a) : Delivers raised good (.ok a) := by
  constructor
  · rintro _ ⟨⟩
    exact h
  · rintro _ ⟨⟩

theorem delivers_error {e : Failure} (h : ∀ x, e = .engine (.expression x) → raised x) :
    Delivers raised good (.error e) := by
  refine ⟨?_, fun x hx => h x (Except.error.inj hx)⟩
  rintro _ ⟨⟩

theorem delivers_fault (f : Fault) : Delivers raised good (.error (.fault f)) := by
  refine delivers_error ?_
  rintro _ ⟨⟩

theorem delivers_exhausted : Delivers raised good (.error .exhausted) := by
  refine delivers_error ?_
  rintro _ ⟨⟩

end Delivers

/-! ## Scripts -/

/-- Scripts that pass on what they are given. The state of the host is such as they keep it. -/
inductive Script.PassesOn (given : Value → Prop) (raised : ExpressionError → Prop) (kept : σ → Prop)
    (good : α → Prop) : Script σ α → Prop
  | finish {r : Except Failure α} (h : Delivers raised good r) : PassesOn given raised kept good (.finish r)
  | call {callee : Value} {arguments : List Value} {resume : Except Failure Value → Script σ α}
      (hc : callee.Holds given) (ha : ∀ v ∈ arguments, v.Holds given)
      (hr : ∀ r, Delivers raised (Value.Holds given) r → PassesOn given raised kept good (resume r)) :
      PassesOn given raised kept good (.call callee arguments resume)
  | read {resume : σ → Script σ α} (h : ∀ s, kept s → PassesOn given raised kept good (resume s)) :
      PassesOn given raised kept good (.read resume)
  | write {s : σ} {rest : Script σ α} (hs : kept s) (h : PassesOn given raised kept good rest) :
      PassesOn given raised kept good (.write s rest)

/-- Whether what a given closure has captured is given as well. -/
def ClosedUnderCapture (given : Value → Prop) : Prop :=
  ∀ serial position parameter body scope, given (.closure serial position parameter body scope) →
    ∀ binding ∈ scope, binding.2.Holds given

/-- Whether the functions of a host, from a state on, pass on what they are given. They may look into
closures and errors, and their state may keep closures of the evaluation, but has none to begin with. -/
def Host.PassesOn (host : Host σ) (state : σ) : Prop :=
  ∀ (given : Value → Prop) (raised : ExpressionError → Prop), ClosedUnderCapture given →
    ∃ kept : σ → Prop, kept state ∧ ∀ f arguments, (∀ v ∈ arguments, v.Holds given) →
      (host.behaviour f arguments).PassesOn given raised kept (Value.Holds given)

variable {given : Value → Prop} {raised : ExpressionError → Prop} {kept : σ → Prop} {good : α → Prop}

def Terms.passing (given : Value → Prop) (raised : ExpressionError → Prop) : Terms where
  asks callee arguments := callee.Holds given ∧ ∀ v ∈ arguments, v.Holds given
  answered := Delivers raised (Value.Holds given)
  fails e := ∀ x, e = .engine (.expression x) → raised x
  fails_fault _ := nofun
  fails_of_answered _ h x hx := h.raised x (congrArg Except.error hx)

theorem Script.Abides.passesOn {script : Script σ α} (h : script.Abides (.passing given raised) good) :
    script.PassesOn given raised kept good := by
  induction h with
  | done h => exact .finish (delivers_ok h)
  | failed h => exact .finish (delivers_error h)
  | call hc _ ih => exact .call hc.1 hc.2 ih

theorem Builtin.passesOn_script {arguments : List Value} (h : ∀ v ∈ arguments, v.Holds given)
    (instant : Int) (b : Builtin) :
    (b.script instant arguments : Script σ Value).PassesOn given raised kept (Value.Holds given) := by
  have hmem (v : Value) (hv : v = .null ∨ v ∈ arguments) : v.Holds given := by
    rcases hv with rfl | hv
    · exact Value.holds_of_isGround rfl
    · exact h v hv
  have hfirst : (arguments.headD .null).Holds given := by
    refine hmem _ ?_
    cases arguments with
    | nil => exact .inl rfl
    | cons v rest => exact .inr List.mem_cons_self
  have hsecond : (arguments.getD 1 .null).Holds given := by
    refine hmem _ ?_
    rcases arguments with _ | ⟨first, _ | ⟨second, rest⟩⟩
    · exact .inl rfl
    · exact .inl rfl
    · exact .inr (List.mem_cons_of_mem first List.mem_cons_self)
  have hasks : arguments.getD 1 .null = .null ∨ ∀ x, x.Holds given →
      (Terms.passing given raised).asks (arguments.getD 1 .null) [x] :=
    .inr fun x hx => ⟨hsecond, List.forall_mem_singleton.mpr hx⟩
  exact (abides_script (fun _ => Value.holds_of_isGround) (fun _ => Value.holds_array_iff.mpr)
    (fun _ => hfirst.items) hasks instant b).passesOn

end Vetting
