import Vetting.Proofs.Function.Registry
import Vetting.Proofs.Resolver.Environment
import Vetting.Proofs.Resolver.Sight

/-!
# Resolvers side by side

Several resolvers are in use over one session: each is set up from the same criteria, learns functions
and is asked for replies, in any order. A request leaves a resolver as it is, and a registration adds
one function to it or leaves it as it is; the session goes on either way.
-/

namespace Vetting

open Engine

variable {σ α : Type}

/-! ## Calls and answers -/

/-- What a resolver is set up with, besides criteria. -/
structure Setup where
  language : Value
  functions : List (Text × Value)
  catalog : Catalog

/-- What a resolver can be asked for. -/
inductive Request where
  | validation (record : Value)
  | query (record : Value)
  | value (id record : Value)
  | computation (expression record : Value)
  | equation (template sources : Value)
  | truth (template sources : Value)
  | validEquation (template record : Value)

/-- What a resolver answers to a request. -/
inductive Reply where
  | summary (summary : Summary)
  | result (result : QueryResult)
  | value (v : Value)
  | equation (processed : ProcessedEquation)
  | truth (truth : Bool)
  | verdict (verdict : EquationVerdict)

/-- What can be done with a resolver in use: a function is registered, something is asked for, or its
functions are. -/
inductive Action where
  | register (name function : Value) (description : Text)
  | ask (request : Request)
  | functions

inductive Answer where
  | done
  | reply (reply : Reply)
  | functions (scope : Scope)

def Request.use : Request → Use σ Reply
  | validation record => .summary <$> Use.validateAll record
  | query record => .result <$> Use.processQuery record
  | value id record => .value <$> Use.resolveValue id record
  | computation expression record => .value <$> Use.compute expression record
  | equation template sources => .equation <$> Use.processEquation template sources
  | truth template sources => .truth <$> Use.evaluateEquation template sources
  | validEquation template record => .verdict <$> Use.validateEquation template record

def Request.replyOf (r : Resolver) : Request → Engine σ Reply
  | validation record => .summary <$> r.validateAll record
  | query record => .result <$> r.processQuery record
  | value id record => .value <$> r.resolveValue id record
  | computation expression record => .value <$> r.compute expression record
  | equation template sources => .equation <$> r.processEquation template sources
  | truth template sources => .truth <$> r.evaluateEquation template sources
  | validEquation template record => .verdict <$> r.validateEquation template record

def Action.use : Action → Use σ Answer
  | register name function description => do
    Use.registerFunction name function description
    return .done
  | ask request => .reply <$> request.use
  | functions => do
    let r ← Use.resolver
    return .functions r.functions

/-- A resolver in use with what it was set up with. -/
structure Member where
  setup : Setup
  resolver : Resolver
  evaluated : Bool

/-- Resolvers over one session. -/
structure Group (σ : Type) where
  members : List Member
  session : Session σ

/-- One more resolver is set up, or something is done with one that there is. -/
inductive Call where
  | setUp (setup : Setup)
  | on (i : Nat) (action : Action)

namespace Group

/-- What a call answers, if there is a resolver to answer, and the resolvers after it. -/
def step (configs : List Criterion) (g : Group σ) : Call → Option (Except Failure Answer) × Group σ
  | .setUp setup =>
    match outcome (Resolver.create (.loaded configs) setup.language setup.functions setup.catalog)
      g.session with
    | (.ok resolver, session) => (some (.ok .done), ⟨g.members ++ [⟨setup, resolver, false⟩], session⟩)
    | (.error e, session) => (some (.error e), { g with session })
  | .on i action =>
    match g.members[i]? with
    | none => (none, g)
    | some member =>
      match outcome action.use ⟨member.resolver, member.evaluated, g.session⟩ with
      | (answer, usage) =>
        (some answer, ⟨g.members.set i ⟨member.setup, usage.resolver, usage.evaluated⟩, usage.session⟩)

/-- The answers to calls one after the other, and the resolvers after them. -/
def run (configs : List Criterion) (g : Group σ) :
    List Call → List (Option (Except Failure Answer)) × Group σ
  | [] => ([], g)
  | call :: rest =>
    let (answer, next) := g.step configs call
    let (answers, last) := next.run configs rest
    (answer :: answers, last)

end Group

/-- The function that a call registers on a resolver, if it answers that it did. -/
def Call.registered (i : Nat) : Call → Option (Except Failure Answer) → List (Text × Value)
  | .on j (.register (.text name) function _), some (.ok _) => if j = i then [(name, function)] else []
  | _, _ => []

/-- The functions that calls register on a resolver, by their answers. -/
def registeredOn (i : Nat) (calls : List Call) (answers : List (Option (Except Failure Answer))) :
    List (Text × Value) :=
  (List.zipWith (Call.registered i) calls answers).flatten

namespace Call

variable (i j : Nat) (answer : Option (Except Failure Answer))

@[simp] theorem registered_setUp (setup : Setup) : (setUp setup).registered i answer = [] := rfl

@[simp] theorem registered_ask (request : Request) :
    (on j (.ask request)).registered i answer = [] := rfl

@[simp] theorem registered_functions : (on j .functions).registered i answer = [] := rfl

@[simp] theorem registered_none (call : Call) : call.registered i none = [] := by
  unfold registered
  split
  · rename_i h
    cases h
  · rfl

@[simp] theorem registered_error (call : Call) (e : Failure) :
    call.registered i (some (.error e)) = [] := by
  unfold registered
  split
  · rename_i h
    cases h
  · rfl

theorem registered_of_ne {i j : Nat} (h : j ≠ i) (action : Action) :
    (on j action).registered i answer = [] := by
  unfold registered
  split
  · cases ‹on j action = _›
    exact if_neg h
  · rfl

end Call

/-! ## One call -/

section Use

theorem Use.outcome_ofEngine (operation : Resolver → Engine σ α) (usage : Usage σ) :
    outcome (Use.ofEngine operation) usage =
      ((outcome (operation usage.resolver) usage.session).1,
        { usage with session := (outcome (operation usage.resolver) usage.session).2 }) := rfl

theorem Use.outcome_evaluating (operation : Resolver → Engine σ α) (usage : Usage σ) :
    outcome (Use.evaluating operation) usage =
      ((outcome (operation usage.resolver) usage.session).1,
        { usage with
          evaluated := true
          session := (outcome (operation usage.resolver) usage.session).2 }) := rfl

theorem Request.outcome_use (request : Request) (usage : Usage σ) :
    outcome request.use usage =
      ((outcome (request.replyOf usage.resolver) usage.session).1,
        { usage with
          evaluated := true
          session := (outcome (request.replyOf usage.resolver) usage.session).2 }) := by
  cases request <;>
    simp only [Request.use, Request.replyOf, outcome_map, Use.validateAll, Use.processQuery,
      Use.resolveValue, Use.compute, Use.processEquation, Use.evaluateEquation,
      Use.validateEquation, Use.outcome_evaluating]

theorem Resolver.ShowsAs.replyOf {r r' : Resolver} (h : r.ShowsAs r') (request : Request) :
    (request.replyOf r : Engine σ Reply) = request.replyOf r' := by
  cases request <;>
    simp only [Request.replyOf, h.validateAll, h.processQuery, h.resolveValue, h.compute,
      h.processEquation, h.evaluateEquation, h.validateEquation]

theorem Request.advances_replyOf (r : Resolver) (request : Request) :
    Advances (request.replyOf r : Engine σ Reply) := by
  have hmap {α : Type} {f : α → Reply} {m : Engine σ α} (h : Advances m) : Advances (f <$> m) := by
    intro t ht
    rw [outcome_map]
    exact h t ht
  cases request with
  | validation record => exact hmap (r.advances_validateAll record)
  | query record => exact hmap (r.advances_processQuery record)
  | value id record => exact hmap (r.advances_resolveValue id record)
  | computation expression record => exact hmap (advances_evaluate _ expression record)
  | equation template sources => exact hmap (r.advances_processEquation template sources)
  | truth template sources =>
    exact hmap (advances_bind (r.advances_processEquation template sources) fun _ => advances_pure _)
  | validEquation template record => exact hmap (r.advances_validateEquation template record)

end Use

/-! ## Registrations -/

section Registrations
variable {name function : Value} {description : Text}

/-- What a registration does to a resolver: the function is in its registry, or all is as before. -/
inductive Resolver.Registers (r : Resolver) (name function : Value) (description : Text) :
    Except Failure Unit → Resolver → Prop
  | added {registry : Registry}
      (h : r.registry.add name function description Registry.customCategory false = .ok registry) :
      Registers r name function description (.ok ()) { r with registry }
  | failed {e : Failure} : Registers r name function description (.error e) r

def Use.addFunction (name function : Value) (description : Text) : Use σ Unit := do
  let registry ← ofEngine fun r =>
    Engine.ofResult (r.registry.add name function description Registry.customCategory false)
  modify fun usage => { usage with resolver := { usage.resolver with registry } }
  ofEngine fun _ => Engine.log (.debug "Function registered" [("function", name)])

theorem Use.registerFunction_eq : (registerFunction name function description : Use σ Unit) = (do
    let usage ← get
    if usage.evaluated then
      ofEngine fun _ =>
        Engine.log (.warning "Function registered after evaluation started" [("function", name)])
    addFunction name function description) := rfl

variable {s : Session σ} {usage usage' : Usage σ} {answer : Except Failure Unit}

theorem Use.registers_of_addFunction (hs : s.Ready) (hu : s.Later usage.session)
    (h : outcome (addFunction name function description) usage = (answer, usage')) :
    s.Later usage'.session ∧
      usage.resolver.Registers name function description answer usage'.resolver := by
  rw [addFunction, outcome_bind, outcome_ofEngine, Engine.outcome_ofResult] at h
  cases hadd : usage.resolver.registry.add name function description Registry.customCategory false with
  | error e =>
    rw [hadd] at h
    cases h
    exact ⟨hu, .failed⟩
  | ok registry =>
    rw [hadd, proceed_ok, outcome_bind, outcome_modify, proceed_ok, outcome_ofEngine] at h
    -- a name that was registered is a text, which the log can write
    obtain ⟨t, rfl, _⟩ := Registry.add_eq_ok hadd
    have hplain : (LogEvent.debug "Function registered" [("function", .text t)]).Plain :=
      ⟨rfl, List.forall_mem_singleton.mpr (.inl rfl)⟩
    obtain ⟨_, hlog, _⟩ := Engine.outcome_log (hu.ready hs) hplain
    have hlater := (advances_log _).later_of hu hlog
    dsimp only at h
    rw [hlog] at h
    cases h
    exact ⟨hlater, .added hadd⟩

theorem Use.registers_of_registerFunction (hs : s.Ready) (hu : s.Later usage.session)
    (h : outcome (registerFunction name function description) usage = (answer, usage')) :
    s.Later usage'.session ∧
      usage.resolver.Registers name function description answer usage'.resolver := by
  rw [registerFunction_eq, outcome_bind_of_ok (outcome_get usage)] at h
  split at h
  · rw [outcome_bind, outcome_ofEngine] at h
    have hlater := (advances_log (.warning "Function registered after evaluation started"
      [("function", name)])).later hu
    rcases hlog : outcome (Engine.log (.warning "Function registered after evaluation started"
      [("function", name)])) usage.session with ⟨e | ⟨⟩, t⟩ <;> rw [hlog] at h hlater
    · cases h
      exact ⟨hlater, .failed⟩
    · have hregisters := registers_of_addFunction hs hlater h
      exact hregisters
  · exact registers_of_addFunction hs hu h

end Registrations

end Vetting
