import Vetting.Proofs.Criterion.Loading
import Vetting.Proofs.Resolver.Definition
import Vetting.Proofs.Resolver.Group

/-!
# The functions that expressions see

The expressions of a resolver see the built-in functions, those that the resolver was set up with, and those
that were registered on it so far with success. What was registered on others, or without success, is
not seen, nor what the criteria were loaded with: a request is answered as by a resolver that is newly
set up with just these functions from the document loaded without any.
-/

namespace Vetting

open Engine

variable {σ : Type}

/-! ## Setting up -/

namespace Resolver

section SetUp
variable {s t u : Session σ} {r : Resolver} {configs : List Criterion} {wanted : Value}
  {functions : List (Text × Value)} {catalog : Catalog}

theorem rebound_owning (scope : Scope) (rule : Rule) :
    (Rule.rebound (rule.owning scope) : Engine σ Rule) = Rule.rebound rule := by
  cases rule with
  | custom validator description =>
    cases validator with
    | function f => rfl
    | expression source tree own => cases own <;> rfl
  | _ => rfl

theorem reboundAll_owning (scope : Scope) (rules : List Rule) :
    (Rule.reboundAll (rules.map (Rule.owning scope)) : Engine σ (List Rule)) = Rule.reboundAll rules := by
  induction rules with
  | nil => rfl
  | cons rule rest ih => rw [List.map_cons, Rule.reboundAll, Rule.reboundAll, rebound_owning, ih]

theorem defineAll_owning (scope : Scope) (criteria configs : List Criterion) :
    (defineAll criteria ((configs.map (Criterion.owning scope)).map .criterion) :
      Engine σ (List Criterion)) = defineAll criteria (configs.map .criterion) := by
  have hresolve (c : Criterion) : (Engine.ofResult (Definition.criterion c).resolve :
      Engine σ Criterion) = pure c := rfl
  induction configs generalizing criteria with
  | nil => rfl
  | cons c rest ih =>
    simp only [List.map_cons, defineAll, hresolve, pure_bind, Criterion.owning, reboundAll_owning, ih]

/-- Setting up does not look at the functions that the criteria were loaded with. -/
theorem create_owning (scope : Scope) (configs : List Criterion) (wanted : Value)
    (functions : List (Text × Value)) (catalog : Catalog) :
    (create (.loaded (configs.map (Criterion.owning scope))) wanted functions catalog :
      Engine σ Resolver) = create (.loaded configs) wanted functions catalog := by
  have hitems (configs : List Criterion) : (Engine.ofFault (Definitions.loaded configs).items :
      Engine σ (List Definition)) = pure (configs.map .criterion) := rfl
  simp only [create, hitems, pure_bind, defineAll_owning]

theorem create_with_functions {functions' : List (Text × Value)} {registry : Registry}
    (h : outcome (create (.loaded configs) wanted functions catalog) s = (.ok r, t))
    (hregistry : (Registry.builtins registryName).addAll functions' = .ok registry) :
    outcome (create (.loaded configs) wanted functions' catalog) s = (.ok { r with registry }, t) := by
  obtain ⟨items, u, _, hitems, hcriteria, rfl, hlanguage⟩ := create_eq_ok h
  exact outcome_create (r := { r with registry }) hregistry hitems hcriteria hlanguage

end SetUp

end Resolver

/-! ## Runs of calls -/

def builtinScope : Scope := (Registry.builtins Resolver.registryName).functions

/-- A member to which nothing has happened since it was set up but that it has learned functions. -/
structure Member.Learned (s : Session σ) (configs : List Criterion) (fs : List (Text × Value))
    (member : Member) : Prop where
  base : ∃ registry t, outcome (Resolver.create (.loaded configs) member.setup.language
    member.setup.functions member.setup.catalog) s = (.ok { member.resolver with registry }, t)
  functions : member.resolver.functions = builtinScope ++ (member.setup.functions ++ fs)
  registrable : Registry.Registrable builtinScope (member.setup.functions ++ fs)

section Member
variable {s t u : Session σ} {configs : List Criterion} {fs : List (Text × Value)} {setup : Setup}
  {r : Resolver} {member : Member}

theorem learned_of_create (hs : s.Later s) (ht : s.Later t)
    (h : outcome (Resolver.create (.loaded configs) setup.language setup.functions setup.catalog) t =
      (.ok r, u)) : (⟨setup, r, false⟩ : Member).Learned s configs [] := by
  -- setting up is steady, so it could have been done in `s` already
  obtain ⟨t', _, hbase⟩ := (Resolver.steady_create (.loaded configs) setup.language setup.functions
    setup.catalog).outcome_eq ht hs (congrArg Prod.fst h)
  obtain ⟨_, _, hadded, _⟩ := Resolver.create_eq_ok h
  obtain ⟨hfunctions, hregistrable⟩ :=
    Registry.addAll_spec_of_nodup (Registry.nodup_builtins _) hadded
  refine ⟨⟨r.registry, t', hbase⟩, ?_, ?_⟩
  · rw [List.append_nil]
    exact hfunctions
  · rw [List.append_nil]
    exact hregistrable

/-- What can be done with a resolver leaves it as it is, but that a function may be registered. -/
theorem Member.Learned.action (hs : s.Ready) (h : member.Learned s configs fs) {session : Session σ}
    (hlater : s.Later session) (i : Nat) {action : Action} {answer : Except Failure Answer}
    {usage : Usage σ} (hu : outcome action.use ⟨member.resolver, member.evaluated, session⟩ =
      (answer, usage)) :
    s.Later usage.session ∧ (⟨member.setup, usage.resolver, usage.evaluated⟩ : Member).Learned s
      configs (fs ++ (Call.on i action).registered i (some answer)) := by
  cases action with
  | register name function description =>
    rw [Action.use, outcome_bind] at hu
    rcases hregister : outcome (Use.registerFunction name function description)
      ⟨member.resolver, member.evaluated, session⟩ with ⟨result, ⟨resolver, evaluated, session'⟩⟩
    obtain ⟨hlater', hregisters⟩ := Use.registers_of_registerFunction hs hlater hregister
    rw [hregister] at hu
    cases hregisters with
    | @added registry hadd =>
      cases hu
      obtain ⟨t, rfl, hfunctions, hmore⟩ := h.registrable.concat h.functions hadd
      have hregistered : (Call.on i (.register (.text t) function description)).registered i
          (some (.ok .done)) = [(t, function)] := if_pos rfl
      rw [hregistered]
      refine ⟨hlater', h.base, ?_, by rwa [← List.append_assoc]⟩
      rw [← List.append_assoc member.setup.functions]
      exact hfunctions
    | @failed e =>
      cases hu
      rw [Call.registered_error, List.append_nil]
      exact ⟨hlater', h.base, h.functions, h.registrable⟩
  | ask request =>
    rw [Action.use, outcome_map, Request.outcome_use] at hu
    cases hu
    refine ⟨(Request.advances_replyOf member.resolver request).later hlater, ?_⟩
    rw [Call.registered_ask, List.append_nil]
    exact ⟨h.base, h.functions, h.registrable⟩
  | functions =>
    cases hu
    refine ⟨hlater, ?_⟩
    rw [Call.registered_functions, List.append_nil]
    exact ⟨h.base, h.functions, h.registrable⟩

end Member

/-- Resolvers that have learned these functions since they were set up. -/
structure Group.Holds (s : Session σ) (configs : List Criterion) (learned : Nat → List (Text × Value))
    (g : Group σ) : Prop where
  session : s.Later g.session
  members : ∀ i (member : Member), g.members[i]? = some member →
    member.Learned s configs (learned i)
  others : ∀ i, g.members[i]? = none → learned i = []

section Runs
variable {s : Session σ} {configs : List Criterion} {learned : Nat → List (Text × Value)} {g : Group σ}

/-- A new resolver has learned nothing, and its number is one on which nothing was registered. -/
theorem Group.Holds.concat (h : g.Holds s configs learned) {member : Member} {t : Session σ}
    (hmember : member.Learned s configs []) (ht : s.Later t) :
    (⟨g.members ++ [member], t⟩ : Group σ).Holds s configs learned where
  session := ht
  members i other hi := by
    rcases lt_or_ge i g.members.length with hlt | hge
    · rw [List.getElem?_append_left hlt] at hi
      exact h.members i other hi
    · rw [List.getElem?_append_right hge] at hi
      obtain ⟨_, hother⟩ := List.getElem?_eq_some_iff.mp hi
      rw [List.getElem_singleton] at hother
      rw [h.others i (List.getElem?_eq_none hge), ← hother]
      exact hmember
  others i hi := by
    refine h.others i (List.getElem?_eq_none ?_)
    have hlength := List.getElem?_eq_none_iff.mp hi
    rw [List.length_append] at hlength
    omega

/-- What is done with one resolver changes what this one has learned. -/
theorem Group.Holds.set (h : g.Holds s configs learned) {j : Nat} {action : Action}
    {answer : Option (Except Failure Answer)} {before member : Member} {t : Session σ}
    (hj : g.members[j]? = some before) (ht : s.Later t)
    (hmember : member.Learned s configs (learned j ++ (Call.on j action).registered j answer)) :
    (⟨g.members.set j member, t⟩ : Group σ).Holds s configs
      fun i => learned i ++ (Call.on j action).registered i answer where
  session := ht
  members i other hi := by
    by_cases hij : j = i
    · subst hij
      rw [List.getElem?_set_self (List.getElem?_eq_some_iff.mp hj).1] at hi
      cases hi
      exact hmember
    · rw [List.getElem?_set_ne hij] at hi
      rw [Call.registered_of_ne _ hij, List.append_nil]
      exact h.members i other hi
  others i hi := by
    have hnone : g.members[i]? = none := by simpa using hi
    have hij : j ≠ i := by
      rintro rfl
      rw [hj] at hnone
      cases hnone
    rw [Call.registered_of_ne _ hij, List.append_nil]
    exact h.others i hnone

/-- After one call each resolver has learned what the call registered on it. -/
theorem Group.Holds.step (hs : s.Ready) (h : g.Holds s configs learned) (call : Call) :
    (g.step configs call).2.Holds s configs
      fun i => learned i ++ call.registered i (g.step configs call).1 := by
  cases call with
  | setUp setup =>
    simp only [Call.registered_setUp, List.append_nil]
    rw [Group.step]
    have hlater := (Resolver.steady_create (s := s) (.loaded configs) setup.language setup.functions
      setup.catalog).later h.session
    rcases hcreate : outcome (Resolver.create (.loaded configs) setup.language setup.functions
      setup.catalog) g.session with ⟨e | r, t⟩ <;> rw [hcreate] at hlater
    · exact ⟨hlater, h.members, h.others⟩
    · exact h.concat (learned_of_create (.refl hs.cache) h.session hcreate) hlater
  | on j action =>
    rw [Group.step]
    cases hj : g.members[j]? with
    | none =>
      simp only [Call.registered_none, List.append_nil]
      exact h
    | some member =>
      dsimp only
      rcases hu : outcome action.use ⟨member.resolver, member.evaluated, g.session⟩ with
        ⟨answer, usage⟩
      obtain ⟨hlater, hlearned⟩ := (h.members j member hj).action hs h.session j hu
      exact h.set hj hlater hlearned

theorem Group.Holds.run (hs : s.Ready) (h : g.Holds s configs learned) (calls : List Call) :
    (g.run configs calls).2.Holds s configs
      fun i => learned i ++ registeredOn i calls (g.run configs calls).1 := by
  induction calls generalizing g learned with
  | nil =>
    have hnone (i : Nat) : learned i ++ registeredOn i [] ([] : List (Option (Except Failure Answer))) =
        learned i := List.append_nil _
    simpa only [Group.run, hnone] using h
  | cons call rest ih =>
    have hrest := ih (h.step hs call)
    simp only [List.append_assoc] at hrest
    exact hrest

/-- The answer to a call depends on the calls before it, and not on those after it. -/
theorem Group.answer_eq (g : Group σ) (before : List Call) (call : Call) (after : List Call) :
    (g.run configs (before ++ call :: after)).1[before.length]? =
      some ((g.run configs before).2.step configs call).1 := by
  induction before generalizing g with
  | nil => rfl
  | cons first rest ih => exact ih (g.step configs first).2

/-! ## What expressions see -/

/-- A resolver answers as one that is set up with what it was set up with and has learned. -/
theorem Member.Learned.exists_reference {fs : List (Text × Value)} {member : Member}
    (h : member.Learned s configs fs) :
    ∃ (reference : Resolver) (t : Session σ),
      outcome (Resolver.create (.loaded configs) member.setup.language (member.setup.functions ++ fs)
        member.setup.catalog) s = (.ok reference, t) ∧ member.resolver.ShowsAs reference := by
  obtain ⟨base, t, hbase⟩ := h.base
  obtain ⟨registry, hregistry⟩ := Registry.exists_addAll h.registrable
  obtain ⟨hadded, _⟩ := Registry.addAll_spec_of_nodup (Registry.nodup_builtins _) hregistry
  refine ⟨_, t, Resolver.create_with_functions hbase hregistry, ?_, rfl, rfl, rfl⟩
  exact h.functions.trans hadded.symm

/-- An expression of a resolver sees the built-in functions, those that the resolver was set up with and
those that were registered on it before with success, each under a name of its own. Its requests are
answered as by a resolver that is newly set up with these functions from the document loaded without any, and
its functions are what they were when they were asked for, whatever is called later. -/
theorem expressions_see_registered_functions_only {document : Value} {loaded : List (Text × Value)}
    {s₀ s₁ : Session σ} (hload : outcome (Criterion.ofDocument document loaded) s₀ = (.ok configs, s₁))
    (hs : s.Ready) (before : List Call) {i : Nat} {member : Member}
    (hmember : (Group.run configs ⟨[], s⟩ before).2.members[i]? = some member) :
    ∃ learned plain reference t,
      learned = registeredOn i before (Group.run configs ⟨[], s⟩ before).1 ∧
      member.resolver.functions = builtinScope ++ (member.setup.functions ++ learned) ∧
      (member.resolver.functions.map (·.1)).Nodup ∧
      (∀ c ∈ member.resolver.criteria, ∀ rule ∈ c.rules, rule.SharesFunctions) ∧
      outcome (Criterion.ofDocument document []) s₀ = (.ok plain, s₁) ∧
      outcome (Resolver.create (.loaded plain) member.setup.language (member.setup.functions ++ learned)
        member.setup.catalog) s = (.ok reference, t) ∧
      (∀ request after,
        (Group.run configs ⟨[], s⟩ (before ++ .on i (.ask request) :: after)).1[before.length]? =
          some (some ((outcome (request.replyOf reference)
            (Group.run configs ⟨[], s⟩ before).2.session).1.map .reply))) ∧
      ∀ after, (Group.run configs ⟨[], s⟩ (before ++ .on i .functions :: after)).1[before.length]? =
        some (some (.ok (.functions (builtinScope ++ (member.setup.functions ++ learned))))) := by
  have hstart : (⟨[], s⟩ : Group σ).Holds s configs fun _ => [] :=
    ⟨.refl hs.cache, fun i member h => (nomatch h), fun _ _ => rfl⟩
  have hlearned := (hstart.run hs before).members i member hmember
  obtain ⟨plain, scope, hplain, rfl⟩ := Criterion.exists_ofDocument_nil hload
  obtain ⟨reference, t, hreference, hshows⟩ := hlearned.exists_reference
  obtain ⟨registry, _, hbase⟩ := hlearned.base
  refine ⟨_, plain, reference, t, rfl, hlearned.functions, ?_,
    Resolver.sharesFunctions_of_create (r := { member.resolver with registry }) hbase, hplain, ?_,
    fun request after => ?_, fun after => ?_⟩
  · rw [hlearned.functions]
    exact hlearned.registrable.1
  · rw [← Resolver.create_owning scope plain]
    exact hreference
  · rw [Group.answer_eq, Group.step, hmember]
    simp only [Action.use, outcome_map, Request.outcome_use, hshows.replyOf]
  · have hanswer (usage : Usage σ) : outcome Action.functions.use usage =
        (.ok (.functions usage.resolver.functions), usage) := rfl
    rw [Group.answer_eq, Group.step, hmember]
    simp only [hanswer]
    rw [hlearned.functions]
    rfl

end Runs

/-! ## A name that is known elsewhere -/

def sizedDocument : Value :=
  .array [.object [(.text "id", .text "x"), (.text "rules", .array [.object [
    (.text "type", .text "custom"), (.text "expression", .text "size(value) > 1")]])]]

def sizedConfigs : List Criterion :=
  (outcome (Criterion.ofDocument sizedDocument [("size", .builtin .count)])
    Resolver.freshSession).1.toOption.getD []

/-- Of two resolvers the first learns `size`, which cannot be registered twice. -/
def sizedCalls : List Call :=
  [.setUp ⟨.null, [], .bundled⟩, .setUp ⟨.null, [], .bundled⟩,
    .on 1 (.register (.text "size") (.builtin .isString) ""),
    .on 0 (.register (.text "size") (.builtin .abs) ""),
    .on 0 (.register (.text "size") (.builtin .round) "")]

theorem exists_load_sized : ∃ t,
    outcome (Criterion.ofDocument sizedDocument [("size", .builtin .count)]) Resolver.freshSession =
      (.ok sizedConfigs, t) := by
  have hok : (outcome (Criterion.ofDocument sizedDocument [("size", .builtin .count)])
      Resolver.freshSession).1.isOk = true := by decide +kernel
  rw [sizedConfigs]
  rcases hload : outcome (Criterion.ofDocument sizedDocument [("size", .builtin .count)])
    Resolver.freshSession with ⟨e | configs, t⟩
  · rw [hload] at hok
    cases hok
  · exact ⟨t, rfl⟩

theorem exists_sized_member : ∃ member,
    (Group.run sizedConfigs ⟨[], Resolver.freshSession⟩ sizedCalls).2.members[0]? = some member :=
  Option.isSome_iff_exists.mp (by decide +kernel)

/-- The first resolver has one function of that name, and its rules call that one. -/
theorem size_is_registered_once : ∃ member,
    (Group.run sizedConfigs ⟨[], Resolver.freshSession⟩ sizedCalls).2.members[0]? = some member ∧
      member.resolver.functions.map (·.1) =
        builtinScope.map (·.1) ++ (member.setup.functions.map (·.1) ++ [("size" : Text)]) ∧
      ∀ c ∈ member.resolver.criteria, ∀ rule ∈ c.rules, rule.SharesFunctions := by
  obtain ⟨t, hload⟩ := exists_load_sized
  obtain ⟨member, hmember⟩ := exists_sized_member
  obtain ⟨learned, _, _, _, hlearned, hfunctions, _, hshares, _⟩ :=
    expressions_see_registered_functions_only hload Resolver.ready_freshSession sizedCalls hmember
  refine ⟨member, hmember, ?_, hshares⟩
  have hnames : learned.map (·.1) = [("size" : Text)] := by
    rw [hlearned]
    decide +kernel
  rw [hfunctions, List.map_append, List.map_append, hnames]

end Vetting
