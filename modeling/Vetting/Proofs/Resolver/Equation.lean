import Vetting.Proofs.Expression.Parsed
import Vetting.Proofs.Log
import Vetting.Proofs.Template.Filling
import Vetting.Resolver.Equation

/-!
# Equations that fail closed

An equation that cannot be written out, parsed or evaluated is false, and its error is kept. Two
failures are no errors of an expression and leave the evaluation as faults: an oversized integer
that is tested, and an object with a key that is no key of JSON where a value is written out.
-/

namespace Vetting

variable {σ : Type}

/-! ## Sessions that can evaluate -/

/-- Whether the limits of a session are numbers, its cache is sound and its log can be written. -/
structure Session.Ready (s : Session σ) : Prop where
  limits : ∃ length depth, Expression.Bounded (Settings.limits s.settings) length depth
  cache : s.cache.Sound s.capacity.parsing
  log : s.log.Writable

namespace Engine

theorem outcome_log {s : Session σ} (hs : s.Ready) {event : LogEvent} (he : event.Plain) :
    ∃ s', outcome (log event) s = (.ok (), s') ∧ s'.Ready := by
  obtain ⟨log', hw, hlog⟩ := hs.log.exists_write s.host.instant he
  refine ⟨{ s with log := log' }, ?_, ⟨hs.limits, hs.cache, hlog⟩⟩
  have hf : outcome (ofFault (s.log.write s.host.instant event) : Engine σ Log) s = (.ok log', s) := by
    rw [outcome_ofFault, hw]
    rfl
  rw [log, outcome_bind_of_ok (outcome_get s), outcome_bind_of_ok hf]
  rfl

/-- In a session that is ready a text is parsed as without a cache. -/
theorem outcome_parse {s : Session σ} (hs : s.Ready) (text : Text) :
    ∃ cache : ParseCache, cache.Sound s.capacity.parsing ∧ outcome (parse (.text text)) s =
      (Expression.parseText s.capacity.parsing (Settings.limits s.settings) text,
        { s with cache }) := by
  obtain ⟨length, depth, hl⟩ := hs.limits
  obtain ⟨hr, hc⟩ := ParseCache.parse_sound hs.cache hl text
  exact ⟨_, hc, by rw [outcome_parse_text, hr]⟩

theorem ready_parse {s : Session σ} (hs : s.Ready) (source : Value) :
    (outcome (parse source) s).2.Ready := by
  cases source with
  | text t =>
    obtain ⟨cache, hc, h⟩ := outcome_parse hs t
    rw [h]
    exact ⟨hs.limits, hc, hs.log⟩
  | _ => exact hs

theorem ready_bind {α β : Type} {m : Engine σ α} {f : α → Engine σ β} {s : Session σ}
    (hm : (outcome m s).2.Ready) (hf : ∀ a t, t.Ready → (outcome (f a) t).2.Ready) :
    (outcome (m >>= f) s).2.Ready := by
  rw [outcome_bind]
  rcases h : outcome m s with ⟨e | a, t⟩
  · rw [h] at hm
    exact hm
  · rw [h] at hm
    exact hf a t hm

theorem ready_evaluate {s : Session σ} (hs : s.Ready) (functions : Scope) (source record : Value) :
    (outcome (evaluate functions source record) s).2.Ready := by
  unfold evaluate
  exact ready_bind (ready_parse hs source) fun tree t ht => ⟨ht.limits, ht.cache, ht.log⟩

theorem ready_call {s : Session σ} (hs : s.Ready) (functions : Scope) (callee : Value)
    (arguments : List Value) : (outcome (call functions callee arguments) s).2.Ready :=
  ⟨hs.limits, hs.cache, hs.log⟩

end Engine

namespace Resolver

/-! ## The environment -/

/-- None, one, or several objects. -/
inductive IsSources : Value → Prop
  | none : IsSources .null
  | one (fields : Fields) : IsSources (.object fields)
  | array {items : List Value} (h : ∀ v ∈ items, ∃ fields, v = .object fields) : IsSources (.array items)
  | tuple {items : List Value} (h : ∀ v ∈ items, ∃ fields, v = .object fields) : IsSources (.tuple items)

theorem IsSources.exists_list {sources : Value} (h : IsSources sources) :
    ∃ list, sourceList sources = .ok list ∧ ∀ v ∈ list, ∃ fields, v = .object fields := by
  cases h with
  | none => exact ⟨[], rfl, fun _ hv => absurd hv List.not_mem_nil⟩
  | one fields => exact ⟨[.object fields], rfl, List.forall_mem_singleton.mpr ⟨fields, rfl⟩⟩
  | array h => exact ⟨_, rfl, h⟩
  | tuple h => exact ⟨_, rfl, h⟩

theorem exists_overlay {list : List Value} (h : ∀ v ∈ list, ∃ fields, v = .object fields)
    (environment : Fields) : ∃ environment', overlay environment list = .ok environment' := by
  induction list generalizing environment with
  | nil => exact ⟨environment, rfl⟩
  | cons source rest ih =>
    obtain ⟨⟨fields, rfl⟩, hr⟩ := List.forall_mem_cons.mp h
    exact ih hr (environment.putAll fields)

/-- A derivation succeeds or is a failed computation. -/
theorem outcome_derive (r : Resolver) {c : Criterion} (hc : c.id.isText = true) (record : Value)
    {s : Session σ} (hs : s.Ready) :
    ∃ s', s'.Ready ∧ ((∃ v, outcome (r.derive c record) s = (.ok v, s')) ∨
      ∃ shown cause, outcome (r.derive c record) s =
        (.error (.engine (.computation c.id shown cause)), s')) := by
  have hready : (outcome (if c.derivation.isCallable then
      Engine.call r.functions c.derivation [record]
      else Engine.evaluate r.functions c.derivation record : Engine σ Value) s).2.Ready := by
    split
    · exact Engine.ready_call hs ..
    · exact Engine.ready_evaluate hs ..
  refine ⟨_, hready, ?_⟩
  rw [derive, outcome_bind_of_ok (Engine.outcome_attempt ..)]
  rcases outcome (if c.derivation.isCallable then Engine.call r.functions c.derivation [record]
    else Engine.evaluate r.functions c.derivation record : Engine σ Value) s with ⟨cause | v, s'⟩
  · obtain ⟨id, hid⟩ : ∃ id, c.id = .text id := by
      cases h : c.id with
      | text id => exact ⟨id, rfl⟩
      | _ => simp [h, Value.isText] at hc
    refine .inr ⟨id, cause, ?_⟩
    simp only [hid, Failure.computation, Value.display, outcome_throw]
  · exact .inl ⟨v, rfl⟩

theorem exists_deriveAll (r : Resolver) {criteria : List Criterion}
    (hc : ∀ c ∈ criteria, c.id.isText = true) (environment : Fields) {s : Session σ} (hs : s.Ready) :
    ∃ environment' s', outcome (r.deriveAll environment criteria) s = (.ok environment', s') ∧
      s'.Ready := by
  induction criteria generalizing environment s with
  | nil => exact ⟨environment, s, rfl, hs⟩
  | cons c rest ih =>
    obtain ⟨hid, hr⟩ := List.forall_mem_cons.mp hc
    rw [deriveAll]
    split
    · obtain ⟨s', hs', ⟨v, hv⟩ | ⟨shown, cause, he⟩⟩ := outcome_derive r hid (.object []) hs
      · rw [outcome_bind_of_ok (Engine.outcome_attempt ..), hv]
        exact ih hr _ hs'
      · rw [outcome_bind_of_ok (Engine.outcome_attempt ..), he]
        have hp : (LogEvent.debug "Derivation skipped while building equation environment"
            [("criterion", c.id), ("error", .text cause.message)]).Plain := by
          refine ⟨rfl, ?_⟩
          simp only [LogEvent.debug, List.forall_mem_cons]
          exact ⟨.inl hid, .inl rfl, List.forall_mem_nil _⟩
        obtain ⟨s'', hlog, hs''⟩ := Engine.outcome_log hs' hp
        show ∃ _ _, outcome (do Engine.log _; deriveAll r environment rest) s' = _ ∧ _
        rw [outcome_bind_of_ok hlog]
        exact ih hr environment hs''
    · exact ih hr environment hs

/-- The environment of an equation can always be built. -/
theorem exists_environmentOf (r : Resolver) (hr : ∀ c ∈ r.criteria, c.id.isText = true)
    {sources : Value} (hsources : IsSources sources) {s : Session σ} (hs : s.Ready) :
    ∃ environment s', outcome (r.environmentOf sources) s = (.ok environment, s') ∧ s'.Ready := by
  obtain ⟨derived, s', hd, hs'⟩ := exists_deriveAll r hr [] hs
  obtain ⟨list, hlist, ho⟩ := hsources.exists_list
  obtain ⟨environment, he⟩ := exists_overlay ho derived
  refine ⟨environment, s', ?_, hs'⟩
  rw [environmentOf, outcome_bind_of_ok hd, hlist]
  simp only [bind, Except.bind, he]
  rfl

/-! ## The value of an equation -/

/-- The expression of an equation and its value: the text is written out, parsed and evaluated, each
step for itself. -/
def valueOf (r : Resolver) (s : Session σ) (template : Text) (environment : Fields) :
    Except Failure (Text × Value) := do
  let expression ← Template.equation template environment
  let tree ← Expression.parseText s.capacity.parsing (Settings.limits s.settings) expression
  let v ← (Expression.evaluateTree s.capacity.evaluation ⟨s.host, r.functions⟩ tree (.object [])
    (some expression) s.state).1
  return (expression, v)

def truthOf (r : Resolver) (s : Session σ) (template : Text) (environment : Fields) :
    Except Failure (Text × Bool) := do
  let (expression, v) ← r.valueOf s template environment
  let truth ← ofFault v.truthy
  return (expression, truth)

section Value
variable {r : Resolver} {s : Session σ} {template : Text} {environment : Fields}

/-- A session evaluates an equation to its value, and stays ready. -/
theorem outcome_run (hs : s.Ready) :
    ∃ s', outcome (r.run template environment) s = (r.truthOf s template environment, s') ∧
      s'.Ready := by
  unfold run
  cases he : Template.equation template environment with
  | error e =>
    refine ⟨s, ?_, hs⟩
    rw [outcome_bind_of_error (Engine.outcome_ofResult ..)]
    simp only [truthOf, valueOf, he, bind, Except.bind]
  | ok expression =>
    obtain ⟨cache, hc, hp⟩ := Engine.outcome_parse hs expression
    rw [outcome_bind_of_ok (Engine.outcome_ofResult ..)]
    cases ht : Expression.parseText s.capacity.parsing (Settings.limits s.settings) expression with
    | error e =>
      rw [ht] at hp
      refine ⟨{ s with cache }, ?_, ⟨hs.limits, hc, hs.log⟩⟩
      rw [outcome_bind_of_error hp]
      simp only [truthOf, valueOf, he, ht, bind, Except.bind]
    | ok tree =>
      rw [ht] at hp
      rw [outcome_bind_of_ok hp]
      have hv := Engine.outcome_evaluateTree r.functions tree (.object []) (some expression)
        { s with cache }
      dsimp only at hv
      generalize hw : Expression.evaluateTree s.capacity.evaluation ⟨s.host, r.functions⟩ tree
        (.object []) (some expression) s.state = w at hv
      obtain ⟨e | v, state⟩ := w
      · refine ⟨{ s with cache, state }, ?_, ⟨hs.limits, hc, hs.log⟩⟩
        rw [outcome_bind_of_error hv]
        simp only [truthOf, valueOf, he, ht, hw, bind, Except.bind]
      · refine ⟨{ s with cache, state }, ?_, ⟨hs.limits, hc, hs.log⟩⟩
        rw [outcome_bind_of_ok hv, outcome_bind, Engine.outcome_ofFault]
        simp only [truthOf, valueOf, he, ht, hw, bind, Except.bind, pure, Except.pure]
        cases v.truthy <;> rfl

/-! ## The faults of an equation -/

/-- Why an equation lets a fault through: a value is written out that has a key which is no key of
JSON, or an oversized integer is tested, inside the expression or as its value. -/
inductive Escapes (r : Resolver) (s : Session σ) (template : Text) (environment : Fields) :
    Fault → Prop
  | key {typeName : Text} (h : Template.MeetsForeignKey template environment typeName) :
      Escapes r s template environment (.jsonKey typeName)
  | test {expression : Text} {tree : Node} (he : Template.equation template environment = .ok expression)
      (ht : Expression.parseText s.capacity.parsing (Settings.limits s.settings) expression = .ok tree)
      (h : Evaluation.TestsOversized ⟨s.host, r.functions⟩ s.capacity.evaluation tree []
        ⟨s.state, 0⟩) :
      Escapes r s template environment .integerTooLargeForFloat
  | value {expression : Text} {v : Value} (hv : r.valueOf s template environment = .ok (expression, v))
      (h : v.Oversized) : Escapes r s template environment .integerTooLargeForFloat

/-- An equation without truth fails with an error of the expression, or lets a fault through. -/
theorem escapes_of_truthOf_eq_error {e : Failure} (hs : s.Ready)
    (h : r.truthOf s template environment = .error e) :
    (∃ x, e = .engine (.expression x)) ∨ ∃ f, e = .fault f ∧ Escapes r s template environment f := by
  obtain ⟨length, depth, hl⟩ := hs.limits
  -- the case of each step, in the order in which they are taken
  rcases bind_eq_error_iff.mp h with h | ⟨⟨expression, v⟩, hv, h⟩
  · rcases bind_eq_error_iff.mp h with he | ⟨expression, he, h⟩
    · refine (Template.equation_eq_error he).imp_right ?_
      rintro ⟨typeName, rfl, hk⟩
      exact ⟨_, rfl, .key hk⟩
    rcases bind_eq_error_iff.mp h with ht | ⟨tree, ht, h⟩
    · exact .inl (Expression.exists_of_parseText_eq_error hl ht)
    rcases bind_eq_error_iff.mp h with hv | ⟨v, _, h⟩
    · have hr := Expression.regular_of_parseText_eq_ok hl ht
      refine (Expression.evaluateTree_eq_error hr rfl hv).imp_right ?_
      rintro ⟨rfl, hto⟩
      exact ⟨_, rfl, .test he ht hto⟩
    · cases h
  · rcases bind_eq_error_iff.mp h with h | ⟨truth, _, h⟩
    · obtain ⟨f, hw, rfl⟩ := ofFault_eq_error_iff.mp h
      obtain ⟨rfl, ho⟩ := Value.truthy_eq_error_iff.mp hw
      exact .inr ⟨_, rfl, .value hv ho⟩
    · cases h

theorem Escapes.truthOf_eq {f : Fault} (h : Escapes r s template environment f) :
    r.truthOf s template environment = .error (.fault f) := by
  cases h with
  | key h => simp only [truthOf, valueOf, h.equation_eq, bind, Except.bind]
  | @test expression tree he ht h =>
    have hv : (Expression.evaluateTree s.capacity.evaluation ⟨s.host, r.functions⟩ tree (.object [])
        (some expression) s.state).1 = .error (.fault .integerTooLargeForFloat) :=
      Expression.evaluateTree_of_testsOversized rfl h
    simp only [truthOf, valueOf, he, ht, hv, bind, Except.bind]
  | value hv h =>
    simp only [truthOf, hv, Value.truthy_eq_error_iff.mpr ⟨rfl, h⟩, bind, Except.bind, ofFault]

theorem truthOf_eq_ok_iff {expression : Text} {truth : Bool} :
    r.truthOf s template environment = .ok (expression, truth) ↔
      ∃ v, r.valueOf s template environment = .ok (expression, v) ∧ v.truthy = .ok truth := by
  unfold truthOf
  constructor
  · intro h
    obtain ⟨⟨text, v⟩, hv, h⟩ := bind_eq_ok_iff.mp h
    obtain ⟨b, ht, h⟩ := bind_eq_ok_iff.mp h
    cases h
    exact ⟨v, hv, ofFault_eq_ok_iff.mp ht⟩
  · rintro ⟨v, hv, ht⟩
    have htruth : (do let b ← ofFault v.truthy; return (expression, b)) = .ok (expression, truth) :=
      bind_eq_ok_iff.mpr ⟨truth, ofFault_eq_ok_iff.mpr ht, rfl⟩
    exact bind_eq_ok_iff.mpr ⟨(expression, v), hv, htruth⟩

end Value

/-! ## Failing closed -/

section Closed
variable {r : Resolver} {s : Session σ} {template : Text} {environment : Fields}

def processedOf (template : Text) (environment : Fields) :
    Except ExpressionError (Text × Bool) → ProcessedEquation
  | .ok (expression, truth) => ⟨template, expression, environment, truth, none⟩
  | .error e => failedClosed template environment e

theorem plain_failedClosed (template : Text) (message : Text) :
    (LogEvent.debug "Equation failed closed"
      [("template", .text template), ("error", .text message)]).Plain := by
  refine ⟨rfl, ?_⟩
  simp [LogEvent.debug, Value.isPlain_text]

theorem plain_evaluated (template expression : Text) (truth : Bool) :
    (LogEvent.happened "equation_evaluated" [("template", .text template),
      ("expression", .text expression), ("result", .boolean truth)]).Plain := by
  refine ⟨rfl, ?_⟩
  simp [LogEvent.happened, Value.isPlain_text, Value.isPlain_boolean]

/-- An equation that has a truth, or fails with an error of the expression, is processed. -/
theorem outcome_evaluateClosed_of_closed {result : Except ExpressionError (Text × Bool)}
    (hs : s.Ready)
    (h : r.truthOf s template environment = result.mapError (Failure.engine ∘ EngineError.expression)) :
    ∃ s', outcome (r.evaluateClosed template environment) s =
      (.ok (processedOf template environment result), s') ∧ s'.Ready := by
  obtain ⟨s', hrun, hs'⟩ : ∃ s', outcome (r.run template environment) s = _ ∧ _ := outcome_run hs
  rw [h] at hrun
  rw [evaluateClosed, outcome_bind_of_ok (Engine.outcome_attempt ..), hrun]
  cases result with
  | ok result => exact ⟨s', rfl, hs'⟩
  | error e =>
    obtain ⟨s'', hlog, hs''⟩ := Engine.outcome_log hs' (plain_failedClosed template e.message)
    exact ⟨s'', outcome_bind_of_ok hlog, hs''⟩

theorem outcome_evaluateClosed_of_fault {f : Fault} (hs : s.Ready)
    (h : r.truthOf s template environment = .error (.fault f)) :
    ∃ s', outcome (r.evaluateClosed template environment) s = (.error (.fault f), s') := by
  obtain ⟨s', hrun, hs'⟩ : ∃ s', outcome (r.run template environment) s = _ ∧ _ := outcome_run hs
  rw [h] at hrun
  refine ⟨s', ?_⟩
  rw [evaluateClosed, outcome_bind_of_ok (Engine.outcome_attempt ..), hrun]
  rfl

end Closed

section Process
variable {r : Resolver} {s s' : Session σ} {template : Text} {sources : Value} {environment : Fields}

/-- Processing an equation logs it once it is evaluated, which changes nothing. -/
theorem processEquation_of_ok {processed : ProcessedEquation} {s'' : Session σ}
    (he : outcome (r.environmentOf sources) s = (.ok environment, s'))
    (hp : outcome (r.evaluateClosed template environment) s' = (.ok processed, s''))
    (hs : s''.Ready) :
    (outcome (r.processEquation (.text template) sources) s).1 = .ok processed := by
  have hd : outcome (Engine.ofFault (Value.text template).display : Engine σ Text) s =
      (.ok template, s) := rfl
  rw [processEquation, outcome_bind_of_ok hd, outcome_bind_of_ok he, outcome_bind_of_ok hp,
    outcome_bind_of_ok (Engine.outcome_settings s'')]
  split
  · obtain ⟨_, hlog, _⟩ := Engine.outcome_log hs
      (plain_evaluated template processed.expression processed.result)
    rw [outcome_bind_of_ok hlog, outcome_pure]
  · rfl

theorem processEquation_of_error {e : Failure} {s'' : Session σ}
    (he : outcome (r.environmentOf sources) s = (.ok environment, s'))
    (hp : outcome (r.evaluateClosed template environment) s' = (.error e, s'')) :
    (outcome (r.processEquation (.text template) sources) s).1 = .error e := by
  have hd : outcome (Engine.ofFault (Value.text template).display : Engine σ Text) s =
      (.ok template, s) := rfl
  rw [processEquation, outcome_bind_of_ok hd, outcome_bind_of_ok he, outcome_bind_of_error hp]

theorem evaluateEquation_eq (template sources : Value) :
    (outcome (r.evaluateEquation template sources) s).1 =
      (outcome (r.processEquation template sources) s).1.map (·.result) := by
  rw [evaluateEquation, outcome_bind]
  rcases outcome (r.processEquation template sources) s with ⟨e | processed, t⟩ <;> rfl

theorem closed_or_escapes (hs : s.Ready) :
    (∃ result : Except ExpressionError (Text × Bool), r.truthOf s template environment =
      result.mapError (Failure.engine ∘ EngineError.expression)) ∨
    ∃ f, r.truthOf s template environment = .error (.fault f) ∧
      Escapes r s template environment f := by
  cases h : r.truthOf s template environment with
  | ok result => exact .inl ⟨.ok result, rfl⟩
  | error e =>
    rcases escapes_of_truthOf_eq_error hs h with ⟨x, rfl⟩ | ⟨f, rfl, hf⟩
    · exact .inl ⟨.error x, rfl⟩
    · exact .inr ⟨f, rfl, hf⟩

/-- What a processed equation says about the value of the equation. -/
theorem processedOf_spec {result : Except ExpressionError (Text × Bool)}
    (h : r.truthOf s template environment = result.mapError (Failure.engine ∘ EngineError.expression)) :
    ((processedOf template environment result).result = true ↔
      ∃ expression v, r.valueOf s template environment = .ok (expression, v) ∧
        v.truthy = .ok true) ∧
    ∀ e, r.valueOf s template environment = .error e →
      (processedOf template environment result).result = false ∧
        (processedOf template environment result).error = some e.message := by
  cases result with
  | ok result =>
    obtain ⟨expression, truth⟩ := result
    obtain ⟨v, hv, ht⟩ := truthOf_eq_ok_iff.mp h
    constructor
    · constructor
      · intro (hr : truth = true)
        exact ⟨expression, v, hv, by rw [ht, hr]⟩
      · rintro ⟨_, w, hw, hwt⟩
        rw [hv] at hw
        cases hw
        rw [ht] at hwt
        exact Except.ok.inj hwt
    · intro e he
      rw [hv] at he
      cases he
  | error x =>
    constructor
    · constructor
      · intro hr
        cases hr
      · rintro ⟨expression, v, hv, ht⟩
        rw [truthOf_eq_ok_iff.mpr ⟨v, hv, ht⟩] at h
        cases h
    · intro e he
      have ht : r.truthOf s template environment = .error e := by
        simp only [truthOf, he, bind, Except.bind]
      rw [ht] at h
      cases h
      exact ⟨rfl, rfl⟩

end Process

/-- Evaluating an equation fails closed unless a fault escapes: it raises nothing else, the result
is true exactly when the value of the equation is true, and where there is no value the result is
false and the error is kept. -/
theorem evaluateEquation_fails_closed_unless_escapes (r : Resolver)
    (hr : ∀ c ∈ r.criteria, c.id.isText = true) (s : Session σ) (hs : s.Ready) (template : Text)
    (sources : Value) (hsources : IsSources sources) :
    ∃ environment s', outcome (r.environmentOf sources) s = (.ok environment, s') ∧ s'.Ready ∧
      (∀ e, (outcome (r.processEquation (.text template) sources) s).1 = .error e ↔
        ∃ f, e = .fault f ∧ Escapes r s' template environment f) ∧
      (∀ e, (outcome (r.evaluateEquation (.text template) sources) s).1 = .error e ↔
        ∃ f, e = .fault f ∧ Escapes r s' template environment f) ∧
      ∀ processed, (outcome (r.processEquation (.text template) sources) s).1 = .ok processed →
        (outcome (r.evaluateEquation (.text template) sources) s).1 = .ok processed.result ∧
        (processed.result = true ↔ ∃ expression v,
          r.valueOf s' template environment = .ok (expression, v) ∧ v.truthy = .ok true) ∧
        ∀ e, r.valueOf s' template environment = .error e →
          processed.result = false ∧ processed.error = some e.message := by
  obtain ⟨environment, s', he, hs'⟩ := exists_environmentOf r hr hsources hs
  refine ⟨environment, s', he, hs', ?_⟩
  rw [evaluateEquation_eq]
  obtain ⟨result, ht⟩ | ⟨f, ht, hf⟩ : (∃ result : Except ExpressionError (Text × Bool),
      r.truthOf s' template environment = _) ∨ ∃ f, _ ∧ Escapes r s' template environment f :=
    closed_or_escapes hs'
  · obtain ⟨s'', hp, hs''⟩ := outcome_evaluateClosed_of_closed hs' ht
    rw [processEquation_of_ok he hp hs'']
    have hno : ∀ f, ¬ Escapes r s' template environment f := by
      intro f hf
      rw [hf.truthOf_eq] at ht
      cases result <;> cases ht
    refine ⟨?_, ?_, ?_⟩
    · intro e
      simp [hno]
    · intro e
      simp [hno, Except.map]
    · rintro processed h
      cases h
      exact ⟨rfl, processedOf_spec ht⟩
  · obtain ⟨s'', hp⟩ := outcome_evaluateClosed_of_fault hs' ht
    rw [processEquation_of_error he hp]
    have hunique : ∀ g, Escapes r s' template environment g ↔ g = f := by
      intro g
      constructor
      · intro hg
        rw [hg.truthOf_eq] at ht
        cases ht
        rfl
      · rintro rfl
        exact hf
    refine ⟨?_, ?_, ?_⟩
    · intro e
      simp [hunique, eq_comm]
    · intro e
      simp [hunique, eq_comm, Except.map]
    · rintro processed h
      cases h

/-! ## An equation that lets a fault through -/

/-- A session with the default settings, whose host has no functions. -/
def freshSession : Session Unit :=
  ⟨⟨fun _ _ => .finish (.ok .null), 0⟩, (), Settings.defaults, .empty, .new "engine" false .info, {}⟩

theorem ready_freshSession : freshSession.Ready :=
  ⟨⟨.ofNat 10000, .ofNat 32, by decide +kernel, by decide +kernel⟩, ParseCache.sound_empty _,
    Log.writable_new _ _ _⟩

def bare : Resolver := ⟨.builtins "resolver", [], ⟨[], .text "en"⟩, .text "en"⟩

theorem isText_id_of_mem_bare : ∀ c ∈ bare.criteria, c.id.isText = true :=
  fun _ h => absurd h List.not_mem_nil

def comparisonTemplate : Text := "\x7b\x7bx\x7d\x7d > 1"

def oversizedSource : Value := .object [(.text "x", .integer (10 ^ 400))]

def raised? {α : Type} : Except Failure α → Option Fault
  | .error (.fault f) => some f
  | _ => none

theorem eq_error_of_raised? {α : Type} {r : Except Failure α} {f : Fault} (h : raised? r = some f) :
    r = .error (.fault f) := by
  unfold raised? at h
  split at h
  · cases h
    rfl
  · cases h

theorem comparison_of_oversized_raises :
    (outcome (bare.evaluateEquation (.text comparisonTemplate) oversizedSource) freshSession).1 =
      .error (.fault .integerTooLargeForFloat) :=
  eq_error_of_raised? (by decide +kernel)

theorem oversized_comparison_escapes :
    (∀ c ∈ bare.criteria, c.id.isText = true) ∧ freshSession.Ready ∧ IsSources oversizedSource ∧
      ∃ (environment : Fields) (s' : Session Unit),
        Escapes bare s' comparisonTemplate environment .integerTooLargeForFloat := by
  refine ⟨isText_id_of_mem_bare, ready_freshSession, .one _, ?_⟩
  obtain ⟨environment, s', _, _, _, h, _⟩ := evaluateEquation_fails_closed_unless_escapes bare
    isText_id_of_mem_bare freshSession ready_freshSession comparisonTemplate oversizedSource (.one _)
  obtain ⟨f, hf, he⟩ := (h _).mp comparison_of_oversized_raises
  cases hf
  exact ⟨environment, s', he⟩

/-- Not every equation returns. -/
theorem not_every_equation_returns :
    ¬ ∀ (r : Resolver) (s : Session Unit) (template : Text) (sources : Value),
      (∀ c ∈ r.criteria, c.id.isText = true) → s.Ready → IsSources sources →
        ∃ truth, (outcome (r.evaluateEquation (.text template) sources) s).1 = .ok truth := by
  intro h
  obtain ⟨truth, ht⟩ := h bare freshSession comparisonTemplate oversizedSource isText_id_of_mem_bare
    ready_freshSession (.one _)
  rw [comparison_of_oversized_raises] at ht
  cases ht

end Resolver
end Vetting
