import Vetting.Proofs.Outcome
import Vetting.Rule.Check
import Vetting.Validation

/-!
# Sessions over time

What the engine does to a session is to advance the state of the host, to fill the cache and to write
lines to the log. Everything else about a session stays: the sessions before and after are alike.
-/

namespace Vetting

variable {σ α β : Type}

/-- Sessions that differ at most in the state of the host, the cache and the lines of the log. -/
structure Session.Alike (s t : Session σ) : Prop where
  host : t.host = s.host
  settings : t.settings = s.settings
  capacity : t.capacity = s.capacity
  log : ∃ lines, t.log = { s.log with lines }

namespace Session.Alike

variable {s t u : Session σ}

theorem refl (s : Session σ) : s.Alike s := ⟨rfl, rfl, rfl, s.log.lines, rfl⟩

theorem trans (hst : s.Alike t) (htu : t.Alike u) : s.Alike u := by
  obtain ⟨lines, hl⟩ := htu.log
  obtain ⟨_, hm⟩ := hst.log
  refine ⟨htu.host.trans hst.host, htu.settings.trans hst.settings,
    htu.capacity.trans hst.capacity, lines, ?_⟩
  rw [hl, hm]

end Session.Alike

theorem Log.exists_lines_of_write {log log' : Log} {instant : Int} {event : LogEvent}
    (h : log.write instant event = .ok log') : ∃ lines, log' = { log with lines } := by
  unfold Log.write at h
  split at h
  · cases h
    exact ⟨log.lines, rfl⟩
  · obtain ⟨line, _, h⟩ := bind_eq_ok_iff.mp h
    split at h
    · cases h
      exact ⟨_, rfl⟩
    · cases h
      exact ⟨log.lines, rfl⟩

/-- Whether a log can write an event does not depend on the lines that it has. -/
theorem Log.map_write_lines (log : Log) (instant : Int) (event : LogEvent) (lines : List LogLine) :
    ({ log with lines }.write instant event).map (fun _ => ()) =
      (log.write instant event).map fun _ => () := by
  have hrender : { log with lines }.render instant event = log.render instant event := rfl
  have henabled : ∀ level, { log with lines }.isEnabled level = log.isEnabled level := fun _ => rfl
  unfold Log.write
  rw [hrender, henabled]
  by_cases hskip : event.level = .debug ∧ (!log.isEnabled .debug) = true
  · rw [if_pos hskip, if_pos hskip]
    rfl
  · rw [if_neg hskip, if_neg hskip]
    cases log.render instant event <;> rfl

namespace Engine

/-- Operations after which a session is like the one before, whether they succeed or not. -/
def Keeps (m : Engine σ α) : Prop := ∀ s : Session σ, s.Alike (outcome m s).2

theorem Keeps.alike {m : Engine σ α} (h : Keeps m) {s t : Session σ} {r : Except Failure α}
    (hm : outcome m s = (r, t)) : s.Alike t := by
  have hs := h s
  rwa [hm] at hs

theorem keeps_of_snd {m : Engine σ α} (h : ∀ s, (outcome m s).2 = s) : Keeps m := by
  intro s
  rw [h s]
  exact .refl s

theorem keeps_pure (a : α) : Keeps (pure a : Engine σ α) := keeps_of_snd fun _ => rfl

theorem keeps_throw (e : Failure) : Keeps (throw e : Engine σ α) := keeps_of_snd fun _ => rfl

theorem keeps_ofFault (r : Except Fault α) : Keeps (ofFault r : Engine σ α) :=
  keeps_of_snd fun _ => rfl

theorem keeps_bind {m : Engine σ α} {f : α → Engine σ β} (hm : Keeps m) (hf : ∀ a, Keeps (f a)) :
    Keeps (m >>= f) := by
  intro s
  rw [outcome_bind]
  rcases h : outcome m s with ⟨e | a, t⟩
  · exact hm.alike h
  · exact (hm.alike h).trans (hf a t)

theorem keeps_attempt {m : Engine σ α} (h : Keeps m) : Keeps m.attempt := by
  intro s
  rw [outcome_attempt]
  exact h s

theorem keeps_log (event : LogEvent) : Keeps (log event : Engine σ Unit) := by
  intro s
  rw [log, outcome_bind_of_ok (outcome_get s), outcome_bind, outcome_ofFault]
  cases h : s.log.write s.host.instant event with
  | error f => exact .refl s
  | ok log' => exact ⟨rfl, rfl, rfl, Log.exists_lines_of_write h⟩

theorem raises_log_iff {event : LogEvent} {s : Session σ} {e : Failure} :
    Raises (log event) s e ↔ ∃ f, s.log.write s.host.instant event = .error f ∧ e = .fault f := by
  rw [log, raises_bind_of_ok (outcome_get s), raises_bind_iff, raises_ofFault_iff]
  constructor
  · rintro (h | ⟨_, _, _, h⟩)
    · exact h
    · cases h
  · exact .inl

/-- Two sessions that are alike log an event with the same result. -/
theorem outcome_log_eq {s t : Session σ} (h : s.Alike t) (event : LogEvent) :
    (outcome (log event) t).1 = (outcome (log event) s).1 := by
  obtain ⟨lines, hl⟩ := h.log
  have hw := Log.map_write_lines s.log s.host.instant event lines
  rw [log, outcome_bind_of_ok (outcome_get t), outcome_bind_of_ok (outcome_get s), outcome_bind,
    outcome_bind, outcome_ofFault, outcome_ofFault, h.host, hl]
  cases hs : s.log.write s.host.instant event <;>
    cases ht : { s.log with lines }.write s.host.instant event <;>
      simp_all [Except.map, Vetting.ofFault]

theorem keeps_parse (source : Value) : Keeps (parse source : Engine σ Node) := by
  intro s
  cases source with
  | text t => exact ⟨rfl, rfl, rfl, s.log.lines, rfl⟩
  | _ => exact .refl s

theorem keeps_evaluateTree (functions : Scope) (tree : Node) (record : Value) (source : Option Text) :
    Keeps (evaluateTree functions tree record source : Engine σ Value) :=
  fun s => ⟨rfl, rfl, rfl, s.log.lines, rfl⟩

theorem keeps_evaluate (functions : Scope) (source record : Value) :
    Keeps (evaluate functions source record : Engine σ Value) :=
  keeps_bind (keeps_parse source) fun tree => keeps_evaluateTree functions tree record _

theorem keeps_call (functions : Scope) (callee : Value) (arguments : List Value) :
    Keeps (call functions callee arguments : Engine σ Value) :=
  fun s => ⟨rfl, rfl, rfl, s.log.lines, rfl⟩

end Engine

open Engine

/-! ## Checks -/

theorem Validator.keeps_call (functions : Scope) (v : Value) (validator : Validator) :
    Keeps (validator.call functions v : Engine σ Value) := by
  cases validator with
  | function f => exact Engine.keeps_call functions f [v]
  | expression source tree own =>
    rw [Validator.call]
    exact keeps_evaluateTree (own.getD functions) tree _ (some source)

theorem Validator.keeps_accepts (functions : Scope) (v : Value) (validator : Validator) :
    Keeps (validator.accepts functions v : Engine σ Bool) := by
  refine keeps_bind (keeps_attempt (keeps_bind (Validator.keeps_call functions v validator)
    fun verdict => keeps_ofFault _)) fun outcome => ?_
  cases outcome with
  | ok accepted => exact keeps_pure accepted
  | error e => exact keeps_bind (keeps_log _) fun _ => keeps_pure false

theorem Rule.keeps_check (functions : Scope) (v : Value) (rule : Rule) :
    Keeps (rule.check functions v : Engine σ Bool) := by
  cases rule with
  | custom validator description => exact Validator.keeps_accepts functions v validator
  | unknown object => exact keeps_throw _
  | between least most => exact keeps_ofFault _
  | ofType type => exact keeps_ofFault _
  | compared relation bound => exact keeps_ofFault _
  | _ => exact keeps_pure _

theorem Criterion.keeps_errorsOf (functions : Scope) (catalog : Catalog) (language : Value)
    (c : Criterion) (v : Value) (errors : Fields) (rules : List Rule) :
    Keeps (errorsOf functions catalog language c v errors rules : Engine σ Fields) := by
  induction rules generalizing errors with
  | nil => exact keeps_pure errors
  | cons rule rest ih =>
    refine keeps_bind (Rule.keeps_check functions v rule) fun accepted => ?_
    cases accepted with
    | true => exact ih errors
    | false => exact keeps_bind (keeps_ofFault _) fun message => ih _

theorem Criterion.keeps_validate (functions : Scope) (catalog : Catalog) (language : Value)
    (c : Criterion) (v : Value) :
    Keeps (c.validate functions catalog language v : Engine σ Verdict) :=
  keeps_bind (keeps_errorsOf functions catalog language c v [] c.rules) fun _ => keeps_pure _

end Vetting
