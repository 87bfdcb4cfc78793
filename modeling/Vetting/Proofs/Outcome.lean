import Vetting.Proofs.Result
import Vetting.Session

/-!
# Outcomes of computations

A computation of the engine has a result and leaves a state, whether it succeeds or not. These
lemmas take the outcome of a composed computation apart into the outcomes of its steps.
-/

namespace Vetting

section Outcome
variable {ε σ α β : Type}

/-- The result of a computation from a state, and the state that it leaves. -/
def outcome (m : ExceptT ε (StateM σ) α) (s : σ) : Except ε α × σ := m.run s

/-- What a computation goes on to after a result. -/
def proceed (f : α → ExceptT ε (StateM σ) β) : Except ε α × σ → Except ε β × σ
  | (.ok a, s) => outcome (f a) s
  | (.error e, s) => (.error e, s)

@[simp] theorem outcome_pure (a : α) (s : σ) :
    outcome (pure a : ExceptT ε (StateM σ) α) s = (.ok a, s) := rfl

@[simp] theorem outcome_throw (e : ε) (s : σ) :
    outcome (throw e : ExceptT ε (StateM σ) α) s = (.error e, s) := rfl

@[simp] theorem outcome_get (s : σ) : outcome (get : ExceptT ε (StateM σ) σ) s = (.ok s, s) := rfl

@[simp] theorem outcome_set (s t : σ) :
    outcome (set t : ExceptT ε (StateM σ) PUnit) s = (.ok ⟨⟩, t) := rfl

@[simp] theorem outcome_modify (f : σ → σ) (s : σ) :
    outcome (modify f : ExceptT ε (StateM σ) PUnit) s = (.ok ⟨⟩, f s) := rfl

@[simp] theorem proceed_ok (f : α → ExceptT ε (StateM σ) β) (a : α) (s : σ) :
    proceed f (.ok a, s) = outcome (f a) s := rfl

@[simp] theorem proceed_error (f : α → ExceptT ε (StateM σ) β) (e : ε) (s : σ) :
    proceed f (.error e, s) = (.error e, s) := rfl

theorem outcome_bind (m : ExceptT ε (StateM σ) α) (f : α → ExceptT ε (StateM σ) β) (s : σ) :
    outcome (m >>= f) s = proceed f (outcome m s) := by
  have h : outcome (m >>= f) s = outcome (ExceptT.mk (m.run >>= ExceptT.bindCont f)) s := rfl
  rw [h]
  show (ExceptT.bindCont f (m.run s).1) (m.run s).2 = proceed f (m.run s)
  rcases m.run s with ⟨r, t⟩
  cases r <;> rfl

theorem outcome_bind_of_ok {m : ExceptT ε (StateM σ) α} {f : α → ExceptT ε (StateM σ) β} {a : α}
    {s t : σ} (h : outcome m s = (.ok a, t)) : outcome (m >>= f) s = outcome (f a) t := by
  rw [outcome_bind, h, proceed_ok]

theorem outcome_bind_of_error {m : ExceptT ε (StateM σ) α} {f : α → ExceptT ε (StateM σ) β} {e : ε}
    {s t : σ} (h : outcome m s = (.error e, t)) : outcome (m >>= f) s = (.error e, t) := by
  rw [outcome_bind, h, proceed_error]

theorem outcome_bind_eq_error_iff {m : ExceptT ε (StateM σ) α} {f : α → ExceptT ε (StateM σ) β}
    {s t : σ} {e : ε} :
    outcome (m >>= f) s = (.error e, t) ↔
      outcome m s = (.error e, t) ∨
        ∃ a u, outcome m s = (.ok a, u) ∧ outcome (f a) u = (.error e, t) := by
  rw [outcome_bind]
  rcases outcome m s with ⟨e' | a, u⟩
  · simp
  · constructor
    · exact fun h => .inr ⟨a, u, rfl, h⟩
    · rintro (h | ⟨_, _, h, hf⟩)
      · cases h
      · cases h
        exact hf

theorem outcome_bind_eq_ok_iff {m : ExceptT ε (StateM σ) α} {f : α → ExceptT ε (StateM σ) β}
    {s t : σ} {b : β} :
    outcome (m >>= f) s = (.ok b, t) ↔
      ∃ a u, outcome m s = (.ok a, u) ∧ outcome (f a) u = (.ok b, t) := by
  rw [outcome_bind]
  rcases outcome m s with ⟨e' | a, u⟩
  · simp
  · constructor
    · exact fun h => ⟨a, u, rfl, h⟩
    · rintro ⟨_, _, h, hf⟩
      cases h
      exact hf

theorem outcome_map (f : α → β) (m : ExceptT ε (StateM σ) α) (s : σ) :
    outcome (f <$> m) s = ((outcome m s).1.map f, (outcome m s).2) := by
  rw [map_eq_pure_bind, outcome_bind]
  rcases outcome m s with ⟨e | a, t⟩ <;> rfl

/-- A computation whose first step has the same result from two states, and whose other steps do not
look at the state, has the same result from both. -/
theorem outcome_bind_fst_congr {m : ExceptT ε (StateM σ) α} {f : α → ExceptT ε (StateM σ) β} {s t : σ}
    (hm : (outcome m s).1 = (outcome m t).1)
    (hf : ∀ a u w, (outcome (f a) u).1 = (outcome (f a) w).1) :
    (outcome (m >>= f) s).1 = (outcome (m >>= f) t).1 := by
  rw [outcome_bind, outcome_bind]
  rcases hs : outcome m s with ⟨e | a, s'⟩ <;> rcases ht : outcome m t with ⟨e' | a', t'⟩ <;>
    rw [hs, ht] at hm <;> cases hm
  · rfl
  · exact hf a s' t'

theorem exists_outcome_eq {m : ExceptT ε (StateM σ) α} {s : σ} {r : Except ε α}
    (h : (outcome m s).1 = r) : ∃ t, outcome m s = (r, t) := ⟨_, Prod.ext h rfl⟩

def Raises (m : ExceptT ε (StateM σ) α) (s : σ) (e : ε) : Prop := (outcome m s).1 = .error e

theorem raises_of_outcome {m : ExceptT ε (StateM σ) α} {s t : σ} {e : ε}
    (h : outcome m s = (.error e, t)) : Raises m s e := by
  rw [Raises, h]

theorem not_raises_of_ok {m : ExceptT ε (StateM σ) α} {s t : σ} {a : α} {e : ε}
    (h : outcome m s = (.ok a, t)) : ¬ Raises m s e := by
  rw [Raises, h]
  exact fun h => nomatch h

theorem not_raises_pure {a : α} {s : σ} {e : ε} : ¬ Raises (pure a) s e := not_raises_of_ok rfl

theorem raises_throw_iff {s : σ} {e e' : ε} :
    Raises (throw e : ExceptT ε (StateM σ) α) s e' ↔ e' = e := by
  rw [Raises, outcome_throw, Except.error.injEq, eq_comm]

theorem raises_bind_iff {m : ExceptT ε (StateM σ) α} {f : α → ExceptT ε (StateM σ) β} {s : σ} {e : ε} :
    Raises (m >>= f) s e ↔
      Raises m s e ∨ ∃ a t, outcome m s = (.ok a, t) ∧ Raises (f a) t e := by
  rw [Raises, Raises, outcome_bind]
  rcases outcome m s with ⟨e' | a, t⟩
  · simp
  · constructor
    · exact fun h => .inr ⟨a, t, rfl, h⟩
    · rintro (h | ⟨_, _, h, hf⟩)
      · cases h
      · cases h
        exact hf

theorem raises_bind_of_ok {m : ExceptT ε (StateM σ) α} {f : α → ExceptT ε (StateM σ) β} {a : α}
    {s t : σ} {e : ε} (h : outcome m s = (.ok a, t)) : Raises (m >>= f) s e ↔ Raises (f a) t e := by
  rw [Raises, Raises, outcome_bind_of_ok h]

end Outcome

namespace Evaluation

variable {σ α : Type}

@[simp] theorem outcome_ofResult (r : Except Failure α) (m : Machine σ) :
    outcome (ofResult r) m = (r, m) := rfl

@[simp] theorem outcome_attempt (c : Evaluation σ α) (m : Machine σ) :
    outcome c.attempt m = (.ok (outcome c m).1, (outcome c m).2) := rfl

@[simp] theorem outcome_fail (problem : EvaluationProblem) (position : Nat) (m : Machine σ) :
    outcome (fail problem position : Evaluation σ α) m =
      (.error (.evaluation problem (some position)), m) := rfl

end Evaluation

namespace Engine

variable {σ α : Type}

@[simp] theorem outcome_ofResult (r : Except Failure α) (s : Session σ) :
    outcome (ofResult r) s = (r, s) := rfl

@[simp] theorem outcome_ofFault (r : Except Fault α) (s : Session σ) :
    outcome (ofFault r) s = (Vetting.ofFault r, s) := rfl

@[simp] theorem outcome_attempt (c : Engine σ α) (s : Session σ) :
    outcome c.attempt s = (.ok (outcome c s).1, (outcome c s).2) := rfl

theorem raises_ofFault_iff {r : Except Fault α} {s : Session σ} {e : Failure} :
    Raises (ofFault r) s e ↔ ∃ f, r = .error f ∧ e = .fault f := by
  rw [Raises, outcome_ofFault]
  cases r with
  | ok a => simp [Vetting.ofFault]
  | error f => simp [Vetting.ofFault, eq_comm]

@[simp] theorem outcome_settings (s : Session σ) :
    outcome settings s = (.ok s.settings, s) := rfl

theorem outcome_parse_text (text : Text) (s : Session σ) :
    outcome (parse (.text text)) s =
      ((s.cache.parse s.capacity.parsing (Settings.limits s.settings) text).1,
        { s with cache := (s.cache.parse s.capacity.parsing (Settings.limits s.settings) text).2 }) :=
  rfl

theorem outcome_evaluateTree (functions : Scope) (tree : Node) (record : Value) (source : Option Text)
    (s : Session σ) :
    outcome (evaluateTree functions tree record source) s =
      ((Expression.evaluateTree s.capacity.evaluation ⟨s.host, functions⟩ tree record source
          s.state).1,
        { s with state := (Expression.evaluateTree s.capacity.evaluation ⟨s.host, functions⟩ tree
          record source s.state).2 }) := rfl

end Engine
end Vetting
