import Vetting.Error

/-!
# Results of steps

A computation without a state succeeds when each of its steps does, and fails as the first of them
that fails. These lemmas take its result apart into the results of its steps.
-/

namespace Vetting

variable {ε ε' α β : Type}

theorem bind_eq_ok_iff {m : Except ε α} {f : α → Except ε β} {b : β} :
    (m >>= f) = .ok b ↔ ∃ a, m = .ok a ∧ f a = .ok b := by
  cases m <;> simp [bind, Except.bind]

theorem bind_eq_error_iff {m : Except ε α} {f : α → Except ε β} {e : ε} :
    (m >>= f) = .error e ↔ m = .error e ∨ ∃ a, m = .ok a ∧ f a = .error e := by
  cases m <;> simp [bind, Except.bind]

theorem mapError_eq_error_iff {r : Except ε α} {f : ε → ε'} {e : ε'} :
    r.mapError f = .error e ↔ ∃ cause, r = .error cause ∧ e = f cause := by
  constructor
  · intro h
    cases r with
    | error cause => exact ⟨cause, rfl, (Except.error.inj h).symm⟩
    | ok a => cases h
  · rintro ⟨cause, rfl, rfl⟩
    rfl

theorem mapError_eq_ok_iff {r : Except ε α} {f : ε → ε'} {a : α} :
    r.mapError f = .ok a ↔ r = .ok a := by
  constructor
  · intro h
    cases r with
    | error cause => cases h
    | ok b => exact congrArg Except.ok (Except.ok.inj h)
  · rintro rfl
    rfl

theorem ofFault_eq_ok_iff {r : Except Fault α} {a : α} : ofFault r = .ok a ↔ r = .ok a := by
  cases r <;> simp [ofFault]

theorem ofFault_eq_error_iff {r : Except Fault α} {e : Failure} :
    ofFault r = .error e ↔ ∃ f, r = .error f ∧ e = .fault f := by
  cases r <;> simp [ofFault, eq_comm]

end Vetting
