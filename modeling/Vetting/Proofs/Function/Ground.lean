import Vetting.Expression.Operation
import Vetting.Proofs.Result

/-!
# Ground values

A ground value holds no closure and no function of the host, at any depth; built-in functions may be
in it. What an operator makes of its operands is ground.
-/

namespace Vetting

namespace Value

mutual

/-- Whether no closure and no function of the host is in a value. -/
def isGround : Value → Bool
  | null | boolean _ | number _ | text _ | foreign _ | builtin _ => true
  | array items | tuple items => isGroundList items
  | object fields => isGroundFields fields
  | host _ | closure .. => false

def isGroundList : List Value → Bool
  | [] => true
  | v :: vs => isGround v && isGroundList vs

def isGroundFields : Fields → Bool
  | [] => true
  | (k, v) :: rest => isGround k && isGround v && isGroundFields rest

end

theorem isGroundList_iff {vs : List Value} : isGroundList vs = true ↔ ∀ v ∈ vs, v.isGround = true := by
  induction vs with
  | nil => simp [isGroundList]
  | cons v vs ih => simp [isGroundList, ih]

theorem isGround_array_iff {items : List Value} :
    (array items).isGround = true ↔ ∀ v ∈ items, v.isGround = true := by
  rw [isGround, isGroundList_iff]

mutual

theorem isGround_of_isModel {v : Value} (h : v.isModel = true) : v.isGround = true := by
  match v with
  | null | boolean _ | number _ | text _ => rfl
  | array items =>
    rw [isGround]
    exact isGroundList_of_isModelList (by simpa [isModel] using h)
  | tuple items =>
    rw [isGround]
    exact isGroundList_of_isModelList (by simpa [isModel] using h)
  | object fields =>
    rw [isGround]
    exact isGroundFields_of_isModelFields (by simpa [isModel] using h)

theorem isGroundList_of_isModelList {vs : List Value} (h : isModelList vs = true) :
    isGroundList vs = true := by
  match vs with
  | [] => rfl
  | v :: vs =>
    simp only [isModelList, Bool.and_eq_true] at h
    simp only [isGroundList, isGround_of_isModel h.1, isGroundList_of_isModelList h.2, Bool.and_self]

theorem isGroundFields_of_isModelFields {fields : Fields} (h : isModelFields fields = true) :
    isGroundFields fields = true := by
  match fields with
  | [] => rfl
  | (k, v) :: rest =>
    simp only [isModelFields, Bool.and_eq_true] at h
    cases k with
    | text t =>
      simp only [isGroundFields, isGround, isGround_of_isModel h.1.2,
        isGroundFields_of_isModelFields h.2, Bool.and_self]
    | _ => cases h.1.1

end

theorem isCallable_of_isModel {v : Value} (h : v.isModel = true) : v.isCallable = false := by
  cases v with
  | host | builtin | closure => cases h
  | _ => rfl

/-- What a built-in may be given: a ground value or a closure. -/
def isPassable (v : Value) : Bool :=
  match v with
  | closure .. => true
  | v => v.isGround

theorem isPassable_of_isGround {v : Value} (h : v.isGround = true) : v.isPassable = true := by
  cases v with
  | closure => rfl
  | _ => exact h

/-- The elements of an argument are ground, since a closure has none. -/
theorem isGround_of_mem_items {v : Value} (h : v.isPassable = true) {items : List Value}
    (hi : v.items? = some items) : ∀ item ∈ items, item.isGround = true := by
  cases v with
  | array _ | tuple _ =>
    cases hi
    exact isGroundList_iff.mp h
  | _ => cases hi

end Value

/-! ## Operators -/

namespace Operation

theorem isGround_unary {position : Nat} {operator : Text} {v w : Value}
    (h : unary position operator v = .ok w) : w.isGround = true := by
  unfold unary at h
  split at h
  · obtain ⟨truth, _, h⟩ := bind_eq_ok_iff.mp h
    cases h
    rfl
  · split at h
    · cases h
      rfl
    · cases h

theorem isGround_binary {position : Nat} {operator : Text} {a b w : Value}
    (h : binary position operator a b = .ok w) : w.isGround = true := by
  simp only [binary, comparison, concatenation, arithmetic, failAt] at h
  repeat' split at h
  all_goals first | cases h; rfl | cases h

/-- Operators do not fail as if the budget had ended. -/
theorem unary_ne_exhausted (position : Nat) (operator : Text) (v : Value) :
    unary position operator v ≠ .error .exhausted := by
  intro h
  unfold unary at h
  split at h
  · rcases bind_eq_error_iff.mp h with h | ⟨_, _, h⟩
    · obtain ⟨_, _, h⟩ := ofFault_eq_error_iff.mp h
      cases h
    · cases h
  · split at h <;> cases h

theorem binary_ne_exhausted (position : Nat) (operator : Text) (a b : Value) :
    binary position operator a b ≠ .error .exhausted := by
  intro h
  simp only [binary, comparison, concatenation, arithmetic, failAt] at h
  repeat' split at h
  all_goals cases h

end Operation

end Vetting
