import Vetting.Proofs.Result
import Vetting.Value.JsonForm
import Vetting.Value.Literal

/-!
# What keeps a value from being written

A model value can always be normalised. A value has no literal for one of two reasons: an integer in
it has too many digits, or an object in it has a key that is no key of JSON.
-/

namespace Vetting.Value

/-! ## Normalising -/

mutual

theorem exists_normalize {v : Value} (h : v.isModel = true) : ∃ w, v.normalize = .ok w := by
  match v with
  | null => exact ⟨_, rfl⟩
  | boolean b => exact ⟨_, rfl⟩
  | number n => exact ⟨_, rfl⟩
  | text t => exact ⟨_, rfl⟩
  | array items =>
    have hi : isModelList items = true := by simpa [isModel] using h
    obtain ⟨ws, hw⟩ := exists_normalizeList hi
    exact ⟨array ws, by rw [normalize, hw]; rfl⟩
  | tuple items =>
    have hi : isModelList items = true := by simpa [isModel] using h
    obtain ⟨ws, hw⟩ := exists_normalizeList hi
    exact ⟨array ws, by rw [normalize, hw]; rfl⟩
  | object fields =>
    have hf : isModelFields fields = true := by simpa [isModel] using h
    obtain ⟨ws, hw⟩ := exists_normalizeFields [] hf
    exact ⟨object ws, by rw [normalize, hw]; rfl⟩

theorem exists_normalizeList {vs : List Value} (h : isModelList vs = true) :
    ∃ ws, normalizeList vs = .ok ws := by
  match vs with
  | [] => exact ⟨[], rfl⟩
  | v :: vs =>
    simp only [isModelList, Bool.and_eq_true] at h
    obtain ⟨w, hw⟩ := exists_normalize h.1
    obtain ⟨ws, hws⟩ := exists_normalizeList h.2
    exact ⟨w :: ws, by rw [normalizeList, hw, hws]; rfl⟩

theorem exists_normalizeFields {fields : Fields} (done : Fields) (h : isModelFields fields = true) :
    ∃ ws, normalizeFields done fields = .ok ws := by
  match fields with
  | [] => exact ⟨done, rfl⟩
  | (k, v) :: rest =>
    simp only [isModelFields, Bool.and_eq_true] at h
    obtain ⟨⟨hk, hv⟩, hr⟩ := h
    cases k with
    | text key =>
      obtain ⟨w, hw⟩ := exists_normalize hv
      obtain ⟨ws, hws⟩ := exists_normalizeFields (done.put (text key) w) hr
      exact ⟨ws, by rw [normalizeFields, display, hw]; exact hws⟩
    | _ => cases hk

end

/-! ## Writing literals -/

/-- The faults of writing a value as JSON or as a literal. -/
def Unwritable (f : Fault) : Prop := f = .tooManyDigitsToWrite ∨ ∃ typeName, f = .jsonKey typeName

theorem unwritable_of_writeInteger {i : Int} {f : Fault} (h : Number.writeInteger i = .error f) :
    Unwritable f := by
  unfold Number.writeInteger at h
  split at h
  · exact .inl (Except.error.inj h).symm
  · cases h

theorem unwritable_of_jsonNumber {n : Number} {f : Fault} (h : jsonNumber n = .error f) :
    Unwritable f := by
  cases n with
  | integer i => exact unwritable_of_writeInteger h
  | float x => cases h

theorem unwritable_of_format {n : Number} {f : Fault} (h : n.format = .error f) : Unwritable f := by
  unfold Number.format at h
  split at h
  · exact unwritable_of_writeInteger h
  · split at h
    · split at h
      · exact unwritable_of_writeInteger h
      · cases h
    · cases h

theorem unwritable_of_jsonKey {k : Value} {f : Fault} (h : jsonKey k = .error f) : Unwritable f := by
  cases k with
  | number n => exact unwritable_of_jsonNumber h
  | null => cases h
  | boolean b => cases h
  | text t => cases h
  | _ => exact .inr ⟨_, (Except.error.inj h).symm⟩

mutual

theorem unwritable_of_jsonAt {layout : JsonLayout} {level : Nat} {v : Value} {f : Fault}
    (h : jsonAt layout level v = .error f) : Unwritable f := by
  match v with
  | null => cases h
  | boolean b => cases h
  | number n => exact unwritable_of_jsonNumber h
  | text t => cases h
  | array items =>
    rw [jsonAt, bind_eq_error_iff] at h
    rcases h with h | ⟨_, _, h⟩
    · exact unwritable_of_jsonList h
    · cases h
  | tuple items =>
    rw [jsonAt, bind_eq_error_iff] at h
    rcases h with h | ⟨_, _, h⟩
    · exact unwritable_of_jsonList h
    · cases h
  | object fields =>
    rw [jsonAt, bind_eq_error_iff] at h
    rcases h with h | ⟨_, _, h⟩
    · exact unwritable_of_jsonFields h
    · cases h
  | foreign thing => cases h
  | host g => cases h
  | builtin b => cases h
  | closure a p x b s => cases h

theorem unwritable_of_jsonList {layout : JsonLayout} {level : Nat} {vs : List Value} {f : Fault}
    (h : jsonList layout level vs = .error f) : Unwritable f := by
  match vs with
  | [] => cases h
  | v :: vs =>
    rw [jsonList, bind_eq_error_iff] at h
    rcases h with h | ⟨_, _, h⟩
    · exact unwritable_of_jsonAt h
    · rw [bind_eq_error_iff] at h
      rcases h with h | ⟨_, _, h⟩
      · exact unwritable_of_jsonList h
      · cases h

theorem unwritable_of_jsonFields {layout : JsonLayout} {level : Nat} {fields : Fields} {f : Fault}
    (h : jsonFields layout level fields = .error f) : Unwritable f := by
  match fields with
  | [] => cases h
  | (k, v) :: rest =>
    rw [jsonFields, bind_eq_error_iff] at h
    rcases h with h | ⟨_, _, h⟩
    · exact unwritable_of_jsonKey h
    · rw [bind_eq_error_iff] at h
      rcases h with h | ⟨_, _, h⟩
      · exact unwritable_of_jsonAt h
      · rw [bind_eq_error_iff] at h
        rcases h with h | ⟨_, _, h⟩
        · exact unwritable_of_jsonFields h
        · cases h

end

mutual

theorem unwritable_of_literal {v : Value} {f : Fault} (h : v.literal = .error f) : Unwritable f := by
  match v with
  | null => cases h
  | boolean b => cases h
  | number n => exact unwritable_of_format h
  | text t => cases h
  | array items =>
    rw [literal, bind_eq_error_iff] at h
    rcases h with h | ⟨_, _, h⟩
    · exact unwritable_of_literalList h
    · cases h
  | tuple items =>
    rw [literal, bind_eq_error_iff] at h
    rcases h with h | ⟨_, _, h⟩
    · exact unwritable_of_literalList h
    · cases h
  | object fields => exact unwritable_of_jsonAt h
  | foreign thing => exact unwritable_of_jsonAt h
  | host g => exact unwritable_of_jsonAt h
  | builtin b => exact unwritable_of_jsonAt h
  | closure a p x b s => exact unwritable_of_jsonAt h

theorem unwritable_of_literalList {vs : List Value} {f : Fault} (h : literalList vs = .error f) :
    Unwritable f := by
  match vs with
  | [] => cases h
  | v :: vs =>
    rw [literalList, bind_eq_error_iff] at h
    rcases h with h | ⟨_, _, h⟩
    · exact unwritable_of_literal h
    · rw [bind_eq_error_iff] at h
      rcases h with h | ⟨_, _, h⟩
      · exact unwritable_of_literalList h
      · cases h

end

end Vetting.Value
