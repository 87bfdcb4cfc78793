import Vetting.Value.Equality

/-!
# Objects with distinct keys

The objects that documents, records and hosts bring hold each of their keys once, and so do the objects
inside them.
-/

namespace Vetting.Value

mutual

/-- Whether every object in a value holds each of its keys once. -/
def DistinctKeys : Value → Prop
  | array items | tuple items => DistinctKeysList items
  | object fields =>
    (fields.map Prod.fst).Pairwise (fun k l => k.sameKey l = false) ∧ DistinctKeysFields fields
  | null | boolean _ | number _ | text _ | foreign _ | host _ | builtin _ | closure .. => True

def DistinctKeysList : List Value → Prop
  | [] => True
  | v :: vs => DistinctKeys v ∧ DistinctKeysList vs

def DistinctKeysFields : Fields → Prop
  | [] => True
  | (_, v) :: rest => DistinctKeys v ∧ DistinctKeysFields rest

end

variable {fields : Fields} {key value : Value} {items : List Value}

theorem DistinctKeys.of_items {v : Value} (h : v.DistinctKeys) (hv : v.items? = some items) :
    DistinctKeysList items := by
  cases v <;> cases hv <;> simpa only [DistinctKeys] using h

theorem distinctKeys_of_get? (h : DistinctKeysFields fields) (hget : fields.get? key = some value) :
    value.DistinctKeys := by
  induction fields with
  | nil => cases hget
  | cons field rest ih =>
    rw [DistinctKeysFields] at h
    rw [Fields.get?] at hget
    split at hget
    · cases hget
      exact h.1
    · exact ih h.2 hget

end Vetting.Value
