import Vetting.Proofs.Value.DistinctKeys
import Vetting.Proofs.Value.Fields
import Vetting.Proofs.Value.Shape

/-!
# Normal forms

The normal form of a model value has arrays in place of tuples and is the same in everything else: its
kind, its truth and its literal are those of the value, and it is equal to what the value is equal to.
-/

namespace Vetting

namespace Value

mutual

def arrayed : Value → Value
  | array items => array (arrayedList items)
  | tuple items => array (arrayedList items)
  | object fields => object (arrayedFields fields)
  | null => null
  | boolean b => boolean b
  | number n => number n
  | text t => text t
  | foreign thing => foreign thing
  | host f => host f
  | builtin b => builtin b
  | closure serial position parameter body scope => closure serial position parameter body scope

def arrayedList : List Value → List Value
  | [] => []
  | v :: vs => arrayed v :: arrayedList vs

def arrayedFields : Fields → Fields
  | [] => []
  | (k, v) :: rest => (k, arrayed v) :: arrayedFields rest

end

mutual

def TupleFree : Value → Prop
  | tuple _ => False
  | array items => TupleFreeList items
  | object fields => TupleFreeFields fields
  | null | boolean _ | number _ | text _ | foreign _ | host _ | builtin _ | closure .. => True

def TupleFreeList : List Value → Prop
  | [] => True
  | v :: vs => TupleFree v ∧ TupleFreeList vs

def TupleFreeFields : Fields → Prop
  | [] => True
  | (k, v) :: rest => TupleFree k ∧ TupleFree v ∧ TupleFreeFields rest

end

theorem arrayedList_eq_map (vs : List Value) : arrayedList vs = vs.map arrayed := by
  induction vs with
  | nil => rfl
  | cons v vs ih => rw [arrayedList, ih, List.map_cons]

@[simp] theorem keys_arrayedFields (fields : Fields) :
    (arrayedFields fields).map Prod.fst = fields.map Prod.fst := by
  induction fields with
  | nil => rfl
  | cons field rest ih => rw [arrayedFields, List.map_cons, ih, List.map_cons]

/-! ## What stays -/

mutual

@[simp] theorem shape_arrayed (v : Value) : v.arrayed.shape = v.shape := by
  match v with
  | null | boolean _ | number _ | text _ | foreign _ | host _ | builtin _ | closure .. => rfl
  | array items => rw [arrayed, shape, shape, shapeList_arrayedList items]
  | tuple items => rw [arrayed, shape, shape, shapeList_arrayedList items]
  | object fields => rw [arrayed, shape, shape, shapeFields_arrayedFields fields]

theorem shapeList_arrayedList (vs : List Value) : shapeList (arrayedList vs) = shapeList vs := by
  match vs with
  | [] => rfl
  | v :: vs => rw [arrayedList, shapeList, shapeList, shape_arrayed v, shapeList_arrayedList vs]

theorem shapeFields_arrayedFields (fields : Fields) :
    shapeFields (arrayedFields fields) = shapeFields fields := by
  match fields with
  | [] => rfl
  | (k, v) :: rest =>
    rw [arrayedFields, shapeFields, shapeFields, shape_arrayed v, shapeFields_arrayedFields rest]

end

@[simp] theorem kind?_arrayed (v : Value) : v.arrayed.kind? = v.kind? :=
  congr_shape (shape_arrayed v) kind? kind?_shape

@[simp] theorem truthy_arrayed (v : Value) : v.arrayed.truthy = v.truthy :=
  congr_shape (shape_arrayed v) truthy truthy_shape

@[simp] theorem isModel_arrayed (v : Value) : v.arrayed.isModel = v.isModel :=
  congr_shape (shape_arrayed v) isModel isModel_shape

theorem literal_arrayed (v : Value) : v.arrayed.literal = v.literal :=
  congr_shape (shape_arrayed v) literal literal_shape

theorem equal_arrayed_left (a b : Value) : a.arrayed.equal b = a.equal b :=
  equal_congr_shape (shape_arrayed a) rfl

theorem equal_arrayed_right (a b : Value) : a.equal b.arrayed = a.equal b :=
  equal_congr_shape rfl (shape_arrayed b)

mutual

theorem distinctKeys_arrayed {v : Value} (h : v.DistinctKeys) : v.arrayed.DistinctKeys := by
  match v with
  | null | boolean _ | number _ | text _ | foreign _ | host _ | builtin _ | closure .. => trivial
  | array items =>
    rw [DistinctKeys] at h
    rw [arrayed, DistinctKeys]
    exact distinctKeysList_arrayedList h
  | tuple items =>
    rw [DistinctKeys] at h
    rw [arrayed, DistinctKeys]
    exact distinctKeysList_arrayedList h
  | object fields =>
    rw [DistinctKeys] at h
    rw [arrayed, DistinctKeys, keys_arrayedFields]
    exact ⟨h.1, distinctKeysFields_arrayedFields h.2⟩

theorem distinctKeysList_arrayedList {vs : List Value} (h : DistinctKeysList vs) :
    DistinctKeysList (arrayedList vs) := by
  match vs with
  | [] => trivial
  | v :: vs =>
    rw [DistinctKeysList] at h
    rw [arrayedList, DistinctKeysList]
    exact ⟨distinctKeys_arrayed h.1, distinctKeysList_arrayedList h.2⟩

theorem distinctKeysFields_arrayedFields {fields : Fields} (h : DistinctKeysFields fields) :
    DistinctKeysFields (arrayedFields fields) := by
  match fields with
  | [] => trivial
  | (k, v) :: rest =>
    rw [DistinctKeysFields] at h
    rw [arrayedFields, DistinctKeysFields]
    exact ⟨distinctKeys_arrayed h.1, distinctKeysFields_arrayedFields h.2⟩

end

/-! ## What goes -/

mutual

@[simp] theorem arrayed_arrayed (v : Value) : v.arrayed.arrayed = v.arrayed := by
  match v with
  | null | boolean _ | number _ | text _ | foreign _ | host _ | builtin _ | closure .. => rfl
  | array items => rw [arrayed, arrayed, arrayedList_arrayedList items]
  | tuple items => rw [arrayed, arrayed, arrayedList_arrayedList items]
  | object fields => rw [arrayed, arrayed, arrayedFields_arrayedFields fields]

theorem arrayedList_arrayedList (vs : List Value) : arrayedList (arrayedList vs) = arrayedList vs := by
  match vs with
  | [] => rfl
  | v :: vs => rw [arrayedList, arrayedList, arrayed_arrayed v, arrayedList_arrayedList vs]

theorem arrayedFields_arrayedFields (fields : Fields) :
    arrayedFields (arrayedFields fields) = arrayedFields fields := by
  match fields with
  | [] => rfl
  | (k, v) :: rest =>
    rw [arrayedFields, arrayedFields, arrayed_arrayed v, arrayedFields_arrayedFields rest]

end

mutual

/-- The keys of a model value are texts, so no tuple is left in it. -/
theorem tupleFree_arrayed {v : Value} (h : v.isModel = true) : v.arrayed.TupleFree := by
  match v with
  | null | boolean _ | number _ | text _ => trivial
  | array items =>
    rw [isModel] at h
    rw [arrayed, TupleFree]
    exact tupleFreeList_arrayedList h
  | tuple items =>
    rw [isModel] at h
    rw [arrayed, TupleFree]
    exact tupleFreeList_arrayedList h
  | object fields =>
    rw [isModel] at h
    rw [arrayed, TupleFree]
    exact tupleFreeFields_arrayedFields h

theorem tupleFreeList_arrayedList {vs : List Value} (h : isModelList vs = true) :
    TupleFreeList (arrayedList vs) := by
  match vs with
  | [] => trivial
  | v :: vs =>
    rw [isModelList, Bool.and_eq_true] at h
    rw [arrayedList, TupleFreeList]
    exact ⟨tupleFree_arrayed h.1, tupleFreeList_arrayedList h.2⟩

theorem tupleFreeFields_arrayedFields {fields : Fields} (h : isModelFields fields = true) :
    TupleFreeFields (arrayedFields fields) := by
  match fields with
  | [] => trivial
  | (k, v) :: rest =>
    rw [isModelFields, Bool.and_eq_true, Bool.and_eq_true] at h
    rw [arrayedFields, TupleFreeFields]
    refine ⟨?_, tupleFree_arrayed h.1.2, tupleFreeFields_arrayedFields h.2⟩
    cases k with
    | text t => trivial
    | _ => cases h.1.1

end

/-! ## Normalising -/

mutual

/-- Normalising a model value replaces its tuples and does nothing else. -/
theorem normalize_eq_ok_arrayed {v : Value} (hmodel : v.isModel = true) (hkeys : v.DistinctKeys) :
    v.normalize = .ok v.arrayed := by
  match v with
  | null | boolean _ | number _ | text _ => rfl
  | array items | tuple items =>
    rw [isModel] at hmodel
    rw [DistinctKeys] at hkeys
    rw [normalize, normalizeList_eq_ok_arrayedList hmodel hkeys]
    rfl
  | object fields =>
    rw [isModel] at hmodel
    rw [DistinctKeys] at hkeys
    have hfields : normalizeFields [] fields = .ok ([] ++ arrayedFields fields) :=
      normalizeFields_eq_ok_arrayedFields hmodel hkeys.2 hkeys.1
    rw [normalize, hfields]
    rfl

theorem normalizeList_eq_ok_arrayedList {vs : List Value} (hmodel : isModelList vs = true)
    (hkeys : DistinctKeysList vs) : normalizeList vs = .ok (arrayedList vs) := by
  match vs with
  | [] => rfl
  | v :: vs =>
    rw [isModelList, Bool.and_eq_true] at hmodel
    rw [DistinctKeysList] at hkeys
    rw [normalizeList, normalize_eq_ok_arrayed hmodel.1 hkeys.1,
      normalizeList_eq_ok_arrayedList hmodel.2 hkeys.2]
    rfl

/-- A key that has not occurred before gets a field of its own. -/
theorem normalizeFields_eq_ok_arrayedFields {done fields : Fields} (hmodel : isModelFields fields = true)
    (hkeys : DistinctKeysFields fields)
    (hdistinct : (done.map Prod.fst ++ fields.map Prod.fst).Pairwise fun k l => k.sameKey l = false) :
    normalizeFields done fields = .ok (done ++ arrayedFields fields) := by
  match fields with
  | [] => rw [normalizeFields, arrayedFields, List.append_nil]
  | (k, v) :: rest =>
    rw [isModelFields, Bool.and_eq_true, Bool.and_eq_true] at hmodel
    rw [DistinctKeysFields] at hkeys
    cases k with
    | text t =>
      have habsent : ∀ field ∈ done, field.1.sameKey (text t) = false := by
        intro field hfield
        have hbefore := (List.pairwise_append.mp hdistinct).2.2
        exact hbefore _ (List.mem_map_of_mem hfield) _ List.mem_cons_self
      have hrest : normalizeFields (done ++ [(text t, v.arrayed)]) rest =
          .ok (done ++ [(text t, v.arrayed)] ++ arrayedFields rest) :=
        normalizeFields_eq_ok_arrayedFields hmodel.2 hkeys.2 (by simpa using hdistinct)
      rw [normalizeFields, normalize_eq_ok_arrayed hmodel.1.2 hkeys.1, display]
      simp only [bind, Except.bind]
      rw [Fields.put_of_absent _ habsent, hrest, arrayedFields, List.append_assoc,
        List.singleton_append]
    | _ => cases hmodel.1.1

end

end Value
end Vetting
