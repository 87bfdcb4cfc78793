import Vetting.Value.JsonForm
import Vetting.Value.Order

/-!
# Closures that forget what they have captured

A closure is told apart by its number and shown by its parameter. The values in the scope that it has
captured can be forgotten: a value keeps its kind, and stays the same key.
-/

namespace Vetting

namespace Value

mutual

/-- The value with closures that have captured nothing. -/
def forget : Value → Value
  | null => null
  | boolean b => boolean b
  | number n => number n
  | text t => text t
  | array items => array (forgetList items)
  | tuple items => tuple (forgetList items)
  | object fields => object (forgetFields fields)
  | foreign thing => foreign thing
  | host f => host f
  | builtin b => builtin b
  | closure serial position parameter body _ => closure serial position parameter body []

def forgetList : List Value → List Value
  | [] => []
  | v :: vs => forget v :: forgetList vs

def forgetFields : Fields → Fields
  | [] => []
  | (k, v) :: rest => (forget k, forget v) :: forgetFields rest

end

mutual

@[simp] theorem forget_forget (v : Value) : v.forget.forget = v.forget := by
  match v with
  | null | boolean _ | number _ | text _ | foreign _ | host _ | builtin _ | closure .. => rfl
  | array items => rw [forget, forget, forgetList_forgetList items]
  | tuple items => rw [forget, forget, forgetList_forgetList items]
  | object fields => rw [forget, forget, forgetFields_forgetFields fields]

theorem forgetList_forgetList (vs : List Value) : forgetList (forgetList vs) = forgetList vs := by
  match vs with
  | [] => rfl
  | v :: vs => rw [forgetList, forgetList, forget_forget v, forgetList_forgetList vs]

theorem forgetFields_forgetFields (fields : Fields) :
    forgetFields (forgetFields fields) = forgetFields fields := by
  match fields with
  | [] => rfl
  | (k, v) :: rest =>
    rw [forgetFields, forgetFields, forget_forget k, forget_forget v, forgetFields_forgetFields rest]

end

/-! ## Kinds -/

@[simp] theorem kind?_forget (v : Value) : v.forget.kind? = v.kind? := by cases v <;> rfl

@[simp] theorem typeName_forget (v : Value) : v.forget.typeName = v.typeName := by cases v <;> rfl

@[simp] theorem describe_forget (v : Value) : v.forget.describe = v.describe := by
  rw [describe, describe, kind?_forget, typeName_forget]

@[simp] theorem isCallable_forget (v : Value) : v.forget.isCallable = v.isCallable := by
  cases v <;> rfl

@[simp] theorem isText_forget (v : Value) : v.forget.isText = v.isText := by cases v <;> rfl

theorem compare_forget (a b : Value) : a.forget.compare b.forget = a.compare b := by
  cases a <;> cases b <;> rfl

mutual

/-- A model value has no closures that could forget anything. -/
theorem forget_of_isModel {v : Value} (h : v.isModel = true) : v.forget = v := by
  match v with
  | null | boolean _ | number _ | text _ => rfl
  | array items =>
    rw [isModel] at h
    rw [forget, forgetList_of_isModelList h]
  | tuple items =>
    rw [isModel] at h
    rw [forget, forgetList_of_isModelList h]
  | object fields =>
    rw [isModel] at h
    rw [forget, forgetFields_of_isModelFields h]

theorem forgetList_of_isModelList {vs : List Value} (h : isModelList vs = true) :
    forgetList vs = vs := by
  match vs with
  | [] => rfl
  | v :: vs =>
    simp only [isModelList, Bool.and_eq_true] at h
    rw [forgetList, forget_of_isModel h.1, forgetList_of_isModelList h.2]

theorem forgetFields_of_isModelFields {fields : Fields} (h : isModelFields fields = true) :
    forgetFields fields = fields := by
  match fields with
  | [] => rfl
  | (k, v) :: rest =>
    simp only [isModelFields, Bool.and_eq_true] at h
    cases k with
    | text t =>
      rw [forgetFields, forget_of_isModel h.1.2, forgetFields_of_isModelFields h.2]
      rfl
    | _ => cases h.1.1

end

/-! ## Keys -/

@[simp] theorem keyNumber?_forget (v : Value) : v.forget.keyNumber? = v.keyNumber? := by
  cases v <;> rfl

mutual

theorem sameKey_forget (a b : Value) : a.forget.sameKey b.forget = a.sameKey b := by
  match a with
  | array items =>
    cases b with
    | array others => simp only [forget, sameKey, sameKeyList_forgetList items others]
    | _ => simp only [forget, sameKey]
  | tuple items =>
    cases b with
    | tuple others => simp only [forget, sameKey, sameKeyList_forgetList items others]
    | _ => simp only [forget, sameKey]
  | boolean _ | number _ => simp only [forget, sameKey, keyNumber?_forget]
  | null | text _ | object _ | foreign _ | host _ | builtin _ | closure .. =>
    cases b <;> simp only [forget, sameKey]

theorem sameKeyList_forgetList (vs ws : List Value) :
    sameKeyList (forgetList vs) (forgetList ws) = sameKeyList vs ws := by
  match vs, ws with
  | [], [] => rfl
  | [], _ :: _ => rfl
  | _ :: _, [] => rfl
  | v :: vs, w :: ws =>
    rw [forgetList, forgetList, sameKeyList, sameKeyList, sameKey_forget v w,
      sameKeyList_forgetList vs ws]

end

@[simp] theorem jsonKey_forget (v : Value) : v.forget.jsonKey = v.jsonKey := by cases v <;> rfl

end Value
end Vetting
