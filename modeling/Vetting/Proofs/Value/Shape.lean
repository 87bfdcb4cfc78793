import Vetting.Expression.Operation
import Vetting.Proofs.Value.Forgetting
import Vetting.Value.Literal

/-!
# The shape of a value

What closures have captured shows nowhere but in a call, and only a key or a look at its type tells a
tuple from an array. So the shape of a value, which has neither captured values nor tuples, is in
everything else the same as the value: it is as true, it is equal to the same values, and it is written
in the same way. So is every value of the same shape.
-/

namespace Vetting

namespace Value

mutual

/-- The value with arrays in place of tuples and with closures that have captured nothing. -/
def shape : Value → Value
  | array items => array (shapeList items)
  | tuple items => array (shapeList items)
  | object fields => object (shapeFields fields)
  | closure serial position parameter body _ => closure serial position parameter body []
  | null => null
  | boolean b => boolean b
  | number n => number n
  | text t => text t
  | foreign thing => foreign thing
  | host f => host f
  | builtin b => builtin b

def shapeList : List Value → List Value
  | [] => []
  | v :: vs => shape v :: shapeList vs

/-- Keys keep their tuples, which are no arrays as keys. -/
def shapeFields : Fields → Fields
  | [] => []
  | (k, v) :: rest => (forget k, shape v) :: shapeFields rest

end

mutual

@[simp] theorem shape_forget (v : Value) : v.forget.shape = v.shape := by
  match v with
  | null | boolean _ | number _ | text _ | foreign _ | host _ | builtin _ | closure .. => rfl
  | array items => rw [forget, shape, shape, shapeList_forgetList items]
  | tuple items => rw [forget, shape, shape, shapeList_forgetList items]
  | object fields => rw [forget, shape, shape, shapeFields_forgetFields fields]

theorem shapeList_forgetList (vs : List Value) : shapeList (forgetList vs) = shapeList vs := by
  match vs with
  | [] => rfl
  | v :: vs => rw [forgetList, shapeList, shapeList, shape_forget v, shapeList_forgetList vs]

theorem shapeFields_forgetFields (fields : Fields) :
    shapeFields (forgetFields fields) = shapeFields fields := by
  match fields with
  | [] => rfl
  | (k, v) :: rest =>
    rw [forgetFields, shapeFields, shapeFields, forget_forget k, shape_forget v,
      shapeFields_forgetFields rest]

end

/-! ## What a value has from its shape -/

@[simp] theorem kind?_shape (v : Value) : v.shape.kind? = v.kind? := by cases v <;> rfl

@[simp] theorem truthy_shape (v : Value) : v.shape.truthy = v.truthy := by cases v <;> rfl

@[simp] theorem items?_shape (v : Value) : v.shape.items? = v.items?.map shapeList := by
  cases v <;> rfl

@[simp] theorem length_shapeFields (fields : Fields) :
    (shapeFields fields).length = fields.length := by
  induction fields with
  | nil => rfl
  | cons field rest ih => rw [shapeFields, List.length_cons, ih, List.length_cons]

mutual

@[simp] theorem isModel_shape (v : Value) : v.shape.isModel = v.isModel := by
  match v with
  | null | boolean _ | number _ | text _ | foreign _ | host _ | builtin _ | closure .. => rfl
  | array items => rw [shape, isModel, isModel, isModelList_shapeList items]
  | tuple items => rw [shape, isModel, isModel, isModelList_shapeList items]
  | object fields => rw [shape, isModel, isModel, isModelFields_shapeFields fields]

theorem isModelList_shapeList (vs : List Value) : isModelList (shapeList vs) = isModelList vs := by
  match vs with
  | [] => rfl
  | v :: vs => rw [shapeList, isModelList, isModelList, isModel_shape v, isModelList_shapeList vs]

theorem isModelFields_shapeFields (fields : Fields) :
    isModelFields (shapeFields fields) = isModelFields fields := by
  match fields with
  | [] => rfl
  | (k, v) :: rest =>
    rw [shapeFields, isModelFields, isModelFields, isText_forget, isModel_shape v,
      isModelFields_shapeFields rest]

end

end Value

theorem Fields.get?_shapeFields (fields : Fields) (key : Value) :
    Fields.get? (Value.shapeFields fields) key.forget = (fields.get? key).map Value.shape := by
  induction fields with
  | nil => rfl
  | cons field rest ih =>
    rw [Value.shapeFields, Fields.get?, Fields.get?, Value.sameKey_forget, ih]
    split <;> rfl

namespace Value

mutual

theorem equal_shape (a b : Value) : a.shape.equal b.shape = a.equal b := by
  match a with
  | array items | tuple items =>
    rw [shape, equal, equal, items?_shape]
    cases b.items? with
    | none => rfl
    | some others => exact equalList_shapeList items others
  | object fields =>
    cases b with
    | object others =>
      simp only [shape, equal, length_shapeFields, equalFields_shapeFields fields others]
    | _ => simp only [shape, equal]
  | null | boolean _ | number _ | text _ | foreign _ | host _ | builtin _ | closure .. =>
    cases b <;> simp only [shape, equal]

theorem equalList_shapeList (vs ws : List Value) :
    equalList (shapeList vs) (shapeList ws) = equalList vs ws := by
  match vs, ws with
  | [], [] => rfl
  | [], _ :: _ => rfl
  | _ :: _, [] => rfl
  | v :: vs, w :: ws =>
    rw [shapeList, shapeList, equalList, equalList, equal_shape v w, equalList_shapeList vs ws]

theorem equalFields_shapeFields (fields others : Fields) :
    equalFields (shapeFields fields) (shapeFields others) = equalFields fields others := by
  match fields with
  | [] => rfl
  | (k, v) :: rest =>
    rw [shapeFields, equalFields, equalFields, Fields.get?_shapeFields,
      equalFields_shapeFields rest others]
    cases others.get? k with
    | none => rfl
    | some w => simp only [Option.map_some, equal_shape v w]

end

mutual

@[simp] theorem jsonAt_shape (layout : JsonLayout) (level : Nat) (v : Value) :
    v.shape.jsonAt layout level = v.jsonAt layout level := by
  match v with
  | null | boolean _ | number _ | text _ | foreign _ | host _ | builtin _ | closure .. => rfl
  | array items => rw [shape, jsonAt, jsonAt, jsonList_shapeList layout (level + 1) items]
  | tuple items => rw [shape, jsonAt, jsonAt, jsonList_shapeList layout (level + 1) items]
  | object fields => rw [shape, jsonAt, jsonAt, jsonFields_shapeFields layout (level + 1) fields]

theorem jsonList_shapeList (layout : JsonLayout) (level : Nat) (vs : List Value) :
    jsonList layout level (shapeList vs) = jsonList layout level vs := by
  match vs with
  | [] => rfl
  | v :: vs =>
    rw [shapeList, jsonList, jsonList, jsonAt_shape layout level v,
      jsonList_shapeList layout level vs]

theorem jsonFields_shapeFields (layout : JsonLayout) (level : Nat) (fields : Fields) :
    jsonFields layout level (shapeFields fields) = jsonFields layout level fields := by
  match fields with
  | [] => rfl
  | (k, v) :: rest =>
    rw [shapeFields, jsonFields, jsonFields, jsonKey_forget k, jsonAt_shape layout level v,
      jsonFields_shapeFields layout level rest]

end

mutual

@[simp] theorem literal_shape (v : Value) : v.shape.literal = v.literal := by
  match v with
  | null | boolean _ | number _ | text _ | foreign _ | host _ | builtin _ | closure .. => rfl
  | array items => rw [shape, literal, literal, literalList_shapeList items]
  | tuple items => rw [shape, literal, literal, literalList_shapeList items]
  | object fields =>
    rw [shape, literal, literal, json, json]
    exact jsonAt_shape none 0 (object fields)

theorem literalList_shapeList (vs : List Value) : literalList (shapeList vs) = literalList vs := by
  match vs with
  | [] => rfl
  | v :: vs => rw [shapeList, literalList, literalList, literal_shape v, literalList_shapeList vs]

end

section SameShape
variable {v w : Value} (h : v.shape = w.shape)
include h

/-- What does not tell a value from its shape is the same of values of one shape. -/
theorem congr_shape {α : Type} (f : Value → α) (hf : ∀ v, f v.shape = f v) : f v = f w := by
  rw [← hf v, h, hf w]

theorem equal_congr_shape {x y : Value} (h' : x.shape = y.shape) : v.equal x = w.equal y := by
  rw [← equal_shape v x, h, h', equal_shape w y]

end SameShape

/-! ## Forgetting -/

@[simp] theorem isModel_forget (v : Value) : v.forget.isModel = v.isModel :=
  congr_shape (shape_forget v) isModel isModel_shape

@[simp] theorem truthy_forget (v : Value) : v.forget.truthy = v.truthy :=
  congr_shape (shape_forget v) truthy truthy_shape

theorem equal_forget (a b : Value) : a.forget.equal b.forget = a.equal b :=
  equal_congr_shape (shape_forget a) (shape_forget b)

@[simp] theorem literal_forget (v : Value) : v.forget.literal = v.literal :=
  congr_shape (shape_forget v) literal literal_shape

@[simp] theorem toText_forget (v : Value) : v.forget.toText = v.toText := by
  cases v with
  | text t => rfl
  | _ => exact literal_forget _

end Value

/-! ## Operators -/

namespace Operation

theorem unary_forget (position : Nat) (operator : Text) (v : Value) :
    unary position operator v.forget = unary position operator v := by
  cases v <;> simp [unary, Value.truthy, Value.forget, Value.describe, Value.kind?, Value.typeName]

theorem comparison_forget (position : Nat) (operator : Text) (a b : Value) :
    comparison position operator a.forget b.forget = comparison position operator a b := by
  rw [comparison, comparison, Value.compare_forget]

theorem binary_forget (position : Nat) (operator : Text) (a b : Value) :
    binary position operator a.forget b.forget = binary position operator a b := by
  unfold binary
  rw [Value.equal_forget, comparison_forget]
  -- what is left asks for the constructors of the operands, and keeps numbers and texts only
  cases a <;> cases b <;> rfl

end Operation

end Vetting
