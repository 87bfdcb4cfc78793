import Vetting.Proofs.Result
import Vetting.Proofs.Value.Normal
import Vetting.Rule.Check
import Vetting.Rule.Reading

/-!
# Rules with normal values

The values of a rule are normalised when it is read from data. The rule accepts exactly the values that
it would accept with the values as the data hold them.
-/

namespace Vetting

namespace Rule

def asGiven (fields : Fields) : Rule → Rule
  | oneOf _ => .oneOf (((fields.field? "values").bind Value.items?).getD [])
  | includes _ => .includes (((fields.field? "values").bind Value.items?).getD [])
  | equals _ => .equals ((fields.field? "value").getD .null)
  | rule => rule

/-! ## Checking -/

section Check
variable {σ : Type} (functions : Scope) (v : Value)

theorem check_oneOf_arrayedList (values : List Value) :
    (oneOf (Value.arrayedList values)).check functions v =
      ((oneOf values).check functions v : Engine σ Bool) := by
  simp only [check, Value.arrayedList_eq_map, List.any_map, Function.comp_def, Value.equal_arrayed_right]

theorem check_includes_arrayedList (values : List Value) :
    (includes (Value.arrayedList values)).check functions v =
      ((includes values).check functions v : Engine σ Bool) := by
  simp only [check, includesAll, Value.arrayedList_eq_map, List.all_map, Function.comp_def,
    Value.equal_arrayed_right]

theorem check_equals_arrayed (value : Value) :
    (equals value.arrayed).check functions v = ((equals value).check functions v : Engine σ Bool) := by
  simp only [check, Value.equal_arrayed_right]

end Check

/-! ## Reading -/

namespace Reading

section Reading
variable {fields : Fields} {given : Option Validator} {rule : Rule} {extra : List RuleProblem}
  {v w : Value} {vs ws : List Value}

theorem eq_arrayed_of_modelValue (hkeys : v.DistinctKeys) (h : modelValue v = .ok w) : w = v.arrayed := by
  unfold modelValue at h
  split at h
  · rename_i hmodel
    rw [Value.normalize_eq_ok_arrayed hmodel hkeys] at h
    exact (Except.ok.inj h).symm
  · cases h

theorem eq_arrayedList_of_modelValues (hkeys : Value.DistinctKeysList vs) (h : modelValues vs = .ok ws) :
    ws = Value.arrayedList vs := by
  induction vs generalizing ws with
  | nil => exact (Except.ok.inj h).symm
  | cons v vs ih =>
    rw [Value.DistinctKeysList] at hkeys
    rw [modelValues] at h
    obtain ⟨w, hv, h⟩ := bind_eq_ok_iff.mp h
    obtain ⟨rest, hvs, h⟩ := bind_eq_ok_iff.mp h
    cases h
    rw [Value.arrayedList, eq_arrayed_of_modelValue hkeys.1 hv, ih hkeys.2 hvs]

/-- Whether the rule that a reading gives, if it gives one, has a property. -/
def Gives (p : Rule → Prop) (reading : Field Rule) : Prop := ∀ rule, reading = .ok rule → p rule

theorem gives_ite {p : Rule → Prop} {c : Prop} [Decidable c] {a b : Field Rule} (ha : Gives p a)
    (hb : Gives p b) : Gives p (if c then a else b) := by
  split
  · exact ha
  · exact hb

theorem gives_one {α : Type} {p : Rule → Prop} {field : Field α} {make : α → Rule}
    (h : ∀ a, field = .ok a → p (make a)) : Gives p (one field extra make) := by
  intro rule hrule
  cases field with
  | error problems => cases hrule
  | ok a =>
    cases extra with
    | nil =>
      cases hrule
      exact h a rfl
    | cons problem extra => cases hrule

theorem gives_two {α β : Type} {p : Rule → Prop} {first : Field α} {second : Field β}
    {make : α → β → Rule} (h : ∀ a b, p (make a b)) : Gives p (two first second extra make) := by
  intro rule hrule
  cases first with
  | error problems => cases hrule
  | ok a =>
    cases second with
    | error problems => cases hrule
    | ok b =>
      cases extra with
      | nil =>
        cases hrule
        exact h a b
      | cons problem extra => cases hrule

/-- What a list of values is read from. -/
theorem exists_field_of_values (hkeys : Value.DistinctKeysFields fields)
    (h : required values fields "values" = .ok ws) :
    ∃ vs, (fields.field? "values").bind Value.items? = some vs ∧ ws = Value.arrayedList vs := by
  unfold required at h
  split at h
  · rename_i v hv
    unfold values at h
    split at h
    · rename_i vs hvs
      have hlist := (Value.distinctKeys_of_get? hkeys hv).of_items hvs
      exact ⟨vs, by rw [hv]; exact hvs, eq_arrayedList_of_modelValues hlist h⟩
    · cases h
  · cases h

theorem eq_arrayed_of_optional (hkeys : Value.DistinctKeysFields fields)
    (h : (match fields.field? "value" with | some v => modelValue v | none => .ok .null) = .ok w) :
    w = ((fields.field? "value").getD .null).arrayed := by
  split at h
  · rename_i v hv
    rw [hv]
    exact eq_arrayed_of_modelValue (Value.distinctKeys_of_get? hkeys hv) h
  · rename_i hv
    rw [hv]
    exact (Except.ok.inj h).symm

/-- Whether a rule accepts what it would accept with its values as the data hold them. -/
def ChecksAsGiven (σ : Type) (fields : Fields) (rule : Rule) : Prop :=
  ∀ (functions : Scope) (v : Value),
    (rule.check functions v : Engine σ Bool) = (rule.asGiven fields).check functions v

theorem checksAsGiven_ofKind (σ : Type) (hkeys : Value.DistinctKeysFields fields) (kind : Text) :
    Gives (ChecksAsGiven σ fields) (ofKind kind fields given) := by
  have plain {α : Type} {field : Field α} {extra : List RuleProblem} {make : α → Rule}
      (h : ∀ a, (make a).asGiven fields = make a) :
      Gives (ChecksAsGiven σ fields) (one field extra make) :=
    gives_one fun a _ functions v => by rw [h a]
  unfold ofKind
  -- the kinds in the order in which they are tried
  refine gives_ite (plain fun _ => rfl) ?_
  refine gives_ite (gives_one fun ws h functions v => ?_) ?_
  · obtain ⟨vs, hvs, rfl⟩ := exists_field_of_values hkeys h
    rw [check_oneOf_arrayedList, asGiven, hvs, Option.getD_some]
  refine gives_ite (gives_one fun ws h functions v => ?_) ?_
  · obtain ⟨vs, hvs, rfl⟩ := exists_field_of_values hkeys h
    rw [check_includes_arrayedList, asGiven, hvs, Option.getD_some]
  refine gives_ite (gives_two fun _ _ _ _ => rfl) ?_
  iterate 8 refine gives_ite (plain fun _ => rfl) ?_
  refine gives_ite (gives_one fun w h functions v => ?_) ?_
  · rw [eq_arrayed_of_optional hkeys h, check_equals_arrayed, asGiven]
  refine gives_ite (gives_two fun _ _ _ _ => rfl) ?_
  exact fun rule h => nomatch h

theorem checksAsGiven_of_ofFields (σ : Type) (hkeys : Value.DistinctKeysFields fields)
    (h : Rule.ofFields fields given = .ok rule) : ChecksAsGiven σ fields rule := by
  have hreading : ofFields fields given = .ok rule := by
    rw [Rule.ofFields] at h
    cases hr : ofFields fields given with
    | error problems =>
      rw [hr] at h
      cases h
    | ok r =>
      rw [hr] at h
      rw [Except.ok.inj h]
  unfold ofFields at hreading
  split at hreading
  · cases hreading
  · exact checksAsGiven_ofKind σ hkeys _ rule hreading
  · cases hreading

end Reading
end Reading

/-! ## Normal forms in rules -/

/-- A model value has a normal form without tuples, which is a model value in normal form. It has the
kind, the truth and the literal of the value, or the fault of writing it, and the same values are equal to
it. So a rule that is read from data accepts exactly what it would accept with the values in its data. -/
theorem normalization_is_invisible (σ : Type) :
    (∀ v : Value, v.isModel = true → v.DistinctKeys →
      ∃ w, v.normalize = .ok w ∧ w.TupleFree ∧ w.isModel = true ∧ w.DistinctKeys ∧ w.normalize = .ok w ∧
        w.kind? = v.kind? ∧ w.truthy = v.truthy ∧ w.literal = v.literal ∧
        ∀ u : Value, w.equal u = v.equal u ∧ u.equal w = u.equal v) ∧
    ∀ (fields : Fields) (given : Option Validator) (rule : Rule), (Value.object fields).DistinctKeys →
      ofFields fields given = .ok rule → ∀ (functions : Scope) (u : Value),
        (rule.check functions u : Engine σ Bool) = (rule.asGiven fields).check functions u := by
  constructor
  · intro v hmodel hkeys
    have hnormal : v.arrayed.normalize = .ok v.arrayed := by
      have h := Value.normalize_eq_ok_arrayed (v := v.arrayed) (by rwa [Value.isModel_arrayed])
        (Value.distinctKeys_arrayed hkeys)
      rwa [Value.arrayed_arrayed] at h
    refine ⟨v.arrayed, Value.normalize_eq_ok_arrayed hmodel hkeys, Value.tupleFree_arrayed hmodel,
      by rwa [Value.isModel_arrayed], Value.distinctKeys_arrayed hkeys, hnormal, Value.kind?_arrayed v,
      Value.truthy_arrayed v, Value.literal_arrayed v, fun u => ?_⟩
    exact ⟨Value.equal_arrayed_left v u, Value.equal_arrayed_right u v⟩
  · intro fields given rule hkeys h
    rw [Value.DistinctKeys] at hkeys
    exact Reading.checksAsGiven_of_ofFields σ hkeys.2 h

def nestedTuple : Value :=
  .tuple [.integer 1, .object [(.text "a", .tuple [.text "x", .null]), (.text "b", .boolean true)]]

def nestedTupleData : Fields := [(.text "type", .text "eq"), (.text "value", nestedTuple)]

theorem distinctKeys_nestedTuple : nestedTuple.DistinctKeys :=
  ⟨trivial, ⟨by decide, ⟨trivial, trivial, trivial⟩, trivial, trivial⟩, trivial⟩

/-- The tuple is normalised, and the rule accepts the values that are equal to it as it stands. -/
theorem nestedTuple_is_normalized :
    nestedTuple.isModel = true ∧ nestedTuple.DistinctKeys ∧ (∃ w, nestedTuple.normalize = .ok w ∧ w.TupleFree) ∧
      ∃ rule, ofFields nestedTupleData none = .ok rule ∧
        ∀ u : Value, (rule.check [] u : Engine Unit Bool) = (equals nestedTuple).check [] u := by
  obtain ⟨hvalues, hrules⟩ := normalization_is_invisible Unit
  obtain ⟨w, hw, hfree, -⟩ := hvalues nestedTuple (by decide) distinctKeys_nestedTuple
  have hkeys : (Value.object nestedTupleData).DistinctKeys :=
    ⟨by decide, trivial, distinctKeys_nestedTuple, trivial⟩
  have hread : ofFields nestedTupleData none = .ok (.equals nestedTuple.arrayed) := rfl
  refine ⟨by decide, distinctKeys_nestedTuple, ⟨w, hw, hfree⟩, _, hread, fun u => ?_⟩
  exact hrules nestedTupleData none _ hkeys hread [] u

end Rule
end Vetting
