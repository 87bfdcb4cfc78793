import Vetting.Coercion
import Vetting.Proofs.Value.Writing

/-!
# When a value cannot be coerced

Coercion fails for one of two reasons: a value has no canonical text, or the text is the numeral of an
integer with more digits than are read.
-/

namespace Vetting.Coercion

def Numeral.TooLong (n : Numeral) : Prop := n.fraction = none ∧ Fault.digitLimit < n.whole.length

theorem Numeral.number_eq_error_iff {n : Numeral} {f : Fault} :
    n.number = .error f ↔ n.TooLong ∧ f = .tooManyDigitsToRead n.whole.length := by
  unfold number TooLong
  cases n.fraction with
  | some fraction => simp
  | none =>
    by_cases h : Fault.digitLimit < n.whole.length
    · simp [h, eq_comm]
    · simp [h]

/-- Why the value of a criterion cannot be coerced by its rules. -/
inductive Escapes (v : Value) (rules : List Rule) : Fault → Prop
  | unwritable {type : TypeRule} {f : Fault} (ht : targetType rules = some type)
      (h : v.toText = .error f) : Escapes v rules f
  | strict {text : Text} {n : Numeral} (ht : targetType rules = some .number)
      (hv : v.toText = .ok text) (hn : strictNumeral? text = some n) (h : n.TooLong) :
      Escapes v rules (.tooManyDigitsToRead n.whole.length)
  /-- Leading zeros alone can make a numeral too long, and then it is not infinite. -/
  | flexible {text : Text} {n : Numeral} (ht : targetType rules = none) (hv : v = .text text)
      (hn : looseNumeral? (text.points.filter isNumeralPoint) = some n) (h : n.TooLong)
      (hfinite : (Binary64.ofDecimal n.negative (numberOfDigits n.whole) 0).isInfinite = false) :
      Escapes v rules (.tooManyDigitsToRead n.whole.length)

theorem strict_eq_error_iff {v : Value} (hv : v ≠ .null) {target : Target} {f : Fault} :
    strict v target = .error f ↔ v.toText = .error f ∨
      target = .number ∧ ∃ text n, v.toText = .ok text ∧ strictNumeral? text = some n ∧ n.TooLong ∧
        f = .tooManyDigitsToRead n.whole.length := by
  unfold strict
  split
  · exact absurd rfl hv
  cases ht : v.toText with
  | error g => simp [bind, Except.bind]
  | ok text =>
    simp only [bind, Except.bind, reduceCtorEq, Except.ok.injEq, false_or]
    cases target with
    | number =>
      cases hn : strictNumeral? text with
      | none => simp [hn, pure, Except.pure]
      | some n =>
        simp only [hn, exists_and_left, exists_eq_left', Option.some.injEq, true_and,
          ← Numeral.number_eq_error_iff]
        cases n.number <;> simp [pure, Except.pure]
    | boolean => cases booleanNamed? text <;> simp [pure, Except.pure]
    | other => simp [pure, Except.pure]

theorem looseNumber_eq_error_iff {n : Numeral} {f : Fault} :
    looseNumber n = .error f ↔ n.TooLong ∧ f = .tooManyDigitsToRead n.whole.length ∧
      (Binary64.ofDecimal n.negative (numberOfDigits n.whole) 0).isInfinite = false := by
  unfold looseNumber
  cases hf : n.fraction with
  | some fraction => simp [Numeral.number_eq_error_iff, Numeral.TooLong, hf]
  | none =>
    by_cases h : (Binary64.ofDecimal n.negative (numberOfDigits n.whole) 0).isInfinite = true
    · simp [h]
    · simp [h, Numeral.number_eq_error_iff]

theorem flexible_eq_error_iff {v : Value} {f : Fault} :
    flexible v = .error f ↔ ∃ text n, v = .text text ∧
      looseNumeral? (text.points.filter isNumeralPoint) = some n ∧ looseNumber n = .error f := by
  cases v with
  | text text =>
    unfold flexible
    cases hn : looseNumeral? (text.points.filter isNumeralPoint) with
    | none => cases hb : booleanNamed? text <;> simp [hn, hb]
    | some n =>
      simp only [Value.text.injEq, exists_and_left, exists_eq_left', hn, Option.some.injEq]
      cases looseNumber n <;> simp [bind, Except.bind, pure, Except.pure]
  | _ => simp [flexible]

theorem strictNumeral?_null : strictNumeral? "null" = none := by decide +kernel

theorem coerce_of_untargeted {v : Value} {rules : List Rule} (hv : v ≠ .null)
    (ht : targetType rules = none) : coerce v rules = flexible v := by
  unfold coerce
  split
  · exact absurd rfl hv
  · rw [ht]

theorem coerce_of_targeted {v : Value} {rules : List Rule} {type : TypeRule} (hv : v ≠ .null)
    (ht : targetType rules = some type) : coerce v rules = strict v (Target.ofType type) := by
  unfold coerce
  split
  · exact absurd rfl hv
  · rw [ht]

/-- A coercion fails exactly for these reasons. -/
theorem coerce_eq_error_iff {v : Value} {rules : List Rule} {f : Fault} :
    coerce v rules = .error f ↔ Escapes v rules f := by
  by_cases hv : v = .null
  · subst hv
    constructor
    · intro h
      cases h
    intro h
    cases h with
    | unwritable ht h => cases h
    | strict ht hw hn h =>
      cases hw
      rw [strictNumeral?_null] at hn
      cases hn
    | flexible ht hw => cases hw
  constructor
  · intro h
    cases ht : targetType rules with
    | none =>
      rw [coerce_of_untargeted hv ht] at h
      obtain ⟨text, n, rfl, hn, h⟩ := flexible_eq_error_iff.mp h
      obtain ⟨hl, rfl, hfinite⟩ := looseNumber_eq_error_iff.mp h
      exact .flexible ht rfl hn hl hfinite
    | some type =>
      rw [coerce_of_targeted hv ht] at h
      rcases (strict_eq_error_iff hv).mp h with h | ⟨htarget, text, n, htext, hn, hl, rfl⟩
      · exact .unwritable ht h
      · cases type <;> cases htarget
        exact .strict ht htext hn hl
  · intro h
    cases h with
    | unwritable ht h =>
      rw [coerce_of_targeted hv ht]
      exact (strict_eq_error_iff hv).mpr (.inl h)
    | strict ht htext hn h =>
      rw [coerce_of_targeted hv ht]
      exact (strict_eq_error_iff hv).mpr (.inr ⟨rfl, _, _, htext, hn, h, rfl⟩)
    | flexible ht htext hn h hfinite =>
      rw [coerce_of_untargeted hv ht]
      exact flexible_eq_error_iff.mpr ⟨_, _, htext, hn, looseNumber_eq_error_iff.mpr ⟨h, rfl, hfinite⟩⟩

end Vetting.Coercion
