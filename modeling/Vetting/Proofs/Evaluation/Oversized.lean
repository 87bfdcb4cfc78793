import Vetting.Expression.Operation
import Vetting.Proofs.Binary64.Rounding
import Vetting.Proofs.Result

/-!
# Oversized integers

An integer that rounds beyond the largest binary64 number cannot be tested for NaN. The test is
part of truth and of comparison, so both fail there with a fault that is no error of the
expression. No other operation of an operator fails that way.
-/

namespace Vetting

namespace Number

/-- Whether a number is an integer too large to be rounded. -/
def Oversized : Number → Prop
  | .integer i => Binary64.leastOverflowing ≤ i.natAbs
  | .float _ => False

theorem toFloat_eq_error_iff {n : Number} {f : Fault} :
    n.toFloat = .error f ↔ f = .integerTooLargeForFloat ∧ n.Oversized := by
  cases n with
  | integer i =>
    simp only [toFloat, Oversized, ← Binary64.isInfinite_ofInt_iff]
    by_cases h : (Binary64.ofInt i).isInfinite = true
    · simp only [h, ↓reduceIte, Except.error.injEq, and_true]
      exact eq_comm
    · simp [h]
  | float x => simp [toFloat, Oversized]

theorem testNaN_eq_error_iff {n : Number} {f : Fault} :
    n.testNaN = .error f ↔ f = .integerTooLargeForFloat ∧ n.Oversized := by
  rw [← toFloat_eq_error_iff, testNaN]
  cases n.toFloat <;> simp [bind, Except.bind, pure, Except.pure]

theorem isZero_integer_iff {i : Int} : (integer i).isZero = true ↔ i = 0 := by
  have hu := Binary64.unitsPerOne_pos
  generalize hg : Binary64.unitsPerOne = u at hu
  simp only [isZero, equal, compare?, place?, hg, bind, Option.bind, pure, Binary64.Place.compare,
    Int.zero_mul, beq_iff_eq, Option.some.injEq, Int.compare_eq_eq]
  constructor
  · intro h
    rcases Int.mul_eq_zero.mp h with h | h
    · exact h
    · omega
  · rintro rfl
    exact Int.zero_mul _

theorem isZero_float_iff {negative : Bool} {m p : Nat} {h : Binary64.Canonical m p} :
    (float (.finite negative m p h)).isZero = true ↔ m = 0 := by
  simp only [isZero, equal, compare?, place?, bind, Option.bind, pure, Binary64.place?,
    Binary64.Place.compare, Int.zero_mul, beq_iff_eq, Option.some.injEq, Int.compare_eq_eq]
  have hp : 0 < Nat.pow 2 p := Nat.pow_pos (by decide)
  cases negative <;> simp [Binary64.signed, Binary64.magnitudeUnits]

theorem isZero_nan : (float .nan).isZero = false := rfl

theorem isZero_infinite {negative : Bool} : (float (.infinite negative)).isZero = false := by
  simp only [isZero, equal, compare?, place?, Binary64.place?, bind, Option.bind, pure, Int.zero_mul]
  cases negative <;> rfl

/-- Only zero is rounded to zero. -/
theorem isZero_of_toFloat {n : Number} {x : Binary64} (hn : n.toFloat = .ok x)
    (hx : (float x).isZero = true) : n.isZero = true := by
  cases n with
  | float y =>
    cases hn
    exact hx
  | integer i =>
    rw [isZero_integer_iff]
    refine Classical.byContradiction fun hi => ?_
    obtain rfl : Binary64.ofInt i = x := by
      simp only [toFloat] at hn
      split at hn
      · cases hn
      · exact Except.ok.inj hn
    cases hq : Binary64.ofInt i with
    | nan =>
      rw [hq, isZero_nan] at hx
      cases hx
    | infinite negative => simp [hq, isZero_infinite] at hx
    | finite negative m p h =>
      rw [hq, isZero_float_iff] at hx
      rw [Binary64.ofInt] at hq
      have ha : 0 < i.natAbs * Binary64.unitsPerOne :=
        Nat.mul_pos (Int.natAbs_pos.mpr hi) Binary64.unitsPerOne_pos
      have hm := Binary64.significand_pos_of_ofQuotient_eq ha hq
      omega

theorem Oversized.isZero_eq_false {n : Number} (h : n.Oversized) : n.isZero = false := by
  cases n with
  | integer i =>
    refine Bool.eq_false_iff.mpr fun hz => ?_
    rw [isZero_integer_iff] at hz
    subst hz
    exact absurd h (Nat.not_le.mpr Binary64.leastOverflowing_pos)
  | float x => exact h.elim

/-! ## The faults of other operations -/

theorem writeInteger_error_kind {i : Int} {f : Fault} (h : writeInteger i = .error f) :
    f.kind = .value := by
  unfold writeInteger at h
  split at h
  · cases h
    rfl
  · cases h

theorem format_error_kind {n : Number} {f : Fault} (h : n.format = .error f) : f.kind = .value := by
  unfold format at h
  split at h
  · exact writeInteger_error_kind h
  · split at h
    · split at h
      · exact writeInteger_error_kind h
      · cases h
    · cases h

theorem toFloat_error_kind {n : Number} {f : Fault} (h : n.toFloat = .error f) :
    f.kind = .overflow := by
  obtain ⟨rfl, _⟩ := toFloat_eq_error_iff.mp h
  rfl

/-- Two operands fail to round only where one of them is oversized, or in what is done after that. -/
theorem toFloats_error_kind {a b : Number} {next : Binary64 → Binary64 → Except Fault Number} {f : Fault}
    (hnext : ∀ x y, b.toFloat = .ok y → next x y ≠ .error f)
    (h : (do next (← a.toFloat) (← b.toFloat)) = .error f) : f.kind = .overflow := by
  rcases bind_eq_error_iff.mp h with ha | ⟨x, _, h⟩
  · exact toFloat_error_kind ha
  · rcases bind_eq_error_iff.mp h with hb | ⟨y, hy, h⟩
    · exact toFloat_error_kind hb
    · exact absurd h (hnext x y hy)

theorem lift_error_kind {exact : Int → Int → Int} {rounded : Binary64 → Binary64 → Binary64}
    {a b : Number} {f : Fault} (h : lift exact rounded a b = .error f) : f.kind = .overflow := by
  unfold lift at h
  split at h
  · cases h
  · refine toFloats_error_kind ?_ h
    nofun

theorem div_error_kind {a b : Number} {f : Fault} (hz : b.isZero = false)
    (h : div a b = .error f) : f.kind = .overflow := by
  unfold div at h
  split at h
  · rename_i i j
    have hj : j ≠ 0 := fun hj => by simp [isZero_integer_iff.mpr hj] at hz
    simp only [hj, ↓reduceIte] at h
    split at h
    · cases h
      rfl
    · cases h
  · refine toFloats_error_kind (fun x y hb hnext => ?_) h
    have hy : (float y).isZero = false := by
      refine Bool.eq_false_iff.mpr fun hy => ?_
      simp [isZero_of_toFloat hb hy] at hz
    rw [hy] at hnext
    cases hnext

end Number

namespace Value

def Oversized (v : Value) : Prop := ∃ n, v = .number n ∧ n.Oversized

theorem truthy_eq_error_iff {v : Value} {f : Fault} :
    v.truthy = .error f ↔ f = .integerTooLargeForFloat ∧ v.Oversized := by
  cases v with
  | number n =>
    by_cases hz : n.isZero = true
    · have hn : ¬ n.Oversized := fun h => by simp [h.isZero_eq_false] at hz
      simp [truthy, hz, Oversized, hn]
    · simp only [truthy, hz, Oversized, number.injEq, exists_eq_left', ← Number.testNaN_eq_error_iff]
      cases n.testNaN <;> simp [bind, Except.bind, pure, Except.pure]
  | _ => simp [truthy, Oversized]

/-- Whether the comparison of two values comes to test an oversized integer: the left number is
tested first, and nothing is tested after a NaN. -/
def ComparesOversized (a b : Value) : Prop :=
  ∃ m n, a = .number m ∧ b = .number n ∧ (m.Oversized ∨ m.testNaN = .ok false ∧ n.Oversized)

theorem compare_eq_error_iff {a b : Value} {f : Fault} (hf : f.kind ≠ .type) :
    a.compare b = .error f ↔ f = .integerTooLargeForFloat ∧ ComparesOversized a b := by
  have hincomparable : ∀ x y, Fault.incomparable x y ≠ f := by
    rintro x y rfl
    exact hf rfl
  have hnan : Fault.incomparableNotANumber ≠ f := by
    rintro rfl
    exact hf rfl
  by_cases hnumbers : ∃ m n, a = .number m ∧ b = .number n
  · obtain ⟨m, n, rfl, rfl⟩ := hnumbers
    simp only [compare, ComparesOversized, number.injEq, exists_and_left, exists_eq_left',
      bind, Except.bind]
    cases hm : m.testNaN with
    | error e =>
      obtain ⟨rfl, ho⟩ := Number.testNaN_eq_error_iff.mp hm
      simp [ho, eq_comm]
    | ok isNaN =>
      have hmo : ¬ m.Oversized := fun ho => by
        simp [Number.testNaN_eq_error_iff.mpr ⟨rfl, ho⟩] at hm
      cases isNaN with
      | true => simp [hmo, hnan, throw, throwThe, MonadExceptOf.throw]
      | false =>
        cases hn : n.testNaN with
        | error e =>
          obtain ⟨rfl, ho⟩ := Number.testNaN_eq_error_iff.mp hn
          simp [ho, eq_comm]
        | ok isNaN =>
          have hno : ¬ n.Oversized := fun ho => by
            simp [Number.testNaN_eq_error_iff.mpr ⟨rfl, ho⟩] at hn
          cases isNaN <;> simp [hmo, hno, hnan, throw, throwThe, MonadExceptOf.throw, pure, Except.pure]
  · have hc : ¬ ComparesOversized a b := by
      rintro ⟨m, n, ha, hb, _⟩
      exact hnumbers ⟨m, n, ha, hb⟩
    cases a <;> cases b <;> simp_all [compare]

end Value

namespace Operation

theorem unary_eq_fault_iff {position : Nat} {operator : Text} {v : Value} {f : Fault} :
    unary position operator v = .error (.fault f) ↔
      operator = "!" ∧ f = .integerTooLargeForFloat ∧ v.Oversized := by
  unfold unary
  split
  · rename_i h
    rw [← Value.truthy_eq_error_iff]
    cases v.truthy <;> simp [h, ofFault, bind, Except.bind, pure, Except.pure]
  · rename_i h
    simp only [h, false_and, iff_false]
    split <;> simp [failAt, Failure.evaluation]

theorem comparison_eq_fault_iff {position : Nat} {operator : Text} {a b : Value} {f : Fault} :
    comparison position operator a b = .error (.fault f) ↔
      f = .integerTooLargeForFloat ∧ a.ComparesOversized b := by
  unfold comparison
  constructor
  · intro h
    split at h
    · cases h
    · rename_i g hg
      split at h
      · cases h
      · rename_i hk
        obtain rfl : g = f := by simpa using h
        exact (Value.compare_eq_error_iff hk).mp hg
  · rintro ⟨rfl, h⟩
    have hk : Fault.integerTooLargeForFloat.kind ≠ .type := by decide
    rw [(Value.compare_eq_error_iff hk).mpr ⟨rfl, h⟩]
    rfl

/-! ## Operators that let no fault through -/

/-- The operators that the grammar has. -/
def Known (operator : Text) : Prop :=
  operator ∈ (["==", "!=", "+", "-", "*", "/"] : List Text) ∨ isRelational operator = true

theorem toText_error_kind {v : Value} (hv : v.isText || v.isNumber) {f : Fault}
    (h : v.toText = .error f) : f.kind = .value := by
  cases v with
  | number n => exact Number.format_error_kind h
  | text t => cases h
  | _ => simp [Value.isText, Value.isNumber] at hv

theorem concatenation_ne_fault {position : Nat} {a b : Value} {f : Fault} :
    concatenation position a b ≠ .error (.fault f) := by
  unfold concatenation
  split
  · rename_i hj
    simp only [isJoinable, Bool.and_eq_true] at hj
    obtain ⟨⟨ha, hb⟩, _⟩ := hj
    split
    · simp
    · rename_i h
      simp [toText_error_kind ha h, failAt, Failure.evaluation]
    · rename_i h _
      simp [toText_error_kind hb h, failAt, Failure.evaluation]
  · simp [failAt, Failure.evaluation]

theorem compute_error_kind {operator : Text} {a b : Number} {f : Fault}
    (hk : operator ∈ (["+", "-", "*", "/"] : List Text)) (hz : ¬ (operator = "/" ∧ b.isZero = true))
    (h : compute operator a b = .error f) : f.kind = .overflow := by
  simp only [List.mem_cons, List.not_mem_nil, or_false] at hk
  rcases hk with rfl | rfl | rfl | rfl
  · exact Number.lift_error_kind h
  · exact Number.lift_error_kind h
  · exact Number.lift_error_kind h
  · exact Number.div_error_kind (by simpa using hz) h

theorem arithmetic_ne_fault {position : Nat} {operator : Text} {a b : Number} {f : Fault}
    (hk : operator ∈ (["+", "-", "*", "/"] : List Text)) :
    arithmetic position operator a b ≠ .error (.fault f) := by
  unfold arithmetic
  split
  · simp [failAt, Failure.evaluation]
  · rename_i hz
    split
    · rename_i h
      simp [compute_error_kind hk hz h, failAt, Failure.evaluation]
    · split <;> simp [failAt, Failure.evaluation]

theorem binary_eq_fault_iff {position : Nat} {operator : Text} {a b : Value} {f : Fault}
    (hk : Known operator) :
    binary position operator a b = .error (.fault f) ↔
      isRelational operator = true ∧ f = .integerTooLargeForFloat ∧ a.ComparesOversized b := by
  by_cases hr : isRelational operator = true
  · have he : operator ≠ "==" ∧ operator ≠ "!=" := by
      constructor <;> (rintro rfl; revert hr; decide)
    simp only [binary, he.1, he.2, hr, ↓reduceIte, true_and]
    exact comparison_eq_fault_iff
  · simp only [hr, Bool.false_eq_true, false_and, iff_false]
    by_cases h1 : operator = "=="
    · simp [binary, h1]
    · by_cases h2 : operator = "!="
      · unfold binary
        rw [if_neg h1, if_pos h2]
        simp
      · have hk : operator ∈ (["+", "-", "*", "/"] : List Text) := by
          rcases hk with hk | hk
          · simpa [h1, h2] using hk
          · exact absurd hk hr
        simp only [binary, h1, h2, hr, ↓reduceIte, Bool.false_eq_true]
        split
        · exact arithmetic_ne_fault hk
        · split
          · exact concatenation_ne_fault
          · simp [failAt, Failure.evaluation]

end Operation
end Vetting
