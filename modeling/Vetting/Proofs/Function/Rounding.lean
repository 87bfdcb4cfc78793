import Mathlib.Data.Rat.Floor
import Mathlib.Tactic.NormNum
import Vetting.Function.Numeric
import Vetting.Proofs.Binary64.Half
import Vetting.Proofs.Evaluation.Oversized

/-!
# Floors, ceilings and nearest integers

The floor and the ceiling of a number are exact. The nearest integer is the floor of a sum that is
rounded, so it is exact for the numbers at which this rounding does no harm, and these are known.
-/

namespace Vetting

def Binary64.value? (x : Binary64) : Option ℚ := x.units?.map fun u : Int => (u : ℚ) / (unitsPerOne : ℚ)

namespace Number

/-- The exact value of a number; NaN and the infinities have none. -/
def value? : Number → Option ℚ
  | .integer i => some i
  | .float x => x.value?

/-- The values whose nearest integer is missed: the last number below one half, the odd integers
between `2^52` and `2^53`, and the integers that are no binary64 number. -/
inductive Misrounded (q : ℚ) : Prop
  | belowHalf (h : q = 1 / 2 - 1 / 2 ^ 54)
  | odd {i : Int} (h : q = i) (hodd : i % 2 = 1) (hl : 2 ^ 52 < i.natAbs) (hu : i.natAbs < 2 ^ 53)
  | unrepresentable (h : ∀ x : Binary64, x.value? ≠ some q)

end Number

namespace Binary64

variable {m n p e : Nat} {negative s : Bool} {u : Int} {q : ℚ}

/-! ## Units and values -/

theorem natAbs_signed (negative : Bool) (n : Nat) : (signed negative n).natAbs = n := by
  cases negative <;> simp [signed]

theorem eq_of_signed_eq (hn : 0 < n) (h : signed negative n = signed s n) : negative = s := by
  cases negative <;> cases s <;> simp [signed] at h ⊢ <;> omega

theorem value?_finite (h : Canonical m p) :
    (finite negative m p h).value? =
      some ((signed negative (magnitudeUnits m p) : Int) / (unitsPerOne : ℚ)) := rfl

theorem magnitudeUnits_eq (m p : Nat) : magnitudeUnits m p = m * 2 ^ p := rfl

theorem two_pow_eq_mul {n a b : Nat} (h : n = a + b) : 2 ^ n = 2 ^ a * 2 ^ b := by rw [h, Nat.pow_add]

def halfUnits : Nat := 2 ^ 1073

theorem halfUnits_pos : 0 < halfUnits := by
  unfold halfUnits
  generalize 1073 = c
  exact Nat.two_pow_pos c

theorem unitsPerOne_eq_halfUnits : unitsPerOne = 2 * halfUnits := by
  rw [unitsPerOne_eq, halfUnits, two_pow_eq_mul (show 1074 = 1 + 1073 from rfl), Nat.pow_one]

theorem div_unitsPerOne_inj {u v : Int} : (u / (unitsPerOne : ℚ) : ℚ) = v / (unitsPerOne : ℚ) ↔ u = v := by
  rw [div_left_inj' cast_unitsPerOne_pos.ne', Int.cast_inj]

theorem mul_unitsPerOne_div (i : Int) : ((i * (unitsPerOne : Int) : Int) : ℚ) / (unitsPerOne : ℚ) = i := by
  rw [Int.cast_mul, Int.cast_natCast, mul_div_cancel_right₀ _ cast_unitsPerOne_pos.ne']

/-- The floor of a value and one half, in units. -/
theorem floor_add_half (u : Int) :
    ⌊(u / (unitsPerOne : ℚ) : ℚ) + 1 / 2⌋ = (u + halfUnits) / (unitsPerOne : Int) := by
  have hhalf (c : ℚ) (hc : c ≠ 0) : (u : ℚ) / (2 * c) + 1 / 2 = (u + c) / (2 * c) := by field_simp
  have hsum : (u / (unitsPerOne : ℚ) : ℚ) + 1 / 2 = ((u + halfUnits : Int) : ℚ) / (unitsPerOne : ℚ) := by
    rw [unitsPerOne_eq_halfUnits, Int.cast_add, Int.cast_natCast, Nat.cast_mul, Nat.cast_two]
    exact hhalf _ (Nat.cast_ne_zero.mpr halfUnits_pos.ne')
  rw [hsum, Rat.floor_intCast_div_natCast]

/-! ## The values that are missed -/

theorem canonical_last : Canonical (2 ^ 53 - 1) 1020 := by decide

theorem value?_last : (finite false (2 ^ 53 - 1) 1020 canonical_last).value? = some (1 / 2 - 1 / 2 ^ 54) := by
  have hunits : unitsPerOne = 2 ^ 54 * 2 ^ 1020 := by
    rw [unitsPerOne_eq, two_pow_eq_mul (show 1074 = 54 + 1020 from rfl)]
  have hpos : ((2 ^ 1020 : Nat) : ℚ) ≠ 0 := by
    generalize 1020 = n
    exact Nat.cast_ne_zero.mpr (Nat.two_pow_pos n).ne'
  rw [value?_finite, magnitudeUnits_eq, signed_mul, hunits, Int.cast_mul, Int.cast_natCast, Nat.cast_mul,
    mul_div_mul_right _ _ hpos, signed, if_neg Bool.false_ne_true]
  norm_num

theorem natAbs_of_signed_eq {i : Int} (h : signed negative (magnitudeUnits m p) = i * (unitsPerOne : Int)) :
    magnitudeUnits m p = i.natAbs * unitsPerOne := by
  rw [← natAbs_signed negative (magnitudeUnits m p), h, Int.natAbs_mul, Int.natAbs_natCast]

theorem misrounded_finite_iff (h : Canonical m p) (hq : (finite negative m p h).value? = some q) :
    Number.Misrounded q ↔ (negative = false ∧ m = 2 ^ 53 - 1 ∧ p = 1020) ∨ (p = 1074 ∧ m % 2 = 1) := by
  have hvalue := Option.some.inj ((value?_finite h).symm.trans hq)
  constructor
  · rintro (hlast | ⟨hi, hodd, hl, hu⟩ | hnone)
    · left
      rw [hlast, ← Option.some_inj, ← value?_last, value?_finite, Option.some_inj, div_unitsPerOne_inj]
        at hvalue
      have hunits := congrArg Int.natAbs hvalue
      rw [natAbs_signed, natAbs_signed] at hunits
      obtain ⟨rfl, hp⟩ := canonical_inj h canonical_last hunits
      rw [← hp] at hvalue
      refine ⟨eq_of_signed_eq ?_ hvalue, rfl, hp⟩
      rw [magnitudeUnits_eq]
      exact Nat.mul_pos (by decide) (Nat.two_pow_pos p)
    · rename_i i
      right
      rw [hi, ← mul_unitsPerOne_div i, div_unitsPerOne_inj] at hvalue
      have hc : Canonical i.natAbs 1074 := ⟨hu, .inl (Nat.le_of_lt hl), by decide⟩
      have hunits := natAbs_of_signed_eq hvalue
      rw [unitsPerOne_eq, ← magnitudeUnits_eq] at hunits
      obtain ⟨rfl, rfl⟩ := canonical_inj h hc hunits
      exact ⟨rfl, by omega⟩
    · exact absurd hq (hnone _)
  · rintro (⟨rfl, rfl, rfl⟩ | ⟨rfl, hodd⟩)
    · exact .belowHalf (Option.some.inj (hq.symm.trans value?_last))
    · have hl : 2 ^ 52 ≤ m := h.normal.resolve_right (by decide)
      have hu : m < 2 ^ 53 := h.significand_lt
      refine .odd (i := signed negative m) ?_ ?_ ?_ ?_
      · rw [← hvalue, ← mul_unitsPerOne_div (signed negative m), ← signed_mul, unitsPerOne_eq,
          magnitudeUnits_eq]
      · cases negative <;> simp only [signed] <;> omega
      · rw [natAbs_signed]
        omega
      · rwa [natAbs_signed]

/-! ## The sum with one half -/

theorem canonical_half : Canonical (2 ^ 52) 1021 := by decide

theorem half_eq : Number.half = finite false (2 ^ 52) 1021 canonical_half := by decide +kernel

theorem magnitudeUnits_half : magnitudeUnits (2 ^ 52) 1021 = halfUnits := by
  rw [magnitudeUnits_eq, halfUnits, two_pow_eq_mul (show 1073 = 52 + 1021 from rfl)]

theorem value?_half : Number.half.value? = some (1 / 2) := by
  have hpos : (halfUnits : ℚ) ≠ 0 := Nat.cast_ne_zero.mpr halfUnits_pos.ne'
  rw [half_eq, value?_finite, magnitudeUnits_half, signed, if_neg Bool.false_ne_true,
    unitsPerOne_eq_halfUnits, Int.cast_natCast, Nat.cast_mul, Nat.cast_two]
  field_simp

theorem magnitudeUnits_add_half_lt (h : Canonical m p) : magnitudeUnits m p + halfUnits < overflow := by
  have hhalf : halfUnits < 2 ^ 2044 := by
    rw [halfUnits]
    exact pow_lt_pow_right₀ (by decide) (by decide)
  have hmagnitude : magnitudeUnits m p ≤ (2 ^ 53 - 1) * 2 ^ 2045 := by
    rw [magnitudeUnits_eq]
    exact Nat.mul_le_mul (Nat.le_pred_of_lt h.significand_lt) (pow_le_pow_right₀ (by decide) h.exponent_le)
  rw [two_pow_eq_mul (show 2045 = 1 + 2044 from rfl)] at hmagnitude
  rw [overflow]
  generalize 2 ^ 2044 = place at *
  omega

theorem units?_add_half (h : Canonical m p) :
    ((finite negative m p h).add Number.half).units? =
      some (nearestUnits (signed negative (magnitudeUnits m p) + halfUnits)) := by
  rw [half_eq, add, units?_ofUnits, magnitudeUnits_half]
  · rfl
  · have hlt := magnitudeUnits_add_half_lt h
    have habs := natAbs_signed negative (magnitudeUnits m p)
    rw [magnitudeUnits_half]
    simp only [signed] at *
    omega

/-- One half is `2^c` units for an exponent `c`. -/
theorem exists_half_exponent : ∃ c, c = 1073 ∧ halfUnits = 2 ^ c ∧ unitsPerOne = 2 ^ (c + 1) := by
  obtain ⟨c, hc⟩ : ∃ c, c = 1073 := ⟨_, rfl⟩
  refine ⟨c, hc, by rw [halfUnits, hc], ?_⟩
  rw [unitsPerOne_eq_halfUnits, halfUnits, ← hc, Nat.pow_succ']

theorem round_float (h : Canonical m p) :
    Number.round (.float (finite negative m p h)) =
      .ok (nearestUnits (signed negative (magnitudeUnits m p) + halfUnits) / (unitsPerOne : Int)) := by
  show Number.integral floor? ((finite negative m p h).add Number.half) = _
  rw [Number.integral, floor?, units?_add_half h, Option.map_some]

/-- The nearest integer of a binary64 number is missed by one, or it is exact. -/
theorem exists_round_float (h : Canonical m p) (hq : (finite negative m p h).value? = some q) :
    ∃ r, Number.round (.float (finite negative m p h)) = .ok r ∧
      (¬ Number.Misrounded q → r = ⌊q + 1 / 2⌋) ∧ (Number.Misrounded q → r = ⌊q + 1 / 2⌋ + 1) := by
  refine ⟨_, round_float h, ?_⟩
  obtain rfl := Option.some.inj ((value?_finite h).symm.trans hq)
  rw [misrounded_finite_iff h hq, floor_add_half, magnitudeUnits_eq]
  obtain ⟨c, hc, hhalf, hone⟩ := exists_half_exponent
  rw [hhalf, hone]
  have hu : m < 2 ^ 53 := h.significand_lt
  have hl (hp : c + 1 ≤ p) : 2 ^ 52 ≤ m := h.normal.resolve_right (by omega)
  rcases Nat.lt_trichotomy p (c + 1) with hp | rfl | hp
  · by_cases hlast : negative = false ∧ m = 2 ^ 53 - 1 ∧ p = 1020
    · obtain ⟨rfl, rfl, rfl⟩ := hlast
      rw [nearestUnits_last_ediv (by omega)]
      exact ⟨fun hexact => (hexact (.inl ⟨rfl, rfl, rfl⟩)).elim, fun _ => rfl⟩
    · rw [nearestUnits_add_half_ediv hu (by omega) (by omega) fun hs hp hm => hlast ⟨hs, hm, by omega⟩]
      exact ⟨fun _ => rfl, fun hmissed => (hmissed.elim hlast fun hp => by omega).elim⟩
  · rw [nearestUnits_middle_ediv (hl le_rfl) hu]
    rcases Nat.mod_two_eq_zero_or_one m with heven | hodd
    · rw [heven]
      refine ⟨fun _ => Int.add_zero _, fun hmissed => ?_⟩
      omega
    · rw [hodd]
      exact ⟨fun hexact => (hexact (.inr ⟨by omega, rfl⟩)).elim, fun _ => rfl⟩
  · rw [nearestUnits_large_ediv (hl hp.le) hu hp]
    refine ⟨fun _ => rfl, fun hmissed => ?_⟩
    omega

/-! ## Integers -/

theorem value?_eq_intCast_iff {i : Int} (h : Canonical m p) :
    (finite negative m p h).value? = some (i : ℚ) ↔
      signed negative (magnitudeUnits m p) = i * (unitsPerOne : Int) := by
  rw [value?_finite, Option.some_inj, ← mul_unitsPerOne_div i, div_unitsPerOne_inj]

/-- The number nearest to an integer that is not oversized. -/
theorem exists_ofInt {i : Int} (hi : i.natAbs < leastOverflowing) :
    ∃ m p h, ofInt i = finite (i < 0) m p h ∧
      magnitudeUnits m p = roundedUnits (i.natAbs * unitsPerOne) 1 := by
  have hlt : i.natAbs * unitsPerOne < overflow * 1 := by
    rw [Nat.mul_one, overflow_eq]
    exact Nat.mul_lt_mul_of_pos_right hi unitsPerOne_pos
  obtain ⟨m, p, h, heq, hunits, -⟩ := exists_finite_ofQuotient (decide (i < 0)) Nat.one_pos hlt
  exact ⟨m, p, h, heq, hunits⟩

theorem signed_natAbs (i : Int) : signed (i < 0) i.natAbs = i := by
  unfold signed
  split
  · rename_i h
    rw [decide_eq_true_eq] at h
    omega
  · rename_i h
    rw [decide_eq_true_eq] at h
    omega

theorem value?_ofInt {i : Int} (hi : i.natAbs < leastOverflowing)
    (hexact : roundedUnits (i.natAbs * unitsPerOne) 1 = i.natAbs * unitsPerOne) :
    (ofInt i).value? = some (i : ℚ) := by
  obtain ⟨m, p, h, heq, hunits⟩ := exists_ofInt hi
  rw [heq, value?_eq_intCast_iff, hunits, hexact, signed_mul, signed_natAbs]

/-- A representable integer is the value of the number nearest to it. -/
theorem value?_ofInt_of_value? {i : Int} (hi : i.natAbs < leastOverflowing) {x : Binary64}
    (hx : x.value? = some (i : ℚ)) : (ofInt i).value? = some (i : ℚ) := by
  cases x with
  | nan => cases hx
  | infinite => cases hx
  | finite negative m p h =>
    refine value?_ofInt hi ?_
    have hunits := natAbs_of_signed_eq ((value?_eq_intCast_iff h).mp hx)
    have hm : m ≤ 2 ^ 53 := Nat.le_of_lt h.significand_lt
    rw [← hunits, magnitudeUnits_eq, roundedUnits_mul_pow hm]

/-- An integer that is no binary64 number is rounded to one whose last place is at least two. -/
theorem exponent_of_unrepresentable {i : Int} (hi : i.natAbs < leastOverflowing) {h : Canonical m p}
    (heq : ofInt i = finite negative m p h) (hnone : ∀ x : Binary64, x.value? ≠ some (i : ℚ)) :
    1074 < p := by
  obtain ⟨n, e, hc, heq', hunits⟩ := exists_ofInt hi
  rw [heq'] at heq
  injection heq with _ hm hp
  subst hm hp
  have hlarge : 2 ^ 53 < i.natAbs := by
    by_contra hsmall
    refine hnone _ (value?_ofInt hi ?_)
    rw [unitsPerOne_eq, roundedUnits_mul_pow (Nat.not_lt.mp hsmall)]
  have hbound : 2 ^ 53 * 2 ^ 1074 ≤ magnitudeUnits n e := by
    rw [hunits, unitsPerOne_eq]
    exact le_roundedUnits le_rfl (Nat.mul_le_mul_right _ hlarge.le)
  by_contra hp
  have hupper : magnitudeUnits n e < 2 ^ 53 * 2 ^ 1074 := by
    rw [magnitudeUnits_eq]
    exact Nat.mul_lt_mul_of_lt_of_le hc.significand_lt
      (pow_le_pow_right₀ (by decide) (Nat.not_lt.mp hp)) (pow_pos Nat.two_pos _)
  exact absurd hbound (Nat.not_le.mpr hupper)

/-- From the exponent of one on a number is an integer. -/
theorem exists_value?_eq_intCast (h : Canonical m p) (hp : 1074 ≤ p) :
    ∃ k : Int, (finite negative m p h).value? = some (k : ℚ) := by
  refine ⟨signed negative (m * 2 ^ (p - 1074)), (value?_eq_intCast_iff h).mpr ?_⟩
  rw [magnitudeUnits_eq, mul_pow_eq hp, signed_mul, unitsPerOne_eq]

end Binary64

namespace Number

variable {n : Number} {q : ℚ}

theorem round_integer {i : Int} (hi : i.natAbs < Binary64.leastOverflowing) :
    round (.integer i) = round (.float (Binary64.ofInt i)) := by
  have hfinite : (Binary64.ofInt i).isInfinite = false := by
    rw [← Bool.not_eq_true, Binary64.isInfinite_ofInt_iff]
    exact Nat.not_le.mpr hi
  have hfloat : toFloat (.integer i) = .ok (Binary64.ofInt i) := by
    simp only [toFloat, hfinite, Bool.false_eq_true, ↓reduceIte]
  simp only [round, add, lift, hfloat]
  rfl

theorem floor_add_half_intCast (i : Int) : ⌊(i : ℚ) + 1 / 2⌋ = i := by
  rw [Int.floor_eq_iff]
  constructor <;> linarith

/-- The nearest integer of a binary64 number is exact, or it is farther away than one half. -/
theorem exists_round_of_value? {x : Binary64} (hx : x.value? = some q) :
    ∃ r, round (.float x) = .ok r ∧
      (¬ Misrounded q → r = ⌊q + 1 / 2⌋) ∧ (Misrounded q → 1 / 2 < |(r : ℚ) - q|) := by
  cases x with
  | nan => cases hx
  | infinite => cases hx
  | finite negative m p h =>
    obtain ⟨r, hr, hexact, hmissed⟩ := Binary64.exists_round_float h hx
    refine ⟨r, hr, hexact, fun hq => ?_⟩
    have hlt := Int.lt_floor_add_one (q + 1 / 2)
    rw [hmissed hq, Int.cast_add, Int.cast_one]
    exact lt_of_lt_of_le (by linarith) (le_abs_self _)

/-- An integer that is no binary64 number is rounded to another integer, and that exactly. -/
theorem exists_round_of_unrepresentable {i : Int} (hi : i.natAbs < Binary64.leastOverflowing)
    (hnone : ∀ x : Binary64, x.value? ≠ some (i : ℚ)) :
    ∃ r, round (.float (Binary64.ofInt i)) = .ok r ∧ r ≠ i := by
  obtain ⟨m, p, h, heq, -⟩ := Binary64.exists_ofInt hi
  have hp := Binary64.exponent_of_unrepresentable hi heq hnone
  obtain ⟨k, hk⟩ : ∃ k : Int, (Binary64.finite (decide (i < 0)) m p h).value? = some (k : ℚ) :=
    Binary64.exists_value?_eq_intCast h hp.le
  obtain ⟨r, hr, hexact, -⟩ := Binary64.exists_round_float h hk
  have hkept : ¬ Misrounded (k : ℚ) := by
    rw [Binary64.misrounded_finite_iff h hk]
    omega
  refine ⟨r, by rw [heq, hr], ?_⟩
  rw [hexact hkept, floor_add_half_intCast]
  rintro rfl
  exact hnone _ hk

/-- The nearest integer is exact, or it is farther away than one half. -/
theorem exists_round (hq : n.value? = some q) (hn : ¬ n.Oversized) :
    ∃ r, n.round = .ok r ∧ (¬ Misrounded q → r = ⌊q + 1 / 2⌋) ∧ (Misrounded q → 1 / 2 < |(r : ℚ) - q|) := by
  cases n with
  | float x => exact exists_round_of_value? hq
  | integer i =>
    obtain rfl := Option.some.inj hq
    have hi : i.natAbs < Binary64.leastOverflowing := Nat.not_le.mp hn
    rw [round_integer hi]
    by_cases hsome : ∃ x : Binary64, x.value? = some (i : ℚ)
    · obtain ⟨x, hx⟩ := hsome
      exact exists_round_of_value? (Binary64.value?_ofInt_of_value? hi hx)
    · have hnone : ∀ x : Binary64, x.value? ≠ some (i : ℚ) := not_exists.mp hsome
      obtain ⟨r, hr, hne⟩ := exists_round_of_unrepresentable hi hnone
      refine ⟨r, hr, fun hq => (hq (.unrepresentable hnone)).elim, fun _ => ?_⟩
      have hone : 1 ≤ |r - i| := Int.one_le_abs (sub_ne_zero.mpr hne)
      have hcast : (1 : ℚ) ≤ |(r : ℚ) - i| := by exact_mod_cast hone
      linarith

theorem floor_eq (hq : n.value? = some q) : n.floor = .ok ⌊q⌋ := by
  cases n with
  | integer i =>
    obtain rfl := Option.some.inj hq
    rw [Int.floor_intCast]
    rfl
  | float x =>
    obtain ⟨u, hu, rfl⟩ := Option.map_eq_some_iff.mp hq
    rw [floor, integral, Binary64.floor?, hu, Option.map_some, Rat.floor_intCast_div_natCast]

theorem ceil_eq (hq : n.value? = some q) : n.ceil = .ok ⌈q⌉ := by
  cases n with
  | integer i =>
    obtain rfl := Option.some.inj hq
    rw [Int.ceil_intCast]
    rfl
  | float x =>
    obtain ⟨u, hu, rfl⟩ := Option.map_eq_some_iff.mp hq
    rw [ceil, integral, Binary64.ceil?, hu, Option.map_some, Rat.ceil_intCast_div_natCast]

end Number

namespace Numeric

variable {n : Number} {q : ℚ}

theorem toInteger_number {function : Text} {operation : Number → Except Fault Int} {i : Int}
    (h : operation n = .ok i) : toInteger function operation (.number n) = .ok (.integer i) := by
  show (do let j ← operation n; return Value.integer j) = Except.ok (Value.integer i)
  rw [h]
  rfl

/-- The floor and the ceiling of a number are exact. Its nearest integer is the floor of the number and one
half, and so at most one half away, exactly if the number is not one of those that are misrounded. The
three functions return an integer itself, the last one again unless it is misrounded. -/
theorem rounding_is_exact_unless_misrounded (hq : n.value? = some q) (hn : ¬ n.Oversized) :
    floor (.number n) = .ok (.integer ⌊q⌋) ∧ ceil (.number n) = .ok (.integer ⌈q⌉) ∧
      ∃ r : Int, round (.number n) = .ok (.integer r) ∧
        (r = ⌊q + 1 / 2⌋ ↔ ¬ Number.Misrounded q) ∧ (|(r : ℚ) - q| ≤ 1 / 2 ↔ ¬ Number.Misrounded q) ∧
        ∀ i : Int, q = i → ⌊q⌋ = i ∧ ⌈q⌉ = i ∧ (r = i ↔ ¬ Number.Misrounded q) := by
  obtain ⟨r, hr, hexact, hmissed⟩ := Number.exists_round hq hn
  have hnear : |((⌊q + 1 / 2⌋ : Int) : ℚ) - q| ≤ 1 / 2 := by
    rw [abs_le]
    have hle := Int.floor_le (q + 1 / 2)
    have hlt := Int.lt_floor_add_one (q + 1 / 2)
    constructor <;> linarith
  have hfloor : r = ⌊q + 1 / 2⌋ ↔ ¬ Number.Misrounded q := by
    refine ⟨?_, hexact⟩
    rintro rfl hq
    exact absurd hnear (not_le.mpr (hmissed hq))
  refine ⟨toInteger_number (Number.floor_eq hq), toInteger_number (Number.ceil_eq hq), r,
    toInteger_number hr, hfloor, ⟨fun hle hq => absurd hle (not_le.mpr (hmissed hq)), fun hq => ?_⟩, ?_⟩
  · rwa [hexact hq]
  · rintro i rfl
    refine ⟨Int.floor_intCast i, Int.ceil_intCast i, ?_⟩
    rw [← hfloor, Number.floor_add_half_intCast]

/-- One half is rounded up. -/
theorem rounding_of_half :
    (Number.float Number.half).value? = some (1 / 2) ∧
      floor (.number (.float Number.half)) = .ok (.integer 0) ∧
      ceil (.number (.float Number.half)) = .ok (.integer 1) ∧
      round (.number (.float Number.half)) = .ok (.integer 1) := by
  have hvalue : (Number.float Number.half).value? = some (1 / 2) := Binary64.value?_half
  have hkept : ¬ Number.Misrounded (1 / 2) := by
    rw [Binary64.half_eq] at hvalue
    rw [Binary64.misrounded_finite_iff Binary64.canonical_half hvalue]
    decide
  obtain ⟨hfloor, hceil, r, hr, hexact, _⟩ := rounding_is_exact_unless_misrounded hvalue not_false
  have hone : r = 1 := by
    rw [hexact.mpr hkept]
    norm_num
  refine ⟨hvalue, ?_, ?_, by rw [hr, hone]⟩
  · rw [hfloor]
    norm_num
  · rw [hceil]
    norm_num

/-- The last number below one half is rounded to one, though zero is nearer. -/
theorem not_every_nearest_integer_is_exact :
    ¬ ∀ (x : Binary64) (q : ℚ), x.value? = some q →
      round (.number (.float x)) = .ok (.integer ⌊q + 1 / 2⌋) := by
  intro h
  have hlast := h _ _ Binary64.value?_last
  obtain ⟨r, hr, _, hmissed⟩ :=
    Binary64.exists_round_float Binary64.canonical_last Binary64.value?_last
  rw [round, toInteger_number hr, Except.ok.injEq, Value.integer, Value.integer] at hlast
  have hone := hmissed (.belowHalf rfl)
  injection hlast with hlast
  injection hlast with hlast
  omega

end Numeric

end Vetting
