import Mathlib.Tactic.Ring
import Mathlib.Tactic.SplitIfs
import Vetting.Binary64.Basic

/-!
# Rounding to binary64 numbers

The exponent at which a quotient is rounded is the only one that gives it 53 bits, so the rounded
number depends on the value of the quotient alone. A quotient of a representable value is not
changed, and a quotient rounds beyond the largest number from half a unit above that number on.
-/

namespace Vetting.Binary64

/-! ## The nearest integer -/

theorem roundHalfEven_mul_right {a d k : Nat} (hk : 0 < k) :
    roundHalfEven (a * k) (d * k) = roundHalfEven a d := by
  have hlt (x : Nat) : 2 * (x * k) < d * k ↔ 2 * x < d := by
    rw [← Nat.mul_assoc, Nat.mul_lt_mul_right hk]
  have hgt (x : Nat) : d * k < 2 * (x * k) ↔ d < 2 * x := by
    rw [← Nat.mul_assoc, Nat.mul_lt_mul_right hk]
  simp only [roundHalfEven, Nat.mul_div_mul_right a d hk, Nat.mul_mod_mul_right, hlt, hgt]

theorem roundHalfEven_mul_self {m d : Nat} (hd : 0 < d) : roundHalfEven (m * d) d = m := by
  simp only [roundHalfEven, Nat.mul_mod_left, Nat.mul_div_cancel _ hd, Nat.mul_zero, hd, ↓reduceIte]

/-- An even number is reached from half below it on. -/
theorem le_roundHalfEven_iff {a d k : Nat} (hd : 0 < d) (hk : 0 < k) (he : k % 2 = 0) :
    k ≤ roundHalfEven a d ↔ (2 * k - 1) * d ≤ 2 * a := by
  have hdiv := Nat.div_add_mod a d
  have hmod := Nat.mod_lt a hd
  unfold roundHalfEven
  generalize a / d = q at *
  generalize a % d = r at *
  subst hdiv
  obtain ⟨j, rfl⟩ : ∃ j, k = j + 1 := ⟨k - 1, by omega⟩
  have hj : (2 * (j + 1) - 1) * d = 2 * (d * j) + d := by
    rw [show 2 * (j + 1) - 1 = 2 * j + 1 by omega]
    ring
  rw [hj]
  dsimp only
  rcases Nat.lt_trichotomy q j with h | rfl | h
  · have hq : d * q + d ≤ d * j := by
      rw [← Nat.mul_succ]
      exact Nat.mul_le_mul_left d h
    split_ifs <;> omega
  · split_ifs <;> omega
  · have hq : d * j + d ≤ d * q := by
      rw [← Nat.mul_succ]
      exact Nat.mul_le_mul_left d h
    split_ifs <;> omega

theorem le_roundHalfEven {a d m : Nat} (hd : 0 < d) (h : m * d ≤ a) : m ≤ roundHalfEven a d := by
  have hq : m ≤ a / d := (Nat.le_div_iff_mul_le hd).mpr h
  unfold roundHalfEven
  dsimp only
  split_ifs <;> omega

theorem roundHalfEven_le {a d m : Nat} (hd : 0 < d) (h : a ≤ m * d) : roundHalfEven a d ≤ m := by
  have hle : a / d ≤ m := Nat.div_le_of_le_mul (by rwa [Nat.mul_comm])
  have hdiv := Nat.div_add_mod a d
  rcases Nat.lt_or_eq_of_le hle with hq | hq
  · unfold roundHalfEven
    dsimp only
    split_ifs <;> omega
  · have hr : a % d = 0 := by
      rw [hq, Nat.mul_comm] at hdiv
      omega
    unfold roundHalfEven
    dsimp only
    rw [hr, hq]
    split_ifs <;> omega

/-! ## The exponent -/

/-- The exponents at which a quotient has 53 bits, or fewer if the exponent is zero. -/
structure Fits (a d p : Nat) : Prop where
  lt : a < d * 2 ^ (p + 53)
  le : p = 0 ∨ d * 2 ^ (p + 52) ≤ a

theorem Fits.eq {a d p q : Nat} (hp : Fits a d p) (hq : Fits a d q) : p = q := by
  have key {p q : Nat} (hp : Fits a d p) (hq : Fits a d q) (h : p < q) : False := by
    have hle : d * 2 ^ (p + 53) ≤ d * 2 ^ (q + 52) :=
      Nat.mul_le_mul_left d (Nat.pow_le_pow_right (by decide) (by omega))
    rcases hq.le with h0 | hl
    · omega
    · exact absurd hp.lt (Nat.not_lt.mpr (Nat.le_trans hle hl))
  rcases Nat.lt_trichotomy p q with h | h | h
  · exact (key hp hq h).elim
  · exact h
  · exact (key hq hp h).elim

theorem fits_unitExponent {a d : Nat} (hd : 0 < d) : Fits a d (unitExponent a d) := by
  have hdl : 2 ^ d.log2 ≤ d := Nat.log2_self_le (by omega)
  have hdu : d < 2 ^ (d.log2 + 1) := Nat.lt_log2_self
  have hau : a < 2 ^ (a.log2 + 1) := Nat.lt_log2_self
  have upper (p : Nat) (h : a.log2 + 1 ≤ d.log2 + (p + 53)) : a < d * 2 ^ (p + 53) := by
    calc
      a < 2 ^ (a.log2 + 1) := hau
      _ ≤ 2 ^ (d.log2 + (p + 53)) := Nat.pow_le_pow_right (by decide) h
      _ = 2 ^ d.log2 * 2 ^ (p + 53) := Nat.pow_add ..
      _ ≤ d * 2 ^ (p + 53) := Nat.mul_le_mul_right _ hdl
  unfold unitExponent
  simp only [Nat.pow_eq]
  generalize hg : a.log2 - (d.log2 + 52) = guess
  split
  · rename_i h
    simp only [Bool.and_eq_true, decide_eq_true_eq] at h
    obtain ⟨h0, hlt⟩ := h
    have ha : a ≠ 0 := by
      rintro rfl
      simp at hg
      omega
    refine ⟨by rwa [show guess - 1 + 53 = guess + 52 by omega], .inr ?_⟩
    calc
      d * 2 ^ (guess - 1 + 52) ≤ 2 ^ (d.log2 + 1) * 2 ^ (guess - 1 + 52) :=
        Nat.mul_le_mul_right _ (Nat.le_of_lt hdu)
      _ = 2 ^ a.log2 := by rw [← Nat.pow_add]; congr 1; omega
      _ ≤ a := Nat.log2_self_le ha
  · rename_i h
    simp only [Bool.and_eq_true, decide_eq_true_eq, not_and, Nat.not_lt] at h
    refine ⟨upper guess (by omega), ?_⟩
    rcases Nat.eq_zero_or_pos guess with h0 | h0
    · exact .inl h0
    · exact .inr (h h0)

theorem Fits.unitExponent_eq {a d p : Nat} (hd : 0 < d) (h : Fits a d p) : unitExponent a d = p :=
  (fits_unitExponent hd).eq h

theorem unitExponent_mul_right {a d k : Nat} (hd : 0 < d) (hk : 0 < k) :
    unitExponent (a * k) (d * k) = unitExponent a d := by
  have h := fits_unitExponent (a := a) hd
  refine Fits.unitExponent_eq (Nat.mul_pos hd hk) ⟨?_, ?_⟩
  · rw [Nat.mul_right_comm]
    exact Nat.mul_lt_mul_of_pos_right h.lt hk
  · refine h.le.imp_right fun hl => ?_
    rw [Nat.mul_right_comm]
    exact Nat.mul_le_mul_right k hl

/-! ## Quotients -/

/-- The number nearest to a quotient depends only on its value. -/
theorem ofQuotient_eq_of_mul_eq {negative : Bool} {a b d e : Nat} (hd : 0 < d) (he : 0 < e)
    (h : a * e = b * d) : ofQuotient negative a d = ofQuotient negative b e := by
  have scale (a d k : Nat) (hd : 0 < d) (hk : 0 < k) :
      ofQuotient negative (a * k) (d * k) = ofQuotient negative a d := by
    unfold ofQuotient
    simp only [unitExponent_mul_right hd hk, Nat.mul_right_comm d k, roundHalfEven_mul_right hk]
  rw [← scale a d e hd he, ← scale b e d he hd, h, Nat.mul_comm d e]

/-- A representable value is not rounded. -/
theorem ofQuotient_magnitudeUnits {negative : Bool} {m p : Nat} (h : Canonical m p) :
    ofQuotient negative (magnitudeUnits m p) 1 = .finite negative m p h := by
  have hm : m < 2 ^ 53 := h.significand_lt
  have hp : unitExponent (magnitudeUnits m p) 1 = p := by
    refine Fits.unitExponent_eq (by decide) ⟨?_, ?_⟩
    · rw [Nat.one_mul, Nat.add_comm, Nat.pow_add]
      exact Nat.mul_lt_mul_of_pos_right hm (Nat.pow_pos (by decide))
    · refine h.normal.symm.imp_right fun hn => ?_
      rw [Nat.one_mul, Nat.add_comm, Nat.pow_add]
      exact Nat.mul_le_mul_right _ hn
  have hr : roundHalfEven (magnitudeUnits m p) (1 * Nat.pow 2 p) = m := by
    rw [Nat.one_mul]
    exact roundHalfEven_mul_self (Nat.pow_pos (by decide))
  have hne : m ≠ Nat.pow 2 53 := Nat.ne_of_lt h.significand_lt
  unfold ofQuotient
  simp only [hp, hr, hne, ↓reduceIte, h, ↓reduceDIte]

/-! ## Beyond the largest number -/

/-- The units from which on magnitudes round to infinity: the largest number and half of its last
place. -/
def overflow : Nat := (2 ^ 54 - 1) * 2 ^ 2044

section Overflow
variable {negative : Bool} {a d : Nat}

theorem Fits.roundHalfEven_le {p : Nat} (hd : 0 < d) (h : Fits a d p) :
    roundHalfEven a (d * 2 ^ p) ≤ 2 ^ 53 := by
  refine Binary64.roundHalfEven_le (Nat.mul_pos hd (Nat.pow_pos (by decide))) (Nat.le_of_lt ?_)
  rw [Nat.mul_left_comm, ← Nat.pow_add, Nat.add_comm]
  exact h.lt

theorem Fits.le_roundHalfEven {p : Nat} (hd : 0 < d) (h : Fits a d p) :
    2 ^ 52 ≤ roundHalfEven a (d * 2 ^ p) ∨ p = 0 := by
  refine h.le.symm.imp_left fun hl => ?_
  refine Binary64.le_roundHalfEven (Nat.mul_pos hd (Nat.pow_pos (by decide))) ?_
  rwa [Nat.mul_left_comm, ← Nat.pow_add, Nat.add_comm]

theorem isInfinite_ofQuotient_iff_exponent (hd : 0 < d) :
    (ofQuotient negative a d).isInfinite = true ↔
      2045 < unitExponent a d ∨ unitExponent a d = 2045 ∧
        2 ^ 53 ≤ roundHalfEven a (d * 2 ^ unitExponent a d) := by
  have hle := (fits_unitExponent (a := a) hd).roundHalfEven_le hd
  have hge := (fits_unitExponent (a := a) hd).le_roundHalfEven hd
  unfold ofQuotient
  simp only [Nat.pow_eq]
  generalize unitExponent a d = p at *
  generalize roundHalfEven a (d * 2 ^ p) = r at *
  by_cases hr : r = 2 ^ 53
  · have hc : Canonical (2 ^ 52) (p + 1) ↔ p + 1 ≤ 2045 :=
      ⟨fun h => h.exponent_le, fun h => ⟨by decide, .inl (by decide), h⟩⟩
    simp only [hr, ↓reduceIte, hc]
    split <;> simp [isInfinite] <;> omega
  · have hc : Canonical r p ↔ p ≤ 2045 :=
      ⟨fun h => h.exponent_le, fun h => ⟨by simp only [Nat.pow_eq]; omega, by simpa using hge, h⟩⟩
    simp only [hr, ↓reduceIte, hc]
    split <;> simp [isInfinite] <;> omega

/-- A quotient rounds beyond 53 bits at the exponent `k + 1` from half a unit below them on. -/
theorem exceeds_iff {k : Nat} (hd : 0 < d) :
    (k + 1 < unitExponent a d ∨ unitExponent a d = k + 1 ∧
      2 ^ 53 ≤ roundHalfEven a (d * 2 ^ unitExponent a d)) ↔ (2 ^ 54 - 1) * 2 ^ k * d ≤ a := by
  have h := fits_unitExponent (a := a) hd
  have hdp : 0 < d * 2 ^ unitExponent a d := Nat.mul_pos hd (Nat.pow_pos (by decide))
  rw [le_roundHalfEven_iff hdp (by decide) (by decide)]
  generalize unitExponent a d = p at *
  have hover : (2 ^ 54 - 1) * 2 ^ k * d ≤ d * 2 ^ (k + 54) := by
    rw [Nat.mul_comm, Nat.add_comm k, Nat.pow_add]
    exact Nat.mul_le_mul_left d (Nat.mul_le_mul_right _ (Nat.sub_le ..))
  have hunder : d * 2 ^ (k + 53) ≤ (2 ^ 54 - 1) * 2 ^ k * d := by
    rw [Nat.mul_comm _ d, Nat.add_comm k, Nat.pow_add]
    exact Nat.mul_le_mul_left d (Nat.mul_le_mul_right _ (by decide))
  have htie : (2 * 2 ^ 53 - 1) * (d * 2 ^ (k + 1)) = 2 * ((2 ^ 54 - 1) * 2 ^ k * d) := by
    rw [show 2 * 2 ^ 53 - 1 = 2 ^ 54 - 1 by decide, Nat.pow_succ]
    generalize 2 ^ 54 - 1 = c
    ring
  constructor
  · rintro (hp | ⟨rfl, hr⟩)
    · rcases h.le with rfl | hl
      · exact absurd hp (Nat.not_lt_zero _)
      · have hpow : 2 ^ (k + 54) ≤ 2 ^ (p + 52) :=
          Nat.pow_le_pow_right (by decide) (Nat.add_le_add_right hp 52)
        exact Nat.le_trans hover (Nat.le_trans (Nat.mul_le_mul_left d hpow) hl)
    · rw [htie] at hr
      exact Nat.le_of_mul_le_mul_left hr Nat.two_pos
  · intro ha
    rcases Nat.lt_trichotomy p (k + 1) with hp | rfl | hp
    · have hpow : 2 ^ (p + 53) ≤ 2 ^ (k + 53) :=
        Nat.pow_le_pow_right (by decide) (Nat.add_le_add_right (Nat.le_of_lt_succ hp) 53)
      have hlt : a < d * 2 ^ (k + 53) := Nat.lt_of_lt_of_le h.lt (Nat.mul_le_mul_left d hpow)
      exact absurd hlt (Nat.not_lt.mpr (Nat.le_trans hunder ha))
    · refine .inr ⟨rfl, ?_⟩
      rw [htie]
      exact Nat.mul_le_mul_left 2 ha
    · exact .inl hp

theorem isInfinite_ofQuotient_iff (hd : 0 < d) :
    (ofQuotient negative a d).isInfinite = true ↔ overflow * d ≤ a := by
  rw [isInfinite_ofQuotient_iff_exponent hd, overflow]
  exact exceeds_iff hd

end Overflow

/-! ## Integers -/

/-- The least magnitude of the integers that round to infinity. -/
def leastOverflowing : Nat := (2 ^ 54 - 1) * 2 ^ 970

theorem leastOverflowing_pos : 0 < leastOverflowing := by
  unfold leastOverflowing
  generalize 970 = n
  exact Nat.mul_pos (by decide) (Nat.two_pow_pos n)

theorem unitsPerOne_eq : unitsPerOne = 2 ^ 1074 := by
  unfold unitsPerOne
  generalize 1074 = n
  rfl

theorem unitsPerOne_pos : 0 < unitsPerOne := by
  rw [unitsPerOne_eq]
  generalize 1074 = n
  exact Nat.two_pow_pos n

theorem overflow_eq : overflow = leastOverflowing * unitsPerOne := by
  rw [overflow, leastOverflowing, unitsPerOne_eq, Nat.mul_assoc, ← Nat.pow_add]

theorem isInfinite_ofInt_iff {i : Int} :
    (ofInt i).isInfinite = true ↔ leastOverflowing ≤ i.natAbs := by
  rw [ofInt, isInfinite_ofQuotient_iff (by decide), Nat.mul_one, overflow_eq]
  constructor
  · exact fun h => Nat.le_of_mul_le_mul_right h unitsPerOne_pos
  · exact fun h => Nat.mul_le_mul_right unitsPerOne h

/-- A positive number of units does not round to zero. -/
theorem significand_pos_of_ofQuotient_eq {negative s : Bool} {a m p : Nat} {h : Canonical m p}
    (ha : 0 < a) (hq : ofQuotient negative a 1 = .finite s m p h) : 0 < m := by
  have hge := (fits_unitExponent (a := a) Nat.one_pos).le_roundHalfEven Nat.one_pos
  have hself : roundHalfEven a 1 = a := by
    simpa using roundHalfEven_mul_self (m := a) Nat.one_pos
  unfold ofQuotient at hq
  simp only [Nat.pow_eq] at hq
  generalize unitExponent a 1 = e at *
  split at hq
  · split at hq
    · injection hq with _ hm
      omega
    · cases hq
  · split at hq
    · injection hq with _ hm
      rcases hge with hge | rfl
      · omega
      · rw [Nat.pow_zero, Nat.mul_one, hself] at hm
        omega
    · cases hq

end Vetting.Binary64
