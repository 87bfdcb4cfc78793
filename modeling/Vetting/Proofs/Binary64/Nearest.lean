import Mathlib.Algebra.Order.Field.Power
import Mathlib.Data.Nat.Dist
import Mathlib.Data.Rat.Cast.Order
import Mathlib.Tactic.FieldSimp
import Mathlib.Tactic.Linarith
import Mathlib.Tactic.Positivity
import Vetting.Proofs.Binary64.Decimal

/-!
# Rounding to the nearest number

Every rounding gives the number nearest to the exact magnitude, the one with the even significand of
two that are equally near; from half a unit in its last place beyond the largest number on it gives
infinity.
-/

namespace Vetting.Binary64

open Text

def magnitude (m p : Nat) : ℚ := magnitudeUnits m p / unitsPerOne

/-- The number that a magnitude with a sign is rounded to. -/
inductive Nearest (negative : Bool) (q : ℚ) : Binary64 → Prop
  | finite {m p : Nat} (h : Canonical m p) (below : q < leastOverflowing)
      (nearest : ∀ n e, Canonical n e → |q - magnitude m p| ≤ |q - magnitude n e|)
      (even : ∀ n e, Canonical n e → magnitude n e ≠ magnitude m p →
        |q - magnitude n e| = |q - magnitude m p| → m % 2 = 0) :
      Nearest negative q (.finite negative m p h)
  | infinite (beyond : leastOverflowing ≤ q) : Nearest negative q (.infinite negative)

/-! ## Multiples -/

section Multiples
variable {a d k : Nat}

theorem dist_roundHalfEven_le (hd : 0 < d) (k : Nat) :
    Nat.dist a (roundHalfEven a d * d) ≤ Nat.dist a (k * d) := by
  have hdiv := Nat.div_add_mod a d
  have hmod := Nat.mod_lt a hd
  unfold roundHalfEven Nat.dist
  generalize a / d = q at *
  generalize a % d = r at *
  rw [Nat.mul_comm d q] at hdiv
  have hsucc : (q + 1) * d = q * d + d := Nat.succ_mul q d
  rcases Nat.lt_or_ge q k with hk | hk
  · have hle : (q + 1) * d ≤ k * d := Nat.mul_le_mul_right d hk
    dsimp only
    split_ifs <;> omega
  · have hle : k * d ≤ q * d := Nat.mul_le_mul_right d hk
    dsimp only
    split_ifs <;> omega

theorem even_roundHalfEven_of_tie (hd : 0 < d) (hk : k ≠ roundHalfEven a d)
    (h : Nat.dist a (k * d) = Nat.dist a (roundHalfEven a d * d)) : roundHalfEven a d % 2 = 0 := by
  have hdiv := Nat.div_add_mod a d
  have hmod := Nat.mod_lt a hd
  unfold roundHalfEven Nat.dist at *
  generalize a / d = q at *
  generalize a % d = r at *
  rw [Nat.mul_comm d q] at hdiv
  have hsucc : (q + 1) * d = q * d + d := Nat.succ_mul q d
  dsimp only at *
  rcases Nat.lt_trichotomy k q with hlt | rfl | hgt
  · have hle : (k + 1) * d ≤ q * d := Nat.mul_le_mul_right d hlt
    rw [Nat.succ_mul] at hle
    split_ifs at * <;> omega
  · split_ifs at * <;> omega
  · obtain hgt | rfl : q + 1 < k ∨ k = q + 1 := by omega
    · have hle : (q + 1 + 1) * d ≤ k * d := Nat.mul_le_mul_right d hgt
      rw [Nat.succ_mul] at hle
      split_ifs at * <;> omega
    · split_ifs at * <;> omega

end Multiples

/-! ## Quotients -/

section Quotients
variable {negative : Bool} {a d p n e : Nat}

/-- Below an exponent all numbers are less than those with 53 bits there. -/
theorem magnitudeUnits_lt (hc : Canonical n e) (h : e < p) : magnitudeUnits n e < 2 ^ 52 * 2 ^ p := by
  have hpow : 2 * 2 ^ e ≤ 2 ^ p := by
    rw [← Nat.pow_succ']
    exact Nat.pow_le_pow_right Nat.two_pos h
  calc
    n * 2 ^ e < 2 ^ 53 * 2 ^ e := Nat.mul_lt_mul_of_pos_right hc.significand_lt (Nat.two_pow_pos e)
    _ = 2 ^ 52 * (2 * 2 ^ e) := by rw [Nat.pow_succ, Nat.mul_assoc]
    _ ≤ 2 ^ 52 * 2 ^ p := Nat.mul_le_mul_left _ hpow

theorem magnitudeUnits_eq_mul (n : Nat) (h : p ≤ e) :
    magnitudeUnits n e = n * 2 ^ (e - p) * 2 ^ p := by
  rw [magnitudeUnits, Nat.pow_eq, Nat.mul_assoc, ← Nat.pow_add, Nat.sub_add_cancel h]

/-- A number is a multiple of the unit of a rounding, or below all that have 53 bits there. -/
theorem Fits.multiple_or_below (hd : 0 < d) (h : Fits a d p) (hc : Canonical n e) :
    (∃ k, magnitudeUnits n e * d = k * (d * 2 ^ p)) ∨
      magnitudeUnits n e * d < 2 ^ 52 * (d * 2 ^ p) ∧ 2 ^ 52 * (d * 2 ^ p) ≤ a := by
  rcases Nat.lt_or_ge e p with hlt | hge
  · refine .inr ⟨?_, ?_⟩
    · rw [Nat.mul_comm d, ← Nat.mul_assoc]
      exact Nat.mul_lt_mul_of_pos_right (magnitudeUnits_lt hc hlt) hd
    · rcases h.le with rfl | hle
      · exact absurd hlt (Nat.not_lt_zero e)
      · rwa [Nat.add_comm, Nat.pow_add, Nat.mul_left_comm] at hle
  · refine .inl ⟨n * 2 ^ (e - p), ?_⟩
    rw [magnitudeUnits_eq_mul n hge]
    ring

def roundedUnits (a d : Nat) : Nat :=
  roundHalfEven a (d * 2 ^ unitExponent a d) * 2 ^ unitExponent a d

theorem roundedUnits_mul (a d : Nat) :
    roundedUnits a d * d =
      roundHalfEven a (d * 2 ^ unitExponent a d) * (d * 2 ^ unitExponent a d) := by
  rw [roundedUnits]
  ring

theorem dist_roundedUnits_le (hd : 0 < d) (hc : Canonical n e) :
    Nat.dist a (roundedUnits a d * d) ≤ Nat.dist a (magnitudeUnits n e * d) := by
  have hfits := fits_unitExponent (a := a) hd
  rw [roundedUnits_mul]
  generalize unitExponent a d = p at *
  have hdp : 0 < d * 2 ^ p := Nat.mul_pos hd (Nat.two_pow_pos p)
  rcases hfits.multiple_or_below hd hc with ⟨k, hk⟩ | ⟨hlt, hle⟩
  · rw [hk]
    exact dist_roundHalfEven_le hdp k
  · have hbest := dist_roundHalfEven_le (a := a) hdp (2 ^ 52)
    unfold Nat.dist at *
    omega

theorem even_of_dist_eq (hd : 0 < d) (hc : Canonical n e) (hne : magnitudeUnits n e ≠ roundedUnits a d)
    (h : Nat.dist a (magnitudeUnits n e * d) = Nat.dist a (roundedUnits a d * d)) :
    roundHalfEven a (d * 2 ^ unitExponent a d) % 2 = 0 := by
  have hfits := fits_unitExponent (a := a) hd
  have hne : magnitudeUnits n e * d ≠ roundedUnits a d * d := by
    intro heq
    exact hne (Nat.eq_of_mul_eq_mul_right hd heq)
  rw [roundedUnits_mul] at h hne
  generalize unitExponent a d = p at *
  have hdp : 0 < d * 2 ^ p := Nat.mul_pos hd (Nat.two_pow_pos p)
  rcases hfits.multiple_or_below hd hc with ⟨k, hk⟩ | ⟨hlt, hle⟩
  · rw [hk] at h hne
    apply even_roundHalfEven_of_tie hdp _ h
    rintro rfl
    exact hne rfl
  · have hbest := dist_roundHalfEven_le (a := a) hdp (2 ^ 52)
    unfold Nat.dist at *
    omega

/-- Below the overflow a rounded quotient is the number of its units. -/
theorem exists_finite_ofQuotient (negative : Bool) (hd : 0 < d) (h : a < overflow * d) :
    ∃ m p hc, ofQuotient negative a d = .finite negative m p hc ∧
      magnitudeUnits m p = roundedUnits a d ∧
      (roundHalfEven a (d * 2 ^ unitExponent a d) % 2 = 0 → m % 2 = 0) := by
  have hfinite : (ofQuotient negative a d).isInfinite ≠ true := by
    rw [ne_eq, isInfinite_ofQuotient_iff hd]
    exact Nat.not_le.mpr h
  unfold ofQuotient roundedUnits at *
  simp only [Nat.pow_eq] at *
  generalize unitExponent a d = p at *
  generalize roundHalfEven a (d * 2 ^ p) = r at *
  by_cases hr : r = 2 ^ 53
  · subst hr
    simp only [↓reduceIte] at *
    split at hfinite
    · rename_i hc
      refine ⟨_, _, hc, ?_, ?_, fun _ => by decide⟩
      · rw [dif_pos hc]
      · rw [magnitudeUnits, Nat.pow_eq, Nat.pow_succ, Nat.pow_succ]
        ring
    · exact absurd rfl hfinite
  · simp only [hr, ↓reduceIte] at *
    split at hfinite
    · rename_i hc
      refine ⟨_, _, hc, ?_, rfl, id⟩
      rw [dif_pos hc]
    · exact absurd rfl hfinite

theorem ofQuotient_of_overflow (hd : 0 < d) (h : overflow * d ≤ a) :
    ofQuotient negative a d = .infinite negative := by
  have hinfinite : (ofQuotient negative a d).isInfinite = true :=
    (isInfinite_ofQuotient_iff hd).mpr h
  have hcases : ofQuotient negative a d = .infinite negative ∨
      ∃ m p hc, ofQuotient negative a d = .finite negative m p hc := by
    unfold ofQuotient
    dsimp only
    split <;> split
    · exact .inr ⟨_, _, ‹_›, rfl⟩
    · exact .inl rfl
    · exact .inr ⟨_, _, ‹_›, rfl⟩
    · exact .inl rfl
  rcases hcases with heq | ⟨m, p, hc, heq⟩
  · exact heq
  · rw [heq] at hinfinite
    cases hinfinite

theorem cast_dist (x y : Nat) : (Nat.dist x y : ℚ) = |(x : ℚ) - y| := by
  rcases Nat.le_total x y with h | h
  · have hq : (x : ℚ) ≤ y := by exact_mod_cast h
    rw [Nat.dist_eq_sub_of_le h, Nat.cast_sub h, abs_of_nonpos (sub_nonpos.mpr hq), neg_sub]
  · have hq : (y : ℚ) ≤ x := by exact_mod_cast h
    rw [Nat.dist_eq_sub_of_le_right h, Nat.cast_sub h, abs_of_nonneg (sub_nonneg.mpr hq)]

theorem cast_unitsPerOne_pos : (0 : ℚ) < unitsPerOne := by exact_mod_cast unitsPerOne_pos

/-- The distance of a quotient from a number. -/
theorem abs_sub_magnitude (hd : 0 < d) (a n e : Nat) :
    |(a : ℚ) / (d * unitsPerOne) - magnitude n e| =
      Nat.dist a (magnitudeUnits n e * d) / (d * unitsPerOne) := by
  have hd : (0 : ℚ) < d := by exact_mod_cast hd
  have hunits := cast_unitsPerOne_pos
  rw [cast_dist, magnitude, Nat.cast_mul]
  generalize (unitsPerOne : ℚ) = u at *
  have hdu : 0 < (d : ℚ) * u := mul_pos hd hunits
  rw [← abs_of_pos hdu, ← abs_div, abs_of_pos hdu]
  congr 1
  field_simp

theorem magnitude_eq_iff {m q : Nat} :
    magnitude n e = magnitude m q ↔ magnitudeUnits n e = magnitudeUnits m q := by
  unfold magnitude
  rw [div_left_inj' cast_unitsPerOne_pos.ne', Nat.cast_inj]

theorem magnitude_lt_iff {m q : Nat} :
    magnitude n e < magnitude m q ↔ magnitudeUnits n e < magnitudeUnits m q := by
  unfold magnitude
  rw [div_lt_div_iff_of_pos_right cast_unitsPerOne_pos, Nat.cast_lt]

theorem nearest_ofQuotient (hd : 0 < d) :
    Nearest negative (a / (d * unitsPerOne)) (ofQuotient negative a d) := by
  have hdq : (0 : ℚ) < d := by exact_mod_cast hd
  have hdu : (0 : ℚ) < d * unitsPerOne := mul_pos hdq cast_unitsPerOne_pos
  have hbound : (leastOverflowing : ℚ) * (d * unitsPerOne) = (overflow * d : Nat) := by
    rw [overflow_eq]
    push_cast
    ring
  rcases Nat.lt_or_ge a (overflow * d) with h | h
  · obtain ⟨m, p, hc, heq, hunits, heven⟩ := exists_finite_ofQuotient negative hd h
    rw [heq]
    refine .finite hc ?_ ?_ ?_
    · rw [div_lt_iff₀ hdu, hbound]
      exact_mod_cast h
    · intro n e hn
      rw [abs_sub_magnitude hd, abs_sub_magnitude hd, hunits]
      apply div_le_div_of_nonneg_right _ hdu.le
      exact_mod_cast dist_roundedUnits_le hd hn
    · intro n e hn hne htie
      rw [abs_sub_magnitude hd, abs_sub_magnitude hd, hunits, div_left_inj' hdu.ne', Nat.cast_inj]
        at htie
      rw [ne_eq, magnitude_eq_iff, hunits] at hne
      exact heven (even_of_dist_eq hd hn hne htie)
  · rw [ofQuotient_of_overflow hd h]
    refine .infinite ?_
    rw [le_div_iff₀ hdu, hbound]
    exact_mod_cast h

end Quotients

/-! ## Units of two numbers -/

section Units
variable {m n p e : Nat}

theorem canonical_inj (hm : Canonical m p) (hn : Canonical n e)
    (h : magnitudeUnits m p = magnitudeUnits n e) : m = n ∧ p = e := by
  have hx : ofQuotient false (magnitudeUnits m p) 1 = .finite false m p hm :=
    ofQuotient_magnitudeUnits hm
  rw [h, ofQuotient_magnitudeUnits hn] at hx
  injection hx with _ hmn hpe
  exact ⟨hmn.symm, hpe.symm⟩

/-- Above a number comes the one with the next significand, if there is any with this exponent. -/
theorem succ_magnitudeUnits_le (hm : Canonical m p) (hn : Canonical n e)
    (h : magnitudeUnits m p < magnitudeUnits n e) :
    magnitudeUnits (m + 1) p ≤ magnitudeUnits n e := by
  rcases Nat.lt_or_ge e p with hlt | hge
  · have hbelow := magnitudeUnits_lt hn hlt
    rcases hm.normal with hnormal | rfl
    · have habove : 2 ^ 52 * 2 ^ p ≤ magnitudeUnits m p := Nat.mul_le_mul_right _ hnormal
      omega
    · exact absurd hlt (Nat.not_lt_zero e)
  · rw [magnitudeUnits_eq_mul n hge, magnitudeUnits, Nat.pow_eq] at h ⊢
    exact Nat.mul_le_mul_right _ (Nat.lt_of_mul_lt_mul_right h)

end Units

/-! ## What a rounding keeps -/

section Bounds
variable {negative s : Bool} {q : ℚ} {m p n e : Nat} {x : Binary64} {hc : Canonical m p}

theorem Nearest.isInfinite_iff (h : Nearest negative q x) :
    x.isInfinite = true ↔ leastOverflowing ≤ q := by
  cases h with
  | finite _ hbelow => exact ⟨nofun, fun h => absurd h (not_le.mpr hbelow)⟩
  | infinite hbeyond => exact ⟨fun _ => hbeyond, fun _ => rfl⟩

/-- Rounding does not pass a number. -/
theorem Nearest.magnitude_le (h : Nearest negative q (.finite s m p hc)) (hn : Canonical n e)
    (hq : q ≤ magnitude n e) : magnitude m p ≤ magnitude n e := by
  cases h with
  | finite _ _ hnearest =>
    have hle := hnearest n e hn
    rw [abs_of_nonpos (sub_nonpos.mpr hq)] at hle
    have := neg_le_of_abs_le hle
    linarith

theorem Nearest.le_magnitude (h : Nearest negative q (.finite s m p hc)) (hn : Canonical n e)
    (hq : magnitude n e ≤ q) : magnitude n e ≤ magnitude m p := by
  cases h with
  | finite _ _ hnearest =>
    have hle := hnearest n e hn
    rw [abs_of_nonneg (sub_nonneg.mpr hq)] at hle
    have := le_of_abs_le hle
    linarith

end Bounds

/-! ## Decimal values -/

section Decimal
variable {negative : Bool} {q : ℚ} {x : Binary64}

/-- Up to half of the least unit a magnitude is rounded to zero. -/
theorem nearest_zero (hq : 0 ≤ q) (hle : 2 * q * unitsPerOne ≤ 1) : Nearest negative q (zero negative) := by
  have hunits := cast_unitsPerOne_pos
  have hzero : magnitude 0 0 = 0 := by
    rw [magnitude, magnitudeUnits, Nat.zero_mul, Nat.cast_zero, zero_div]
  refine .finite canonical_zero ?_ ?_ fun _ _ _ _ _ => rfl
  · have hone : (1 : ℚ) ≤ leastOverflowing := by exact_mod_cast leastOverflowing_pos
    have hunit : (1 : ℚ) ≤ unitsPerOne := by exact_mod_cast unitsPerOne_pos
    nlinarith
  · intro n e hn
    rw [hzero, sub_zero, abs_of_nonneg hq]
    rcases Nat.eq_zero_or_pos (magnitudeUnits n e) with h0 | hpos
    · rw [magnitude, h0, Nat.cast_zero, zero_div, sub_zero]
      exact le_abs_self q
    · have hone : (1 : ℚ) ≤ magnitudeUnits n e := by exact_mod_cast hpos
      have hmagnitude : 2 * q ≤ magnitude n e := by
        rw [magnitude, le_div_iff₀ hunits]
        exact hle.trans hone
      rw [abs_sub_comm]
      exact le_trans (by linarith) (le_abs_self _)

theorem zpow_eq_div (e : Int) : (10 : ℚ) ^ e = 10 ^ e.toNat / 10 ^ (-e).toNat := by
  rcases Int.le_total 0 e with h | h
  · rw [Int.toNat_of_nonpos (Int.neg_nonpos_of_nonneg h), pow_zero, div_one, ← zpow_natCast,
      Int.toNat_of_nonneg h]
  · rw [Int.toNat_of_nonpos h, pow_zero, one_div, ← zpow_natCast,
      Int.toNat_of_nonneg (Int.neg_nonneg_of_nonpos h), zpow_neg, inv_inv]

/-- A number of `k` digits is at least the power of ten with as many. -/
theorem pow_le_of_digitCount {n : Nat} (hn : 0 < n) : 10 ^ (digitCount n - 1) ≤ n := by
  unfold digitCount
  by_contra hlt
  have hpos := length_digitsOfNat_pos n
  rcases Nat.eq_zero_or_pos ((digitsOfNat n).length - 1) with h0 | h1
  · rw [h0] at hlt
    omega
  · have hle := (length_digitsOfNat_le_iff h1).mpr (Nat.not_le.mp hlt)
    omega

theorem lt_pow_digitCount (n : Nat) : n < 10 ^ digitCount n :=
  (length_digitsOfNat_le_iff (length_digitsOfNat_pos n)).mp le_rfl

theorem leastOverflowing_le : (leastOverflowing : ℚ) ≤ 10 ^ 310 := by
  have h : leastOverflowing ≤ 10 ^ 310 := by decide +kernel
  exact_mod_cast h

theorem unitsPerOne_le : (2 : ℚ) * unitsPerOne ≤ 10 ^ 330 := by
  have h : 2 * unitsPerOne ≤ 10 ^ 330 := by decide +kernel
  exact_mod_cast h

/-- A decimal numeral is rounded to the number nearest to what it denotes. -/
theorem nearest_ofDecimal (negative : Bool) (n : Nat) (e : Int) :
    Nearest negative (n * 10 ^ e) (ofDecimal negative n e) := by
  rcases Nat.eq_zero_or_pos n with rfl | hn
  · rw [Nat.cast_zero, zero_mul]
    refine nearest_zero le_rfl ?_
    rw [mul_zero, zero_mul]
    exact zero_le_one
  have hten : (0 : ℚ) < 10 := by norm_num
  have hcount : 0 < digitCount n := length_digitsOfNat_pos n
  rcases Int.lt_or_le 310 ((digitCount n : Int) + e) with hu | hu
  · have heq : ofDecimal negative n e = .infinite negative := by
      simp only [ofDecimal, hn.ne', ↓reduceIte, gt_iff_lt, hu]
    rw [heq]
    refine .infinite ?_
    have hpow : (10 : ℚ) ^ ((digitCount n - 1 : Nat) : Int) ≤ n := by
      rw [zpow_natCast]
      exact_mod_cast pow_le_of_digitCount hn
    calc
      (leastOverflowing : ℚ) ≤ 10 ^ (310 : Int) := leastOverflowing_le
      _ ≤ 10 ^ (((digitCount n - 1 : Nat) : Int) + e) := zpow_le_zpow_right₀ (by norm_num) (by omega)
      _ = 10 ^ ((digitCount n - 1 : Nat) : Int) * 10 ^ e := zpow_add₀ hten.ne' _ _
      _ ≤ n * 10 ^ e := mul_le_mul_of_nonneg_right hpow (zpow_pos hten e).le
  rcases Int.lt_or_le ((digitCount n : Int) + e) (-330) with hl | hl
  · have heq : ofDecimal negative n e = zero negative := by
      simp only [ofDecimal, hn.ne', ↓reduceIte, gt_iff_lt, hl, Int.not_lt.mpr hu]
    rw [heq]
    have hpow : (n : ℚ) ≤ 10 ^ (digitCount n : Int) := by
      rw [zpow_natCast]
      exact_mod_cast (lt_pow_digitCount n).le
    have hsmall : (n : ℚ) * 10 ^ e ≤ 10 ^ (-330 : Int) := by
      calc
        (n : ℚ) * 10 ^ e ≤ 10 ^ (digitCount n : Int) * 10 ^ e :=
          mul_le_mul_of_nonneg_right hpow (zpow_pos hten e).le
        _ = 10 ^ ((digitCount n : Int) + e) := (zpow_add₀ hten.ne' _ _).symm
        _ ≤ 10 ^ (-330 : Int) := zpow_le_zpow_right₀ (by norm_num) hl.le
    refine nearest_zero (mul_nonneg (Nat.cast_nonneg n) (zpow_pos hten e).le) ?_
    have hone : (10 : ℚ) ^ (-330 : Int) * 10 ^ 330 = 1 := by
      rw [← zpow_natCast, ← zpow_add₀ hten.ne']
      rfl
    have hunits := cast_unitsPerOne_pos
    calc
      2 * ((n : ℚ) * 10 ^ e) * unitsPerOne ≤ 10 ^ (-330 : Int) * (2 * unitsPerOne) := by nlinarith
      _ ≤ 10 ^ (-330 : Int) * 10 ^ 330 :=
        mul_le_mul_of_nonneg_left unitsPerOne_le (zpow_pos hten _).le
      _ = 1 := hone
  · rw [ofDecimal_eq_ofQuotient hn.ne' hu hl]
    have hvalue : (n : ℚ) * 10 ^ e =
        ((n * 10 ^ e.toNat * unitsPerOne : Nat) : ℚ) / ((10 ^ (-e).toNat : Nat) * unitsPerOne) := by
      have hunits := cast_unitsPerOne_pos
      rw [zpow_eq_div]
      push_cast
      rw [mul_div_mul_right _ _ hunits.ne', mul_div_assoc]
    rw [hvalue]
    exact nearest_ofQuotient (Nat.pow_pos (by decide))

end Decimal
end Vetting.Binary64
