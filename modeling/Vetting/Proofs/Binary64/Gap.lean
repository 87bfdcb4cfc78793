import Vetting.Proofs.Binary64.Half

/-!
# The gap above an integer

A positive integer of at most 52 bits is a number, and the next number is one last place above it. What
lies between the two is rounded to the integer as long as it exceeds it by less than half of the place.
-/

namespace Vetting.Binary64

variable {N k m p : Nat} {q : ℚ} {hc : Canonical m p}

/-! ## Integers as numbers -/

theorem canonical_natCast (hl : 2 ^ k ≤ N) (hu : N < 2 ^ (k + 1)) (hk : k ≤ 51) :
    Canonical (N * 2 ^ (52 - k)) (1022 + k) := by
  have hlower : 2 ^ 52 = 2 ^ k * 2 ^ (52 - k) := by
    rw [← Nat.pow_add]
    congr 1
    omega
  have hupper : 2 ^ 53 = 2 ^ (k + 1) * 2 ^ (52 - k) := by
    rw [← Nat.pow_add]
    congr 1
    omega
  refine ⟨?_, .inl ?_, by omega⟩
  · rw [Nat.pow_eq, hupper]
    exact Nat.mul_lt_mul_of_pos_right hu (Nat.two_pow_pos _)
  · rw [Nat.pow_eq, hlower]
    exact Nat.mul_le_mul_right _ hl

/-- Below the next power of two there is room for one more significand. -/
theorem canonical_natCast_succ (hl : 2 ^ k ≤ N) (hu : N < 2 ^ (k + 1)) (hk : k ≤ 51) :
    Canonical (N * 2 ^ (52 - k) + 1) (1022 + k) := by
  obtain ⟨hlt, hnormal, hexponent⟩ := canonical_natCast hl hu hk
  have heven : N * 2 ^ (52 - k) = 2 * (N * 2 ^ (51 - k)) := by
    rw [show 52 - k = 51 - k + 1 by omega, Nat.pow_succ]
    ring
  refine ⟨?_, hnormal.imp_left Nat.le_succ_of_le, hexponent⟩
  rw [Nat.pow_eq] at hlt ⊢
  omega

/-- At the exponent of the integer one is `2 ^ (52 - k)` last places. -/
theorem magnitude_eq_div (hk : k ≤ 51) (n : Nat) : magnitude n (1022 + k) = n / 2 ^ (52 - k) := by
  have hunits : unitsPerOne = 2 ^ (52 - k) * 2 ^ (1022 + k) := by
    rw [unitsPerOne_eq, ← Nat.pow_add]
    congr 1
    omega
  have hpos : ((2 ^ (1022 + k) : Nat) : ℚ) ≠ 0 := Nat.cast_ne_zero.mpr (Nat.two_pow_pos _).ne'
  rw [magnitude, magnitudeUnits, Nat.pow_eq, hunits, Nat.cast_mul, Nat.cast_mul,
    mul_div_mul_right _ _ hpos, Nat.cast_pow, Nat.cast_two]

theorem magnitude_natCast (hk : k ≤ 51) : magnitude (N * 2 ^ (52 - k)) (1022 + k) = N := by
  rw [magnitude_eq_div hk, Nat.cast_mul, Nat.cast_pow, Nat.cast_two, mul_div_cancel_right₀]
  positivity

theorem magnitude_natCast_succ (hk : k ≤ 51) :
    magnitude (N * 2 ^ (52 - k) + 1) (1022 + k) = N + 1 / 2 ^ (52 - k) := by
  rw [magnitude_eq_div hk, Nat.cast_add, add_div, ← magnitude_eq_div hk, magnitude_natCast hk, Nat.cast_one]

theorem place_eq_two_mul (hk : k ≤ 51) : (1 : ℚ) / 2 ^ (52 - k) = 2 * (1 / 2 ^ (53 - k)) := by
  rw [show 53 - k = 52 - k + 1 by omega, pow_succ]
  field_simp

/-- The next number is one last place above the integer. -/
theorem natCast_add_le_magnitude (hl : 2 ^ k ≤ N) (hu : N < 2 ^ (k + 1)) (hk : k ≤ 51)
    (hc : Canonical m p) (hlt : (N : ℚ) < magnitude m p) :
    (N : ℚ) + 1 / 2 ^ (52 - k) ≤ magnitude m p := by
  rw [← magnitude_natCast hk, magnitude_lt_iff] at hlt
  have hsucc := succ_magnitudeUnits_le (canonical_natCast hl hu hk) hc hlt
  rw [← magnitude_natCast_succ hk, magnitude, magnitude]
  exact div_le_div_of_nonneg_right (by exact_mod_cast hsucc) cast_unitsPerOne_pos.le

/-! ## Bounds that rounding does not pass -/

theorem exists_canonical_natCast (h : N < 2 ^ 52) : ∃ n e, Canonical n e ∧ magnitude n e = N := by
  rcases Nat.eq_zero_or_pos N with rfl | hpos
  · refine ⟨0, 0, canonical_zero, ?_⟩
    rw [magnitude, magnitudeUnits, Nat.zero_mul, Nat.cast_zero, zero_div]
  · have hk : N.log2 < 52 := (Nat.log2_lt hpos.ne').mpr h
    exact ⟨_, _, canonical_natCast (Nat.log2_self_le hpos.ne') Nat.lt_log2_self (by omega),
      magnitude_natCast (by omega)⟩

section Bounds
variable (h : Nearest false q (.finite false m p hc))
include h

theorem Nearest.le_natCast (hN : N < 2 ^ 52) (hq : q ≤ N) : magnitude m p ≤ N := by
  obtain ⟨n, e, hn, heq⟩ := exists_canonical_natCast hN
  rw [← heq] at hq ⊢
  exact h.magnitude_le hn hq

theorem Nearest.natCast_le (hN : N < 2 ^ 52) (hq : N ≤ q) : N ≤ magnitude m p := by
  obtain ⟨n, e, hn, heq⟩ := exists_canonical_natCast hN
  rw [← heq] at hq ⊢
  exact h.le_magnitude hn hq

/-- Powers of one half are numbers too. -/
theorem Nearest.inv_two_pow_le {j : Nat} (hj : j ≤ 1022) (hq : 1 / 2 ^ j ≤ q) :
    1 / 2 ^ j ≤ magnitude m p := by
  have hcanonical : Canonical (2 ^ 52) (1022 - j) := ⟨by decide, .inl (by decide), by omega⟩
  have hunits : unitsPerOne = magnitudeUnits (2 ^ 52) (1022 - j) * 2 ^ j := by
    rw [unitsPerOne_eq, magnitudeUnits, Nat.pow_eq, ← Nat.pow_add, ← Nat.pow_add]
    congr 1
    omega
  have hpos : (magnitudeUnits (2 ^ 52) (1022 - j) : ℚ) ≠ 0 :=
    Nat.cast_ne_zero.mpr (Nat.mul_pos (by decide) (Nat.two_pow_pos _)).ne'
  have heq : magnitude (2 ^ 52) (1022 - j) = 1 / 2 ^ j := by
    rw [magnitude, hunits, Nat.cast_mul, Nat.cast_pow, Nat.cast_two]
    field_simp
  rw [← heq] at hq ⊢
  exact h.le_magnitude hcanonical hq

end Bounds

/-! ## Rounding above an integer -/

theorem lt_two_pow (hu : N < 2 ^ (k + 1)) (hk : k ≤ 51) : N < 2 ^ 52 :=
  hu.trans_le (Nat.pow_le_pow_right Nat.two_pos (by omega))

section Rounding
variable (hl : 2 ^ k ≤ N) (hu : N < 2 ^ (k + 1)) (hk : k ≤ 51)
include hl hu hk

/-- Less than half of a last place above the integer is lost. -/
theorem Nearest.eq_natCast (h : Nearest false q (.finite false m p hc)) (hq : N ≤ q)
    (hless : q - N < 1 / 2 ^ (53 - k)) : magnitude m p = N := by
  refine le_antisymm (not_lt.mp fun hlt => ?_) (h.natCast_le (lt_two_pow hu hk) hq)
  have hgap := natCast_add_le_magnitude hl hu hk hc hlt
  rw [place_eq_two_mul hk] at hgap
  cases h with
  | finite _ _ hnearest =>
    have hle := hnearest _ _ (canonical_natCast hl hu hk)
    rw [magnitude_natCast hk, abs_of_nonneg (sub_nonneg.mpr hq)] at hle
    have hdistance := neg_le_of_abs_le hle
    linarith

/-- More than half of a last place above the integer is kept. -/
theorem Nearest.natCast_lt (h : Nearest false q (.finite false m p hc))
    (hmore : 1 / 2 ^ (53 - k) < q - N) : N < magnitude m p := by
  have hplace : (0 : ℚ) < 1 / 2 ^ (53 - k) := by positivity
  have hq : (N : ℚ) ≤ q := by linarith
  have hsucc := canonical_natCast_succ hl hu hk
  by_contra hge
  have heq : magnitude m p = N := le_antisymm (not_lt.mp hge) (h.natCast_le (lt_two_pow hu hk) hq)
  rcases le_total (magnitude (N * 2 ^ (52 - k) + 1) (1022 + k)) q with hfar | hnear
  · have hle := h.le_magnitude hsucc hfar
    rw [magnitude_natCast_succ hk, place_eq_two_mul hk, heq] at hle
    linarith
  · cases h with
    | finite _ _ hnearest =>
      have hle := hnearest _ _ hsucc
      rw [heq, abs_of_nonneg (sub_nonneg.mpr hq), abs_of_nonpos (sub_nonpos.mpr hnear),
        magnitude_natCast_succ hk, place_eq_two_mul hk] at hle
      linarith

end Rounding

end Vetting.Binary64
