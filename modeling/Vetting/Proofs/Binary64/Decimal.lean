import Mathlib.Data.List.TakeWhile
import Vetting.Binary64.Decimal
import Vetting.Proofs.Binary64.Rounding
import Vetting.Proofs.Text.Digits

/-!
# Decimal numerals read back

A decimal value is rounded by its value alone, so zeros at its end do not matter. The shortest
numeral of a number reads back as the number: a numeral found on a grid has been read already, and
the last resort is exact.
-/

namespace Vetting.Binary64

open Text

/-! ## Decimal values -/

theorem ofDecimal_zero (negative : Bool) (e : Int) : ofDecimal negative 0 e = zero negative := rfl

/-- A decimal value within the range is one quotient, whatever the sign of its exponent. -/
theorem ofDecimal_eq_ofQuotient {negative : Bool} {n : Nat} {e : Int} (hn : n ≠ 0)
    (hu : (digitCount n : Int) + e ≤ 310) (hl : -330 ≤ (digitCount n : Int) + e) :
    ofDecimal negative n e =
      ofQuotient negative (n * 10 ^ e.toNat * unitsPerOne) (10 ^ (-e).toNat) := by
  unfold ofDecimal
  simp only [Nat.pow_eq, hn, ↓reduceIte, if_neg (Int.not_lt.mpr hu), if_neg (Int.not_lt.mpr hl)]
  split
  · rename_i he
    rw [show (-e).toNat = 0 by omega, Nat.pow_zero]
  · rename_i he
    rw [show e.toNat = 0 by omega, Nat.pow_zero, Nat.mul_one]

/-- Zeros at the end of the digits raise the exponent. -/
theorem ofDecimal_mul_pow (negative : Bool) (n k : Nat) (e : Int) :
    ofDecimal negative (n * 10 ^ k) e = ofDecimal negative n (e + k) := by
  rcases Nat.eq_zero_or_pos n with rfl | hn
  · rw [Nat.zero_mul, ofDecimal_zero, ofDecimal_zero]
  have hk : 0 < n * 10 ^ k := Nat.mul_pos hn (Nat.pow_pos (by decide))
  have hsize : (digitCount (n * 10 ^ k) : Int) + e = digitCount n + (e + k) := by
    rw [digitCount, digitCount, length_digitsOfNat_mul_pow hn, Nat.cast_add]
    omega
  rcases Int.lt_or_le 310 ((digitCount n : Int) + (e + k)) with hu | hu
  · simp only [ofDecimal, hk.ne', hn.ne', ↓reduceIte, hsize, gt_iff_lt, hu]
  rcases Int.lt_or_le ((digitCount n : Int) + (e + k)) (-330) with hl | hl
  · simp only [ofDecimal, hk.ne', hn.ne', ↓reduceIte, hsize, gt_iff_lt, Int.not_lt.mpr hu, hl]
  rw [ofDecimal_eq_ofQuotient hk.ne' (hsize ▸ hu) (hsize ▸ hl),
    ofDecimal_eq_ofQuotient hn.ne' hu hl]
  have hpow : k + e.toNat + (-(e + k)).toNat = (e + k).toNat + (-e).toNat := by omega
  refine ofQuotient_eq_of_mul_eq (Nat.pow_pos (by decide)) (Nat.pow_pos (by decide)) ?_
  calc
    n * 10 ^ k * 10 ^ e.toNat * unitsPerOne * 10 ^ (-(e + k)).toNat
        = n * unitsPerOne * 10 ^ (k + e.toNat + (-(e + k)).toNat) := by
      rw [Nat.pow_add, Nat.pow_add]
      ring
    _ = n * 10 ^ (e + k).toNat * unitsPerOne * 10 ^ (-e).toNat := by
      rw [hpow, Nat.pow_add]
      ring

/-- A number of units, written with all its digits after the point, is read exactly. -/
theorem ofDecimal_units {m p : Nat} (h : Canonical m p) (hm : 0 < magnitudeUnits m p) :
    ofDecimal false (magnitudeUnits m p * 5 ^ 1074) (-(1074 : Nat)) = .finite false m p h := by
  have hlt : magnitudeUnits m p < 2 ^ 1074 * 10 ^ 310 := by
    have hp : 2 ^ p ≤ 2 ^ 2045 := Nat.pow_le_pow_right Nat.two_pos h.exponent_le
    exact Nat.lt_of_le_of_lt (Nat.mul_le_mul (Nat.le_of_lt h.significand_lt) hp) (by decide +kernel)
  have hpos : 0 < 5 ^ 1074 := Nat.pow_pos (by decide)
  have hn : magnitudeUnits m p * 5 ^ 1074 ≠ 0 := Nat.mul_ne_zero hm.ne' hpos.ne'
  have hu : digitCount (magnitudeUnits m p * 5 ^ 1074) ≤ 1384 := by
    refine (length_digitsOfNat_le_iff (by decide)).mpr ?_
    calc
      magnitudeUnits m p * 5 ^ 1074 < 2 ^ 1074 * 10 ^ 310 * 5 ^ 1074 :=
        Nat.mul_lt_mul_of_pos_right hlt hpos
      _ = 10 ^ 1384 := by decide +kernel
  have hl : ¬ digitCount (magnitudeUnits m p * 5 ^ 1074) ≤ 743 := by
    refine fun hle => Nat.not_le.mpr ((length_digitsOfNat_le_iff (by decide)).mp hle) ?_
    calc
      10 ^ 743 ≤ 1 * 5 ^ 1074 := by decide +kernel
      _ ≤ magnitudeUnits m p * 5 ^ 1074 := Nat.mul_le_mul_right _ hm
  rw [ofDecimal_eq_ofQuotient hn (by omega) (by omega), ← ofQuotient_magnitudeUnits h]
  refine ofQuotient_eq_of_mul_eq (Nat.pow_pos (by decide)) Nat.one_pos ?_
  rw [unitsPerOne_eq, show (-(1074 : Nat) : Int).toNat = 0 from rfl,
    show (-(-(1074 : Nat)) : Int).toNat = 1074 from rfl]
  generalize 1074 = k
  have hten : 10 ^ k = 5 ^ k * 2 ^ k := Nat.mul_pow 5 2 k
  rw [Nat.pow_zero, Nat.mul_one, Nat.mul_one, hten, Nat.mul_assoc]

/-! ## Numerals -/

/-- A numeral has digits, and they are decimal. -/
structure Numeral.WellFormed (n : Numeral) : Prop where
  ne_nil : n.digits ≠ []
  lt_ten : ∀ d ∈ n.digits, d < 10

def Numeral.read (n : Numeral) : Binary64 :=
  ofDecimal false (numberOf n.digits) (n.exponent + 1 - n.digits.length)

theorem exists_replicate_of_trimZeros (digits : List Nat) :
    ∃ k, digits = trimZeros digits ++ List.replicate k 0 := by
  refine ⟨(digits.reverse.takeWhile (· == 0)).length, ?_⟩
  have hz : digits.reverse.takeWhile (· == 0) =
      List.replicate (digits.reverse.takeWhile (· == 0)).length 0 :=
    List.eq_replicate_of_mem fun d hd => by simpa using List.mem_takeWhile_imp hd
  rw [trimZeros, ← List.reverse_replicate, ← hz, ← List.reverse_append,
    List.takeWhile_append_dropWhile, List.reverse_reverse]

/-- The numeral of a natural number times a power of ten. -/
theorem Numeral.trimmed {n : Nat} {e first : Int} (hn : 0 < n)
    (he : first = e + (digitsOfNat n).length - 1) :
    (Numeral.mk (trimZeros (digitsOfNat n)) first).WellFormed ∧
      (Numeral.mk (trimZeros (digitsOfNat n)) first).read = ofDecimal false n e := by
  obtain ⟨k, hk⟩ := exists_replicate_of_trimZeros (digitsOfNat n)
  have hnum : numberOf (trimZeros (digitsOfNat n)) * 10 ^ k = n := by
    have h := numberOf_digitsOfNat n
    rwa [hk, numberOf_append, numberOf_replicate_zero, List.length_replicate, Nat.add_zero] at h
  have hlen : (digitsOfNat n).length = (trimZeros (digitsOfNat n)).length + k := by
    rw [hk, List.length_append, List.length_replicate, ← hk]
  refine ⟨⟨?_, ?_⟩, ?_⟩
  · intro h0
    have hnil : trimZeros (digitsOfNat n) = [] := h0
    rw [hnil, numberOf_nil, Nat.zero_mul] at hnum
    exact hn.ne hnum
  · intro d hd
    refine lt_ten_of_mem_digitsOfNat (n := n) ?_
    rw [hk]
    exact List.mem_append_left _ hd
  · have hread : first + 1 - (trimZeros (digitsOfNat n)).length = e + k := by
      rw [he, hlen, Nat.cast_add]
      omega
    rw [Numeral.read, hread, ← ofDecimal_mul_pow, hnum]

/-! ## The shortest numeral -/

theorem ofDecimal_nearestOnGrid {x : Binary64} {a n : Nat} {scale : Int}
    (h : nearestOnGrid x a scale = some n) : 0 < n ∧ ofDecimal false n scale = x := by
  unfold nearestOnGrid at h
  dsimp only at h
  generalize (scaled a scale).1 / (scaled a scale).2 = low at h
  simp only [Bool.and_eq_true, decide_eq_true_eq] at h
  split_ifs at h with hboth hlow hhigh heven hlow hhigh
  · exact Option.some.inj h ▸ hboth.1
  · exact Option.some.inj h ▸ ⟨Nat.succ_pos low, hboth.2⟩
  · exact Option.some.inj h ▸ hboth.1
  · exact Option.some.inj h ▸ ⟨Nat.succ_pos low, hboth.2⟩
  · exact Option.some.inj h ▸ hlow
  · exact Option.some.inj h ▸ ⟨Nat.succ_pos low, hhigh⟩

theorem units_mul_div_unitsPerOne (units : Nat) :
    units * Nat.pow 10 1074 / unitsPerOne = units * 5 ^ 1074 := by
  refine Nat.div_eq_of_eq_mul_left unitsPerOne_pos ?_
  rw [unitsPerOne_eq]
  generalize 1074 = k
  rw [Nat.mul_assoc, ← Nat.mul_pow]
  rfl

theorem shortestFrom_read {m p : Nat} (h : Canonical m p) (hm : 0 < magnitudeUnits m p)
    (leading : Int) (used left : Nat) :
    (shortestFrom (.finite false m p h) (magnitudeUnits m p) leading used left).WellFormed ∧
      (shortestFrom (.finite false m p h) (magnitudeUnits m p) leading used left).read =
        .finite false m p h := by
  induction left generalizing used with
  | zero =>
    have hpos : 0 < magnitudeUnits m p * 5 ^ 1074 := Nat.mul_pos hm (Nat.pow_pos (by decide))
    rw [shortestFrom, units_mul_div_unitsPerOne, ← ofDecimal_units h hm]
    generalize magnitudeUnits m p * 5 ^ 1074 = n at *
    exact Numeral.trimmed hpos (by omega)
  | succ left ih =>
    rw [shortestFrom]
    split
    · rename_i n hn
      obtain ⟨hpos, hx⟩ := ofDecimal_nearestOnGrid hn
      rw [← hx]
      exact Numeral.trimmed hpos (by omega)
    · exact ih (used + 1)

/-- The shortest numeral of a number reads back as the number. -/
theorem shortest_read {m p : Nat} (h : Canonical m p) :
    (shortest m p h).WellFormed ∧ (shortest m p h).read = .finite false m p h := by
  unfold shortest
  dsimp only
  split
  · rename_i h0
    have hm : m = 0 := by
      rcases Nat.mul_eq_zero.mp h0 with hm | hp
      · exact hm
      · exact absurd hp (Nat.pow_pos (n := p) Nat.two_pos).ne'
    obtain rfl : p = 0 := by
      rcases h.normal with hn | hp
      · exact absurd hn (by rw [hm]; decide)
      · exact hp
    subst hm
    exact ⟨⟨by simp, by simp⟩, rfl⟩
  · rename_i h0
    exact shortestFrom_read h (Nat.pos_of_ne_zero h0) _ 1 17

end Vetting.Binary64
