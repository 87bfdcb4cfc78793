import Vetting.Number
import Vetting.Proofs.Binary64.Nearest

/-!
# Adding one half

The sum of a finite number and one half is rounded before its floor is taken. The floor is not changed
by this as long as the last place of the number is at most one half, with one exception just below one
half. From `2^52` to `2^53` the sum lies in the middle of two numbers and goes to the even one, and
beyond it the number itself comes back.
-/

namespace Vetting.Binary64

variable {a c d e k j m p q r : Nat} {negative : Bool}

/-! ## The nearest multiple -/

theorem roundHalfEven_mul_add (hr : r < d) :
    roundHalfEven (q * d + r) d =
      if 2 * r < d then q else if d < 2 * r then q + 1 else if q % 2 = 0 then q else q + 1 := by
  have hd : 0 < d := Nat.zero_lt_of_lt hr
  have hquotient : (q * d + r) / d = q := by
    rw [Nat.mul_comm, Nat.mul_add_div hd, Nat.div_eq_of_lt hr, Nat.add_zero]
  have hrest : (q * d + r) % d = r := by rw [Nat.mul_comm, Nat.mul_add_mod, Nat.mod_eq_of_lt hr]
  simp only [roundHalfEven, hquotient, hrest]

theorem Fits.roundedUnits_eq (h : Fits a 1 e) : roundedUnits a 1 = roundHalfEven a (2 ^ e) * 2 ^ e := by
  rw [roundedUnits, h.unitExponent_eq Nat.one_pos, Nat.one_mul]

theorem fits_one_iff : Fits a 1 e ↔ a < 2 ^ 53 * 2 ^ e ∧ (e = 0 ∨ 2 ^ 52 * 2 ^ e ≤ a) := by
  rw [← Nat.pow_add, ← Nat.pow_add, Nat.add_comm 53, Nat.add_comm 52]
  constructor
  · rintro ⟨hlt, hle⟩
    exact ⟨by rwa [Nat.one_mul] at hlt, by rwa [Nat.one_mul] at hle⟩
  · rintro ⟨hlt, hle⟩
    exact ⟨by rwa [Nat.one_mul], by rwa [Nat.one_mul]⟩

/-! ## Bounds that have at most 53 bits -/

theorem mul_pow_le_of_lt (hk : k ≤ 2 ^ 53) (h : j < e) : k * 2 ^ j ≤ 2 ^ 52 * 2 ^ e := by
  calc
    k * 2 ^ j ≤ 2 ^ 53 * 2 ^ j := Nat.mul_le_mul_right _ hk
    _ = 2 ^ 52 * 2 ^ (j + 1) := by rw [Nat.pow_succ 2 j]; omega
    _ ≤ 2 ^ 52 * 2 ^ e := Nat.mul_le_mul_left _ (Nat.pow_le_pow_right Nat.two_pos h)

theorem mul_pow_eq (h : e ≤ j) : k * 2 ^ j = k * 2 ^ (j - e) * 2 ^ e := by
  rw [Nat.mul_assoc, ← Nat.pow_add, Nat.sub_add_cancel h]

/-- A number of units is rounded to a multiple of its last place. Unless that is one, it has 53 bits. -/
theorem exists_roundedUnits_eq (a : Nat) :
    ∃ e, roundedUnits a 1 = roundHalfEven a (2 ^ e) * 2 ^ e ∧ (e = 0 ∨ 2 ^ 52 * 2 ^ e ≤ a) := by
  have hfits := fits_unitExponent (a := a) Nat.one_pos
  exact ⟨unitExponent a 1, hfits.roundedUnits_eq, (fits_one_iff.mp hfits).2⟩

theorem roundedUnits_le (hk : k ≤ 2 ^ 53) (h : a ≤ k * 2 ^ j) : roundedUnits a 1 ≤ k * 2 ^ j := by
  obtain ⟨e, heq, hleast⟩ := exists_roundedUnits_eq a
  rw [heq]
  have he : 0 < 2 ^ e := Nat.two_pow_pos e
  rcases Nat.lt_or_ge j e with hlt | hge
  · have hbits : 2 ^ 52 * 2 ^ e ≤ a := hleast.resolve_left (by omega)
    have hbound : roundHalfEven a (2 ^ e) ≤ 2 ^ 52 :=
      roundHalfEven_le he (h.trans (mul_pow_le_of_lt hk hlt))
    exact (Nat.mul_le_mul_right _ hbound).trans (hbits.trans h)
  · rw [mul_pow_eq hge] at h ⊢
    exact Nat.mul_le_mul_right _ (roundHalfEven_le he h)

theorem le_roundedUnits (hk : k ≤ 2 ^ 53) (h : k * 2 ^ j ≤ a) : k * 2 ^ j ≤ roundedUnits a 1 := by
  obtain ⟨e, heq, hleast⟩ := exists_roundedUnits_eq a
  rw [heq]
  have he : 0 < 2 ^ e := Nat.two_pow_pos e
  rcases Nat.lt_or_ge j e with hlt | hge
  · have hbits : 2 ^ 52 * 2 ^ e ≤ a := hleast.resolve_left (by omega)
    exact (mul_pow_le_of_lt hk hlt).trans (Nat.mul_le_mul_right _ (le_roundHalfEven he hbits))
  · rw [mul_pow_eq hge] at h ⊢
    exact Nat.mul_le_mul_right _ (le_roundHalfEven he h)

/-- What has at most 53 bits is not rounded. -/
theorem roundedUnits_mul_pow (hk : k ≤ 2 ^ 53) : roundedUnits (k * 2 ^ j) 1 = k * 2 ^ j :=
  Nat.le_antisymm (roundedUnits_le hk (Nat.le_refl _)) (le_roundedUnits hk (Nat.le_refl _))

/-! ## Signed units -/

/-- The units of the number nearest to a number of units. -/
def nearestUnits (t : Int) : Int := signed (t < 0) (roundedUnits t.natAbs 1)

theorem signed_mul (negative : Bool) (n k : Nat) : signed negative (n * k) = signed negative n * k := by
  cases negative <;> simp [signed]

theorem nearestUnits_natCast (a : Nat) : nearestUnits a = roundedUnits a 1 := by
  simp [nearestUnits, signed]

theorem roundedUnits_zero : roundedUnits 0 1 = 0 := by
  simpa using roundedUnits_mul_pow (k := 0) (j := 0) (by decide)

theorem nearestUnits_neg_natCast (a : Nat) : nearestUnits (-a) = -(roundedUnits a 1 : Int) := by
  rcases Nat.eq_zero_or_pos a with rfl | ha
  · simp [nearestUnits, signed, roundedUnits_zero]
  · simp [nearestUnits, signed, ha]

theorem units?_ofUnits {zeroSign : Bool} {t : Int} (h : t.natAbs < overflow) :
    (ofUnits zeroSign t).units? = some (nearestUnits t) := by
  unfold ofUnits
  split
  · rename_i h0
    rw [h0, ← Int.natCast_zero, nearestUnits_natCast, roundedUnits_zero]
    cases zeroSign <;> rfl
  · obtain ⟨m, p, hc, heq, hunits, -⟩ :=
      exists_finite_ofQuotient (decide (t < 0)) Nat.one_pos (by rwa [Nat.mul_one])
    rw [heq, units?, hunits, nearestUnits]

/-! ## The sum with one half

One half is `2^c` units. -/

section Sum

/-- An integer and one half have the integer as their floor. -/
theorem mul_add_half_ediv (v : Int) :
    (v * (2 ^ (c + 1) : Nat) + (2 ^ c : Nat)) / (2 ^ (c + 1) : Nat) = v := by
  have hone : 2 ^ (c + 1) = 2 * 2 ^ c := Nat.pow_succ'
  have hpos : 0 < 2 ^ c := Nat.two_pow_pos c
  rw [Int.add_comm, Int.add_mul_ediv_right _ _ (by omega), Int.ediv_eq_zero_of_lt (by omega) (by omega),
    Int.zero_add]

/-- Between `2^53` last places and one half more, rounding leaves the floor as it is. -/
theorem roundedUnits_div_of_le_of_le (hp : p < c) (hc : c < p + 53) (hl : 2 ^ 53 * 2 ^ p ≤ a)
    (hu : a ≤ 2 ^ 53 * 2 ^ p + 2 ^ c) : roundedUnits a 1 / 2 ^ (c + 1) = a / 2 ^ (c + 1) := by
  have hfloor : 2 ^ (p + 52 - c) * 2 ^ (c + 1) = 2 ^ 53 * 2 ^ p := by
    rw [← Nat.pow_add, ← Nat.pow_add]
    congr 1
    omega
  have hplace : 2 ^ 52 + 2 ^ (c - p - 1) ≤ 2 ^ 53 := by
    have hpow : 2 ^ (c - p - 1) ≤ 2 ^ 52 := Nat.pow_le_pow_right Nat.two_pos (by omega)
    omega
  have hbound : (2 ^ 52 + 2 ^ (c - p - 1)) * 2 ^ (p + 1) = 2 ^ 53 * 2 ^ p + 2 ^ c := by
    rw [Nat.add_mul, ← Nat.pow_add, ← Nat.pow_add, ← Nat.pow_add]
    congr 2 <;> omega
  have hone : 2 ^ (c + 1) = 2 * 2 ^ c := Nat.pow_succ'
  have hpos : 0 < 2 ^ c := Nat.two_pow_pos c
  have hquotient {b : Nat} (hl : 2 ^ 53 * 2 ^ p ≤ b) (hu : b ≤ 2 ^ 53 * 2 ^ p + 2 ^ c) :
      b / 2 ^ (c + 1) = 2 ^ (p + 52 - c) := by
    refine Nat.div_eq_of_lt_le (by rwa [hfloor]) ?_
    rw [Nat.add_mul, hfloor]
    omega
  rw [hquotient hl hu, hquotient (le_roundedUnits (Nat.le_refl _) hl)]
  rw [← hbound] at hu ⊢
  exact roundedUnits_le hplace hu

/-- What is below one by a last place stays below one. -/
theorem roundedUnits_div_of_le (hc : 53 ≤ c) (h : a ≤ (2 ^ 53 - 1) * 2 ^ (c - 52)) :
    roundedUnits a 1 / 2 ^ (c + 1) = a / 2 ^ (c + 1) := by
  have hpos : 0 < 2 ^ (c - 52) := Nat.two_pow_pos _
  have hone : 2 ^ (c + 1) = 2 ^ 53 * 2 ^ (c - 52) := by
    rw [← Nat.pow_add]
    congr 1
    omega
  have hlt : (2 ^ 53 - 1) * 2 ^ (c - 52) < 2 ^ (c + 1) := by
    rw [hone]
    omega
  rw [Nat.div_eq_of_lt (Nat.lt_of_le_of_lt h hlt),
    Nat.div_eq_of_lt (Nat.lt_of_le_of_lt (roundedUnits_le (by decide) h) hlt)]

/-- Below one half, all numbers but the last one stay a last place below one when one half is added. -/
theorem mul_pow_add_half_le (hm : m < 2 ^ 53) (hc : p + 53 ≤ c) (hlast : p + 53 = c → m ≠ 2 ^ 53 - 1) :
    m * 2 ^ p + 2 ^ c ≤ (2 ^ 53 - 1) * 2 ^ (c - 52) := by
  have hbelow : m * 2 ^ p ≤ (2 ^ 53 - 2) * 2 ^ (c - 53) := by
    rcases Nat.lt_or_eq_of_le hc with hlt | heq
    · have hplace : p < c - 53 := by omega
      exact (mul_pow_le_of_lt (Nat.le_of_lt hm) hplace).trans (Nat.mul_le_mul_right _ (by decide))
    · have hmlast := hlast heq
      rw [← heq, Nat.add_sub_cancel]
      exact Nat.mul_le_mul_right _ (by omega)
  have hhalf : 2 ^ c = 2 ^ 53 * 2 ^ (c - 53) := by
    rw [← Nat.pow_add]
    congr 1
    omega
  have hplace : 2 ^ (c - 52) = 2 * 2 ^ (c - 53) := by
    rw [← Nat.pow_succ']
    congr 1
    omega
  rw [hhalf, hplace]
  omega

/-- The floor of a positive sum. -/
theorem roundedUnits_add_half_div (hm : m < 2 ^ 53) (hp : p ≤ c) (hc : 53 ≤ c)
    (hlast : p + 53 = c → m ≠ 2 ^ 53 - 1) :
    roundedUnits (m * 2 ^ p + 2 ^ c) 1 / 2 ^ (c + 1) = (m * 2 ^ p + 2 ^ c) / 2 ^ (c + 1) := by
  have hhalf : 2 ^ c = 2 ^ (c - p) * 2 ^ p := by rw [← Nat.pow_add, Nat.sub_add_cancel hp]
  rcases Nat.lt_or_ge c (p + 53) with hnear | hfar
  · rcases Nat.lt_or_ge (2 ^ 53) (m + 2 ^ (c - p)) with hmore | hbits
    · have hlt : p < c := by
        by_contra hge
        rw [Nat.sub_eq_zero_of_le (Nat.not_lt.mp hge)] at hmore
        omega
      have hlower : 2 ^ 53 * 2 ^ p ≤ m * 2 ^ p + 2 ^ c := by
        rw [hhalf, ← Nat.add_mul]
        exact Nat.mul_le_mul_right _ (Nat.le_of_lt hmore)
      have hupper : m * 2 ^ p + 2 ^ c ≤ 2 ^ 53 * 2 ^ p + 2 ^ c :=
        Nat.add_le_add_right (Nat.mul_le_mul_right _ (Nat.le_of_lt hm)) _
      exact roundedUnits_div_of_le_of_le hlt hnear hlower hupper
    · rw [hhalf, ← Nat.add_mul, roundedUnits_mul_pow hbits]
  · exact roundedUnits_div_of_le hc (mul_pow_add_half_le hm hfar hlast)

/-- The floor of the sum is not changed by its rounding if the last place of the number is at most one
half, unless the number is the last one below one half. -/
theorem nearestUnits_add_half_ediv (hm : m < 2 ^ 53) (hp : p ≤ c) (hc : 53 ≤ c)
    (hlast : negative = false → p + 53 = c → m ≠ 2 ^ 53 - 1) :
    nearestUnits (signed negative (m * 2 ^ p) + (2 ^ c : Nat)) / (2 ^ (c + 1) : Nat) =
      (signed negative (m * 2 ^ p) + (2 ^ c : Nat)) / (2 ^ (c + 1) : Nat) := by
  cases negative with
  | false =>
    have hsum : signed false (m * 2 ^ p) + (2 ^ c : Nat) = ((m * 2 ^ p + 2 ^ c : Nat) : Int) := rfl
    rw [hsum, nearestUnits_natCast]
    exact_mod_cast roundedUnits_add_half_div hm hp hc (hlast rfl)
  | true =>
    have hsum : signed true (m * 2 ^ p) = -((m * 2 ^ p : Nat) : Int) := rfl
    rcases Nat.le_total (m * 2 ^ p) (2 ^ c) with hle | hge
    · -- the sum and its rounding are at most one half
      obtain ⟨b, hb⟩ := Nat.exists_eq_add_of_le hle
      have hnat : -((m * 2 ^ p : Nat) : Int) + (2 ^ c : Nat) = (b : Nat) := by omega
      have hbound : b ≤ 1 * 2 ^ c := by omega
      have hrounded := roundedUnits_le (by decide) hbound
      have hone : 2 ^ (c + 1) = 2 * 2 ^ c := Nat.pow_succ'
      have hpos : 0 < 2 ^ c := Nat.two_pow_pos c
      rw [hsum, hnat, nearestUnits_natCast]
      norm_cast
      rw [Nat.div_eq_of_lt (by omega), Nat.div_eq_of_lt (by omega)]
    · have hdiff : m * 2 ^ p - 2 ^ c = (m - 2 ^ (c - p)) * 2 ^ p := by
        rw [Nat.sub_mul, ← Nat.pow_add, Nat.sub_add_cancel hp]
      have hneg : -((m * 2 ^ p : Nat) : Int) + (2 ^ c : Nat) = -((m * 2 ^ p - 2 ^ c : Nat) : Int) := by
        omega
      rw [hsum, hneg, nearestUnits_neg_natCast, hdiff, roundedUnits_mul_pow]
      exact (Nat.sub_le ..).trans (Nat.le_of_lt hm)

theorem roundedUnits_mul_add (hl : 2 ^ 52 ≤ q) (hu : q < 2 ^ 53) (hr : r < 2 ^ e) :
    roundedUnits (q * 2 ^ e + r) 1 =
      (if 2 * r < 2 ^ e then q else if 2 ^ e < 2 * r then q + 1 else if q % 2 = 0 then q else q + 1) *
        2 ^ e := by
  have hfits : Fits (q * 2 ^ e + r) 1 e := by
    refine fits_one_iff.mpr ⟨?_, .inr ?_⟩
    · have hsucc : (q + 1) * 2 ^ e ≤ 2 ^ 53 * 2 ^ e := Nat.mul_le_mul_right _ hu
      rw [Nat.succ_mul] at hsucc
      omega
    · exact (Nat.mul_le_mul_right _ hl).trans (Nat.le_add_right ..)
  rw [hfits.roundedUnits_eq, roundHalfEven_mul_add hr]

/-- In the middle of two numbers the even one is taken. -/
theorem roundedUnits_middle (hl : 2 ^ 52 ≤ q) (hu : q < 2 ^ 53) :
    roundedUnits (q * 2 ^ (c + 1) + 2 ^ c) 1 = (q + q % 2) * 2 ^ (c + 1) := by
  have hone : 2 ^ (c + 1) = 2 * 2 ^ c := Nat.pow_succ'
  have hpos : 0 < 2 ^ c := Nat.two_pow_pos c
  rw [roundedUnits_mul_add hl hu (by omega)]
  congr 1
  split_ifs <;> omega

/-- Just below one half the sum is rounded to one. -/
theorem nearestUnits_last_ediv (hp : p + 53 = c) :
    nearestUnits (signed false ((2 ^ 53 - 1) * 2 ^ p) + (2 ^ c : Nat)) / (2 ^ (c + 1) : Nat) =
      (signed false ((2 ^ 53 - 1) * 2 ^ p) + (2 ^ c : Nat)) / (2 ^ (c + 1) : Nat) + 1 := by
  have hplace : 2 ^ (p + 1) = 2 * 2 ^ p := Nat.pow_succ'
  have hhalf : 2 ^ c = 2 ^ 53 * 2 ^ p := by rw [← hp, Nat.add_comm, Nat.pow_add]
  have hone : 2 ^ (c + 1) = 2 ^ 54 * 2 ^ p := by rw [Nat.pow_succ', hhalf]; omega
  have hpos : 0 < 2 ^ p := Nat.two_pow_pos p
  have hexact : ((2 ^ 53 - 1) * 2 ^ (p + 1) + 2 ^ p) / 2 ^ (c + 1) = 0 := Nat.div_eq_of_lt (by omega)
  have hrounded : (2 ^ 53 - 1 + (2 ^ 53 - 1) % 2) * 2 ^ (p + 1) / 2 ^ (c + 1) = 1 :=
    Nat.div_eq_of_lt_le (by omega) (by omega)
  have hsum : signed false ((2 ^ 53 - 1) * 2 ^ p) + (2 ^ c : Nat) =
      (((2 ^ 53 - 1) * 2 ^ (p + 1) + 2 ^ p : Nat) : Int) := by
    rw [signed, if_neg Bool.false_ne_true]
    omega
  rw [hsum, nearestUnits_natCast, roundedUnits_middle (by decide) (by decide)]
  exact_mod_cast hrounded.trans (congrArg Nat.succ hexact.symm)

/-- From `2^52` to `2^53` the sum of an odd number is rounded to the next one. -/
theorem nearestUnits_middle_ediv (hl : 2 ^ 52 ≤ m) (hu : m < 2 ^ 53) :
    nearestUnits (signed negative (m * 2 ^ (c + 1)) + (2 ^ c : Nat)) / (2 ^ (c + 1) : Nat) =
      (signed negative (m * 2 ^ (c + 1)) + (2 ^ c : Nat)) / (2 ^ (c + 1) : Nat) + (m % 2 : Nat) := by
  have hone : 2 ^ (c + 1) = 2 * 2 ^ c := Nat.pow_succ'
  have hpos : 0 < 2 ^ c := Nat.two_pow_pos c
  have hunit : ((2 ^ (c + 1) : Nat) : Int) ≠ 0 := by omega
  rw [signed_mul, mul_add_half_ediv]
  cases negative with
  | false =>
    have hsum : signed false m * (2 ^ (c + 1) : Nat) + (2 ^ c : Nat) =
        ((m * 2 ^ (c + 1) + 2 ^ c : Nat) : Int) := rfl
    rw [hsum, nearestUnits_natCast, roundedUnits_middle hl hu, Int.natCast_mul,
      Int.mul_ediv_cancel _ hunit]
    rfl
  | true =>
    obtain ⟨k, rfl⟩ : ∃ k, m = k + 1 := ⟨m - 1, by omega⟩
    have hsum : signed true (k + 1) * (2 ^ (c + 1) : Nat) + (2 ^ c : Nat) =
        -((k * 2 ^ (c + 1) + 2 ^ c : Nat) : Int) := by
      rw [signed, if_pos rfl, hone]
      push_cast
      ring
    rcases Nat.lt_or_ge k (2 ^ 52) with hlt | hge
    · -- the sum is representable
      have hbits : k * 2 ^ (c + 1) + 2 ^ c = (2 * k + 1) * 2 ^ c := by rw [hone]; ring
      rw [hsum, nearestUnits_neg_natCast, hbits, roundedUnits_mul_pow (by omega), ← hbits, ← hsum,
        mul_add_half_ediv]
      omega
    · rw [hsum, nearestUnits_neg_natCast, roundedUnits_middle hge (by omega), Int.natCast_mul,
        ← Int.neg_mul, Int.mul_ediv_cancel _ hunit, signed, if_pos rfl]
      omega

/-- From `2^53` on the sum is rounded to the number itself. -/
theorem nearestUnits_large (hl : 2 ^ 52 ≤ m) (hu : m < 2 ^ 53) (hp : c + 1 < p) :
    nearestUnits (signed negative (m * 2 ^ p) + (2 ^ c : Nat)) = signed negative (m * 2 ^ p) := by
  have hquarter : 4 * 2 ^ c ≤ 2 ^ p := by
    have hpow : 2 ^ (c + 2) ≤ 2 ^ p := Nat.pow_le_pow_right Nat.two_pos hp
    rw [Nat.pow_succ', Nat.pow_succ'] at hpow
    omega
  have hpos : 0 < 2 ^ c := Nat.two_pow_pos c
  cases negative with
  | false =>
    have hsum : signed false (m * 2 ^ p) + (2 ^ c : Nat) = ((m * 2 ^ p + 2 ^ c : Nat) : Int) := rfl
    rw [hsum, nearestUnits_natCast, roundedUnits_mul_add hl hu (by omega), if_pos (by omega)]
    rfl
  | true =>
    have hle : 1 * 2 ^ p ≤ m * 2 ^ p := Nat.mul_le_mul_right _ (by omega)
    have hsum : signed true (m * 2 ^ p) + (2 ^ c : Nat) = -((m * 2 ^ p - 2 ^ c : Nat) : Int) := by
      rw [signed, if_pos rfl]
      omega
    rw [hsum, nearestUnits_neg_natCast, signed, if_pos rfl, Int.neg_inj, Int.natCast_inj]
    rcases Nat.lt_or_eq_of_le hl with hlt | rfl
    · obtain ⟨k, rfl⟩ : ∃ k, m = k + 1 := ⟨m - 1, by omega⟩
      have hbelow : (k + 1) * 2 ^ p - 2 ^ c = k * 2 ^ p + (2 ^ p - 2 ^ c) := by
        rw [Nat.succ_mul]
        omega
      rw [hbelow, roundedUnits_mul_add (by omega) (by omega) (by omega), if_neg (by omega),
        if_pos (by omega)]
    · -- below a power of two the places are half as large
      obtain ⟨e, rfl⟩ : ∃ e, p = e + 1 := ⟨p - 1, by omega⟩
      have hhalf : 2 ^ (e + 1) = 2 * 2 ^ e := Nat.pow_succ'
      have hbelow : 2 ^ 52 * 2 ^ (e + 1) - 2 ^ c = (2 ^ 53 - 1) * 2 ^ e + (2 ^ e - 2 ^ c) := by omega
      rw [hbelow, roundedUnits_mul_add (by decide) (by decide) (by omega), if_neg (by omega),
        if_neg (show ¬ (2 ^ 53 - 1) % 2 = 0 by decide), ite_self]
      omega

theorem nearestUnits_large_ediv (hl : 2 ^ 52 ≤ m) (hu : m < 2 ^ 53) (hp : c + 1 < p) :
    nearestUnits (signed negative (m * 2 ^ p) + (2 ^ c : Nat)) / (2 ^ (c + 1) : Nat) =
      (signed negative (m * 2 ^ p) + (2 ^ c : Nat)) / (2 ^ (c + 1) : Nat) := by
  have hunit : ((2 ^ (c + 1) : Nat) : Int) ≠ 0 := Int.natCast_ne_zero.mpr (Nat.two_pow_pos _).ne'
  rw [nearestUnits_large hl hu hp, mul_pow_eq hp.le, signed_mul, mul_add_half_ediv,
    Int.mul_ediv_cancel _ hunit]

end Sum

end Vetting.Binary64
