import Vetting.Proofs.Binary64.Layout
import Vetting.Proofs.Binary64.Nearest

/-!
# The notation of a number

The exponent of the shortest numeral of a number tells its magnitude, so the notation does too: from
`10^16` on a number is integral and has a positive exponent, and below it is written with digits and
a point, or with a negative exponent.
-/

namespace Vetting.Binary64

open Lexer Text

/-! ## Exponents and magnitudes -/

section Exponents
variable {n : Numeral}

/-- The first digit of a numeral is not zero. -/
def Numeral.Leads (n : Numeral) : Prop := 10 ^ (n.digits.length - 1) ≤ numberOf n.digits

theorem Numeral.trimmed_leads {n : Nat} (hn : 0 < n) (first : Int) :
    (Numeral.mk (trimZeros (digitsOfNat n)) first).Leads := by
  obtain ⟨k, hk⟩ := exists_replicate_of_trimZeros (digitsOfNat n)
  have hcount := pow_le_of_digitCount hn
  have hvalue := numberOf_digitsOfNat n
  unfold digitCount at hcount
  show 10 ^ ((trimZeros (digitsOfNat n)).length - 1) ≤ numberOf (trimZeros (digitsOfNat n))
  generalize trimZeros (digitsOfNat n) = digits at *
  rw [hk, List.length_append, List.length_replicate] at hcount
  rw [hk, numberOf_append, numberOf_replicate_zero, List.length_replicate, Nat.add_zero] at hvalue
  have hdigits : digits ≠ [] := by
    rintro rfl
    rw [numberOf_nil, Nat.zero_mul] at hvalue
    omega
  have hlength : digits.length + k - 1 = (digits.length - 1) + k := by
    have := List.length_pos_iff.mpr hdigits
    omega
  rw [← hvalue, hlength, Nat.pow_add] at hcount
  exact Nat.le_of_mul_le_mul_right hcount (Nat.pow_pos (by decide))

theorem shortestFrom_leads {m p : Nat} (h : Canonical m p) (hm : 0 < magnitudeUnits m p)
    (leading : Int) (used left : Nat) :
    (shortestFrom (.finite false m p h) (magnitudeUnits m p) leading used left).Leads := by
  induction left generalizing used with
  | zero =>
    have hpos (k : Nat) : 0 < magnitudeUnits m p * 5 ^ k := Nat.mul_pos hm (Nat.pow_pos (by decide))
    rw [shortestFrom, units_mul_div_unitsPerOne]
    exact Numeral.trimmed_leads (hpos 1074) _
  | succ left ih =>
    rw [shortestFrom]
    split
    · rename_i n hn
      exact Numeral.trimmed_leads (ofDecimal_nearestOnGrid hn).1 _
    · exact ih (used + 1)

theorem shortest_leads {m p : Nat} (h : Canonical m p) (hm : 0 < magnitudeUnits m p) :
    (shortest m p h).Leads := by
  unfold shortest
  dsimp only
  rw [if_neg hm.ne']
  exact shortestFrom_leads h hm _ 1 17

def Numeral.value (n : Numeral) : ℚ :=
  numberOf n.digits * 10 ^ (n.exponent + 1 - n.digits.length)

theorem Numeral.nearest_read (n : Numeral) : Nearest false n.value n.read := nearest_ofDecimal ..

theorem Numeral.value_lt (h : n.WellFormed) : n.value < 10 ^ (n.exponent + 1) := by
  have hten : (0 : ℚ) < 10 := by norm_num
  have hlt : (numberOf n.digits : ℚ) < 10 ^ (n.digits.length : Int) := by
    rw [zpow_natCast]
    exact_mod_cast numberOf_lt h.lt_ten
  calc
    n.value < 10 ^ (n.digits.length : Int) * 10 ^ (n.exponent + 1 - n.digits.length) :=
      mul_lt_mul_of_pos_right hlt (zpow_pos hten _)
    _ = 10 ^ (n.exponent + 1) := by
      rw [← zpow_add₀ hten.ne']
      congr 1
      omega

theorem Numeral.le_value (h : n.WellFormed) (hl : n.Leads) : 10 ^ n.exponent ≤ n.value := by
  have hten : (0 : ℚ) < 10 := by norm_num
  have hlength := List.length_pos_iff.mpr h.ne_nil
  have hle : (10 : ℚ) ^ ((n.digits.length - 1 : Nat) : Int) ≤ numberOf n.digits := by
    rw [zpow_natCast]
    exact_mod_cast hl
  calc
    (10 : ℚ) ^ n.exponent =
        10 ^ ((n.digits.length - 1 : Nat) : Int) * 10 ^ (n.exponent + 1 - n.digits.length) := by
      rw [← zpow_add₀ hten.ne']
      congr 1
      omega
    _ ≤ n.value := mul_le_mul_of_nonneg_right hle (zpow_pos hten _).le

end Exponents

/-! ## The greatest positional exponent -/

section Magnitude
variable {negative : Bool} {m p : Nat} {h : Canonical m p}

theorem canonical_10_16 : Canonical (5 * 10 ^ 15) 1075 := ⟨by decide, by decide, by decide⟩

theorem magnitudeUnits_10_16 : magnitudeUnits (5 * 10 ^ 15) 1075 = 10 ^ 16 * unitsPerOne := by
  rw [magnitudeUnits_eq_mul _ (show 1074 ≤ 1075 by decide), unitsPerOne_eq,
    show 5 * 10 ^ 15 * 2 ^ (1075 - 1074) = 10 ^ 16 by decide]

theorem magnitude_10_16 : magnitude (5 * 10 ^ 15) 1075 = 10 ^ (16 : Int) := by
  have hpow : ((10 ^ 16 : Nat) : ℚ) = 10 ^ (16 : Int) := by norm_num
  rw [magnitude, div_eq_iff cast_unitsPerOne_pos.ne', magnitudeUnits_10_16, Nat.cast_mul, hpow]

/-- A number is nearest to the value of its shortest numeral. -/
theorem nearest_shortest (h : Canonical m p) :
    Nearest false (shortest m p h).value (.finite false m p h) := by
  have hnearest := (shortest m p h).nearest_read
  rwa [(shortest_read h).2] at hnearest

theorem magnitude_le_of_exponent_le (he : (shortest m p h).exponent ≤ 15) :
    magnitude m p ≤ 10 ^ (16 : Int) := by
  rw [← magnitude_10_16]
  apply (nearest_shortest h).magnitude_le canonical_10_16
  rw [magnitude_10_16]
  exact (Numeral.value_lt (shortest_read h).1).le.trans (zpow_le_zpow_right₀ (by norm_num) (by omega))

theorem le_magnitude_of_lt_exponent (hm : 0 < magnitudeUnits m p)
    (he : 15 < (shortest m p h).exponent) : 10 ^ (16 : Int) ≤ magnitude m p := by
  rw [← magnitude_10_16]
  apply (nearest_shortest h).le_magnitude canonical_10_16
  rw [magnitude_10_16]
  calc
    (10 : ℚ) ^ (16 : Int) ≤ 10 ^ (shortest m p h).exponent :=
      zpow_le_zpow_right₀ (by norm_num) (by omega)
    _ ≤ (shortest m p h).value := Numeral.le_value (shortest_read h).1 (shortest_leads h hm)

/-- From `10^16` on a number has no fraction. -/
theorem exists_toInt?_of_le_magnitude (negative : Bool) (h : Canonical m p)
    (hle : 10 ^ (16 : Int) ≤ magnitude m p) :
    ∃ i, (finite negative m p h).toInt? = some i := by
  have hp : 1074 ≤ p := by
    by_contra hlt
    have hsmall := magnitudeUnits_lt h (Nat.not_le.mp hlt)
    rw [← unitsPerOne_eq] at hsmall
    rw [← magnitude_10_16, ← not_lt, magnitude_lt_iff, magnitudeUnits_10_16] at hle
    generalize unitsPerOne = u at *
    omega
  have hdvd : (unitsPerOne : Int) ∣ signed negative (magnitudeUnits m p) := by
    have hdvd : unitsPerOne ∣ magnitudeUnits m p := by
      rw [unitsPerOne_eq]
      exact (pow_dvd_pow 2 hp).mul_left m
    cases negative with
    | true => exact Int.dvd_neg.mpr (Int.natCast_dvd_natCast.mpr hdvd)
    | false => exact Int.natCast_dvd_natCast.mpr hdvd
  refine ⟨signed negative (magnitudeUnits m p) / unitsPerOne, ?_⟩
  simp only [toInt?, units?, Int.emod_eq_zero_of_dvd hdvd, ↓reduceIte]

theorem magnitude_of_toInt? {i : Int} (hi : (finite negative m p h).toInt? = some i) :
    magnitude m p = i.natAbs := by
  have hpos := cast_unitsPerOne_pos
  simp only [toInt?, units?] at hi
  split at hi
  · rename_i hu
    obtain rfl := Option.some.inj hi
    have hunits := Int.ediv_mul_cancel (Int.dvd_of_emod_eq_zero hu)
    have habs : (signed negative (magnitudeUnits m p)).natAbs = magnitudeUnits m p := by
      cases negative <;> simp [signed]
    have hmul := congrArg Int.natAbs hunits
    rw [Int.natAbs_mul, Int.natAbs_natCast, habs] at hmul
    rw [magnitude, div_eq_iff hpos.ne', ← Nat.cast_mul, Nat.cast_inj]
    exact hmul.symm
  · cases hi

end Magnitude

/-! ## Layouts -/

def Plain (t : Text) : Prop := ∀ c ∈ t.points, isAsciiDigit c = true ∨ c = 46

def Mantissa (t : Text) : Prop :=
  startsWithDigit t.points = true ∧
    ∃ parts : NumeralParts, parts.exponent = none ∧ parts.Writes t.points

def Marked (mark t : Text) : Prop :=
  ∃ mantissa exponent : Text, Mantissa mantissa ∧ Digits exponent.points ∧
    t = mantissa ++ mark ++ exponent

section Marked
variable {t mark mantissa exponent : Text}

theorem Mantissa.plain (h : Mantissa t) : Plain t := by
  obtain ⟨hstart, ⟨whole, fraction, _⟩, he, hw⟩ := h
  obtain ⟨a, hf, ht⟩ := hw.exists_fraction he
  intro c hc
  rw [ht] at hc
  rcases List.mem_append.mp hc with hwhole | hrest
  · exact .inl ((hw.digits_whole hstart).isDigit c hwhole)
  · cases hf with
    | absent => cases hrest
    | point hd =>
      rcases List.mem_cons.mp hrest with rfl | hfraction
      · exact .inr rfl
      · exact .inl (hd.isDigit c hfraction)

/-- Digits may be added to the end of a mantissa. -/
theorem Mantissa.append_digits (h : Mantissa mantissa) (hd : Digits exponent.points) :
    Mantissa (mantissa ++ exponent) := by
  obtain ⟨hstart, ⟨whole, fraction, _⟩, he, hw⟩ := h
  have hstart' : startsWithDigit (mantissa ++ exponent).points = true := by
    obtain ⟨points⟩ := mantissa
    cases points with
    | nil => cases hstart
    | cons c rest => exact hstart
  have hwhole := (hw.digits_whole hstart).isDigit
  obtain ⟨a, hf, ht⟩ := hw.exists_fraction he
  refine ⟨hstart', ?_⟩
  rw [points_append, ht]
  generalize exponent.points = digits at hd ⊢
  cases hf with
  | absent =>
    refine ⟨⟨whole ++ digits, none, none⟩, rfl, ?_⟩
    have hall : ∀ c ∈ whole ++ digits, isAsciiDigit c = true :=
      List.forall_mem_append.mpr ⟨hwhole, hd.isDigit⟩
    have key := NumeralParts.Writes.intro hall .absent .absent
    simpa using key
  | @point fraction hfd =>
    refine ⟨⟨whole, some (fraction ++ digits), none⟩, rfl, ?_⟩
    have hall : Digits (fraction ++ digits) :=
      ⟨List.append_ne_nil_of_left_ne_nil hfd.ne_nil _,
        List.forall_mem_append.mpr ⟨hfd.isDigit, hd.isDigit⟩⟩
    have key := NumeralParts.Writes.intro hwhole (.point hall) .absent
    simpa using key

theorem Marked.starts (h : Marked mark t) : startsWithDigit t.points = true := by
  obtain ⟨⟨points⟩, exponent, ⟨hstart, _⟩, _, rfl⟩ := h
  cases points with
  | nil => cases hstart
  | cons c rest => exact hstart

theorem Marked.mem {c : CodePoint} (h : Marked mark t) (hc : c ∈ mark.points) : c ∈ t.points := by
  obtain ⟨mantissa, exponent, _, _, rfl⟩ := h
  simp only [points_append, List.mem_append]
  exact .inl (.inr hc)

end Marked

section Layouts
variable {n : Numeral} {a b : Text} {digits : List Nat}

theorem Plain.append (ha : Plain a) (hb : Plain b) : Plain (a ++ b) := by
  intro c hc
  rcases List.mem_append.mp hc with hc | hc
  · exact ha c hc
  · exact hb c hc

theorem plain_digitsText (h : ∀ d ∈ digits, d < 10) : Plain (digitsText digits) :=
  fun c hc => .inl (isAsciiDigit_of_mem_map h c hc)

theorem plain_zerosText (k : Nat) : Plain (zerosText k) := by
  intro c hc
  obtain rfl := List.eq_of_mem_replicate hc
  exact .inl rfl

theorem plain_ofNat (k : Nat) : Plain (ofNat k) :=
  fun c hc => .inl (isAsciiDigit_of_mem_map (fun _ hd => lt_ten_of_mem_digitsOfNat hd) c hc)

theorem plain_point : Plain "." := by
  intro c hc
  obtain rfl := List.mem_singleton.mp hc
  exact .inr rfl

theorem plain_of_positional (layout : Layout) (h : n.WellFormed) (hl : layout.leastPositional ≤ n.exponent)
    (hg : n.exponent ≤ layout.greatestPositional) : Plain (layout.numeral n) := by
  have hstart : Plain "0." := by
    intro c hc
    rcases List.mem_cons.mp hc with rfl | hc
    · exact .inl rfl
    · exact plain_point c hc
  have hend : Plain ".0" := by
    intro c hc
    rcases List.mem_cons.mp hc with rfl | hc
    · exact .inr rfl
    · obtain rfl := List.mem_singleton.mp hc
      exact .inl rfl
  unfold Layout.numeral
  rw [if_pos (by rw [decide_eq_true hl, decide_eq_true hg]; rfl)]
  dsimp only
  split
  · exact (hstart.append (plain_zerosText _)).append (plain_digitsText h.lt_ten)
  · split
    · exact ((plain_digitsText h.lt_ten).append (plain_zerosText _)).append hend
    · refine ((plain_digitsText ?_).append plain_point).append (plain_digitsText ?_)
      · exact fun d hd => h.lt_ten d (List.mem_of_mem_take hd)
      · exact fun d hd => h.lt_ten d (List.mem_of_mem_drop hd)

theorem mantissa_digit {d : Nat} (hd : d < 10) : Mantissa (digitsText [d]) := by
  have hdigits : Digits (shown [d]) := digits_shown (List.cons_ne_nil d []) (by simpa using hd)
  have hw := NumeralParts.Writes.intro hdigits.isDigit .absent .absent
  rw [List.append_nil, List.append_nil] at hw
  have hstart := hdigits.startsWithDigit_append []
  rw [List.append_nil] at hstart
  exact ⟨hstart, _, rfl, hw⟩

theorem mantissa_point {d : Nat} (hd : d < 10) (hne : digits ≠ []) (hlt : ∀ d ∈ digits, d < 10) :
    Mantissa (digitsText [d] ++ "." ++ digitsText digits) := by
  have hdigits : Digits (shown [d]) := digits_shown (List.cons_ne_nil d []) (by simpa using hd)
  have hw := NumeralParts.Writes.intro hdigits.isDigit (.point (digits_shown hne hlt)) .absent
  rw [List.append_nil] at hw
  exact ⟨hdigits.startsWithDigit_append _, _, rfl, hw⟩

theorem marked_of_not_positional (layout : Layout) (h : n.WellFormed)
    (hp : ¬ (layout.leastPositional ≤ n.exponent ∧ n.exponent ≤ layout.greatestPositional)) :
    Marked (if n.exponent < 0 then "e-" else "e+") (layout.numeral n) := by
  have hcond : ¬ (decide (layout.leastPositional ≤ n.exponent) &&
      decide (n.exponent ≤ layout.greatestPositional)) = true := by
    rwa [Bool.and_eq_true, decide_eq_true_eq, decide_eq_true_eq]
  have hmark : ("e" : Text) ++ ofString (if n.exponent < 0 then "-" else "+") =
      if n.exponent < 0 then ofString "e-" else ofString "e+" := by
    split <;> rfl
  obtain ⟨digits, e⟩ := n
  obtain ⟨hne, hlt⟩ := h
  unfold Layout.numeral
  rw [if_neg hcond, ← hmark]
  have hexponent := digits_padNat layout.exponentDigits e.natAbs
  cases digits with
  | nil => exact absurd rfl hne
  | cons d rest =>
    obtain ⟨hd, hlt⟩ := List.forall_mem_cons.mp hlt
    cases rest with
    | nil =>
      refine ⟨digitsText [d], _, mantissa_digit hd, hexponent, ?_⟩
      exact congrArg (· ++ _) (Text.append_assoc _ _ _)
    | cons c rest =>
      refine ⟨_, _, mantissa_point hd (List.cons_ne_nil c rest) hlt, hexponent, ?_⟩
      exact congrArg (· ++ _) (Text.append_assoc _ _ _)

end Layouts
end Vetting.Binary64
