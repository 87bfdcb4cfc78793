import Mathlib.Order.Bounds.Basic
import Vetting.Function.Dated
import Vetting.Proofs.Binary64.Gap
import Vetting.Proofs.Calendar.Range
import Vetting.Proofs.Function.Rounding

/-!
# The days between two dates

A distance is rounded twice before it is rounded up, once as a number of seconds and once as a number of
days. The division by the seconds of a day does no harm. The seconds of a long distance have no place for
its last microseconds, and a distance that exceeds its whole days by no more than these is one day short.
-/

namespace Vetting.Dated

open Binary64 Calendar

/-- A distance in microseconds that exceeds its whole days, by less than half of the last place of their
seconds. -/
structure LosesExcess (distance : Nat) : Prop where
  exceeds : 0 < distance % microsPerDay
  less : distance % microsPerDay * 2 ^ 53 <
    2 ^ (distance / microsPerDay * secondsPerDay).log2 * microsPerSecond

instance (distance : Nat) : Decidable (LosesExcess distance) :=
  decidable_of_iff (0 < distance % microsPerDay ∧ distance % microsPerDay * 2 ^ 53 <
      2 ^ (distance / microsPerDay * secondsPerDay).log2 * microsPerSecond)
    ⟨fun ⟨a, b⟩ => ⟨a, b⟩, fun ⟨a, b⟩ => ⟨a, b⟩⟩

/-- The integers that, as numbers of days, are at least a distance in microseconds. -/
def daysCovering (distance : Nat) : Set Int := {k | distance ≤ k * microsPerDay}

def exactDays (distance : Nat) : Nat :=
  if 0 < distance % microsPerDay then distance / microsPerDay + 1 else distance / microsPerDay

/-- The number of days that is computed: an excess that is lost does not count. -/
def roundedDays (distance : Nat) : Nat :=
  if LosesExcess distance then distance / microsPerDay else exactDays distance

/-! ## Exact and rounded days -/

section Days
variable {distance : Nat}

theorem isLeast_exactDays (distance : Nat) : IsLeast (daysCovering distance) (exactDays distance) := by
  have hsplit := Nat.div_add_mod' distance microsPerDay
  have hmod := Nat.mod_lt distance (show 0 < microsPerDay by decide)
  unfold exactDays
  have hmem (k : Int) : k ∈ daysCovering distance ↔ (distance : Int) ≤ k * 86400000000 := Iff.rfl
  have hday : microsPerDay = 86400000000 := rfl
  rw [hday] at *
  constructor
  · rw [hmem]
    split <;> omega
  · intro k hk
    rw [hmem] at hk
    split <;> omega

theorem LosesExcess.whole_pos (h : LosesExcess distance) : 0 < distance / microsPerDay := by
  refine Nat.pos_of_ne_zero fun hzero => ?_
  have hless := h.less
  have hexceeds := h.exceeds
  rw [hzero, Nat.zero_mul, show Nat.log2 0 = 0 from rfl, Nat.pow_zero, Nat.one_mul] at hless
  unfold microsPerSecond at hless
  omega

theorem roundedDays_of_kept (h : ¬ LosesExcess distance) : roundedDays distance = exactDays distance := if_neg h

theorem LosesExcess.roundedDays_succ (h : LosesExcess distance) :
    roundedDays distance + 1 = exactDays distance := by
  rw [roundedDays, if_pos h, exactDays, if_pos h.exceeds]

theorem roundedDays_le (distance : Nat) : roundedDays distance ≤ exactDays distance := by
  by_cases h : LosesExcess distance
  · exact h.roundedDays_succ ▸ Nat.le_succ _
  · exact (roundedDays_of_kept h).le

theorem isLeast_roundedDays_iff :
    IsLeast (daysCovering distance) (roundedDays distance) ↔ ¬ LosesExcess distance := by
  constructor
  · intro hleast hlost
    have heq := hleast.unique (isLeast_exactDays distance)
    rw [← hlost.roundedDays_succ] at heq
    omega
  · intro hkept
    rw [roundedDays_of_kept hkept]
    exact isLeast_exactDays distance

theorem roundedDays_eq_zero_iff : roundedDays distance = 0 ↔ distance = 0 := by
  constructor
  · intro h
    by_cases hlost : LosesExcess distance
    · have hpos := hlost.whole_pos
      rw [roundedDays, if_pos hlost] at h
      omega
    · have hcover : (distance : Int) ≤ (exactDays distance : Int) * microsPerDay :=
        (isLeast_exactDays distance).1
      rw [← roundedDays_of_kept hlost, h] at hcover
      omega
  · rintro rfl
    rfl

/-- A distance over a way is covered by the days of its two parts. -/
theorem exactDays_le_add {first second : Nat} (h : distance ≤ first + second) :
    exactDays distance ≤ exactDays first + exactDays second := by
  have hfirst : (first : Int) ≤ exactDays first * microsPerDay := (isLeast_exactDays first).1
  have hsecond : (second : Int) ≤ exactDays second * microsPerDay := (isLeast_exactDays second).1
  have hcover : ((exactDays first + exactDays second : Nat) : Int) ∈ daysCovering distance := by
    show (distance : Int) ≤ _ * _
    rw [Nat.cast_add, add_mul]
    omega
  exact_mod_cast (isLeast_exactDays distance).2 hcover

/-- An excess is lost over more than 544 years only, and within the calendar it is at most 30 microseconds. -/
theorem LosesExcess.bounds (h : LosesExcess distance) (hlt : distance < 3652062 * microsPerDay) :
    2 ^ 34 * microsPerSecond ≤ distance ∧ distance % microsPerDay ≤ 30 := by
  have hpos : distance / microsPerDay * secondsPerDay ≠ 0 := (Nat.mul_pos h.whole_pos (by decide)).ne'
  have hwhole : distance / microsPerDay < 3652062 := Nat.div_lt_of_lt_mul (by rwa [Nat.mul_comm] at hlt)
  have hlog : (distance / microsPerDay * secondsPerDay).log2 < 39 := by
    rw [Nat.log2_lt hpos]
    exact (Nat.mul_lt_mul_of_pos_right hwhole (by decide)).trans (by decide)
  have hl := Nat.log2_self_le hpos
  obtain ⟨hexceeds, hless⟩ := h
  generalize (distance / microsPerDay * secondsPerDay).log2 = k at *
  unfold microsPerSecond at *
  have hk : 34 ≤ k := by
    by_contra hsmall
    have hpow : 2 ^ k ≤ 2 ^ 33 := Nat.pow_le_pow_right Nat.two_pos (by omega)
    omega
  have hupper : 2 ^ k ≤ 2 ^ 38 := Nat.pow_le_pow_right Nat.two_pos (by omega)
  refine ⟨?_, by omega⟩
  calc
    2 ^ 34 * 1000000 ≤ 2 ^ k * 1000000 :=
      Nat.mul_le_mul_right _ (Nat.pow_le_pow_right Nat.two_pos hk)
    _ ≤ distance / microsPerDay * secondsPerDay * 1000000 := Nat.mul_le_mul_right _ hl
    _ = distance / microsPerDay * microsPerDay := Nat.mul_assoc _ _ _
    _ ≤ distance := Nat.div_mul_le_self _ _

end Days

/-! ## The two roundings -/

theorem abs_ofQuotient (negative : Bool) (a d : Nat) : (ofQuotient negative a d).abs = ofQuotient false a d := by
  unfold ofQuotient
  dsimp only
  split <;> split <;> rfl

theorem secondsBetween_eq (first second : Int) :
    secondsBetween first second =
      ofQuotient false ((second - first).natAbs * unitsPerOne) microsPerSecond := by
  rw [secondsBetween, ofIntQuotient, abs_ofQuotient, Int.natAbs_natCast]

theorem ofQuotient_eq_finite {a d : Nat} (hd : 0 < d) (h : a < leastOverflowing * d) :
    ∃ m p hc, ofQuotient false (a * unitsPerOne) d = .finite false m p hc ∧
      Nearest false (a / d) (.finite false m p hc) := by
  have hlt : a * unitsPerOne < overflow * d := by
    rw [overflow_eq, Nat.mul_right_comm]
    exact Nat.mul_lt_mul_of_pos_right h unitsPerOne_pos
  obtain ⟨m, p, hc, heq, -⟩ := exists_finite_ofQuotient false hd hlt
  refine ⟨m, p, hc, heq, ?_⟩
  have hnearest : Nearest false ((a * unitsPerOne : Nat) / (d * unitsPerOne))
    (ofQuotient false (a * unitsPerOne) d) := nearest_ofQuotient hd
  rw [heq, Nat.cast_mul, mul_div_mul_right _ _ cast_unitsPerOne_pos.ne'] at hnearest
  exact hnearest

theorem exists_ofInt_secondsPerDay : ∃ m p hc, ofInt secondsPerDay = .finite false m p hc ∧
    magnitudeUnits m p = secondsPerDay * unitsPerOne := by
  have hlt : (secondsPerDay : Int).natAbs < leastOverflowing := by decide +kernel
  obtain ⟨m, p, hc, heq, hunits⟩ := exists_ofInt hlt
  refine ⟨m, p, hc, heq, ?_⟩
  rw [hunits, Int.natAbs_natCast, unitsPerOne_eq, roundedUnits_mul_pow (by decide)]

theorem div_secondsPerDay {m p : Nat} (hc : Canonical m p) :
    ∃ n e hn, (Binary64.finite false m p hc).div (ofInt secondsPerDay) = .finite false n e hn ∧
      Nearest false (magnitude m p / secondsPerDay) (.finite false n e hn) := by
  obtain ⟨k, j, hk, hday, hunits⟩ := exists_ofInt_secondsPerDay
  have hpos : 0 < secondsPerDay * unitsPerOne := Nat.mul_pos (by decide) unitsPerOne_pos
  have hlt : magnitudeUnits m p < leastOverflowing * (secondsPerDay * unitsPerOne) := by
    rw [Nat.mul_left_comm, ← overflow_eq]
    have hbelow := magnitudeUnits_add_half_lt hc
    have hsecond : overflow ≤ secondsPerDay * overflow := Nat.le_mul_of_pos_left _ (by decide)
    omega
  obtain ⟨n, e, hn, heq, hnearest⟩ := ofQuotient_eq_finite hpos hlt
  rw [Nat.cast_mul, div_mul_eq_div_div_swap] at hnearest
  refine ⟨n, e, hn, ?_, hnearest⟩
  rw [hday, Binary64.div, hunits]
  exact heq

/-! ## Long and short distances -/

section Distance
variable {distance m p n e : Nat} {hm : Canonical m p} {hn : Canonical n e}
  (hlt : distance < 2 ^ 24 * microsPerDay)
  (seconds : Nearest false (distance / microsPerSecond) (.finite false m p hm))
  (days : Nearest false (magnitude m p / secondsPerDay) (.finite false n e hn))

theorem cast_microsPerSecond_pos : (0 : ℚ) < microsPerSecond := by norm_num [microsPerSecond]

theorem cast_secondsPerDay_pos : (0 : ℚ) < secondsPerDay := by norm_num [secondsPerDay]

/-- The seconds of so many days are a number. -/
theorem mul_secondsPerDay_lt {k : Nat} (hk : k ≤ 2 ^ 24) : k * secondsPerDay < 2 ^ 52 := by
  unfold secondsPerDay
  omega

include seconds days in
theorem days_le {k : Nat} (hk : k ≤ 2 ^ 24) (h : distance ≤ k * microsPerDay) : magnitude n e ≤ k := by
  refine days.le_natCast (hk.trans_lt (by decide)) ?_
  rw [div_le_iff₀ cast_secondsPerDay_pos, ← Nat.cast_mul]
  refine seconds.le_natCast (mul_secondsPerDay_lt hk) ?_
  rw [div_le_iff₀ cast_microsPerSecond_pos, ← Nat.cast_mul, Nat.cast_le, Nat.mul_assoc]
  exact h

include seconds days in
theorem le_days {k : Nat} (hk : k ≤ 2 ^ 24) (h : k * microsPerDay ≤ distance) : k ≤ magnitude n e := by
  refine days.natCast_le (hk.trans_lt (by decide)) ?_
  rw [le_div_iff₀ cast_secondsPerDay_pos, ← Nat.cast_mul]
  refine seconds.natCast_le (mul_secondsPerDay_lt hk) ?_
  rw [le_div_iff₀ cast_microsPerSecond_pos, ← Nat.cast_mul, Nat.cast_le, Nat.mul_assoc]
  exact h

/-! ## The excess over whole days -/

theorem div_microsPerSecond_sub (distance : Nat) :
    (distance : ℚ) / microsPerSecond - (distance / microsPerDay * secondsPerDay : Nat) =
      (distance % microsPerDay : Nat) / microsPerSecond := by
  have hsplit : distance = distance / microsPerDay * secondsPerDay * microsPerSecond + distance % microsPerDay := by
    rw [Nat.mul_assoc]
    exact (Nat.div_add_mod' distance microsPerDay).symm
  have hcast : (distance : ℚ) = (distance / microsPerDay * secondsPerDay : Nat) * microsPerSecond +
      (distance % microsPerDay : Nat) := by exact_mod_cast hsplit
  rw [sub_eq_iff_eq_add, div_eq_iff cast_microsPerSecond_pos.ne', add_mul,
    div_mul_cancel₀ _ cast_microsPerSecond_pos.ne', add_comm]
  exact hcast

/-- Half of the last place of numbers of `k + 1` bits, in microseconds. -/
theorem half_place_lt_iff {k excess : Nat} (hk : k ≤ 53) :
    (excess : ℚ) / microsPerSecond < 1 / 2 ^ (53 - k) ↔ excess * 2 ^ 53 < 2 ^ k * microsPerSecond := by
  have hpow : 2 ^ 53 = 2 ^ (53 - k) * 2 ^ k := by rw [← Nat.pow_add, Nat.sub_add_cancel hk]
  rw [div_lt_div_iff₀ cast_microsPerSecond_pos (by positivity), one_mul, hpow, ← Nat.mul_assoc,
    Nat.mul_comm (2 ^ k), Nat.mul_lt_mul_right (Nat.two_pow_pos k)]
  exact_mod_cast Iff.rfl

/-- No whole number of microseconds is half of a last place. -/
theorem half_place_ne {k excess : Nat} (hk : k ≤ 46) : (excess : ℚ) / microsPerSecond ≠ 1 / 2 ^ (53 - k) := by
  rw [ne_eq, div_eq_div_iff cast_microsPerSecond_pos.ne' (by positivity), one_mul,
    show 53 - k = 46 - k + 7 by omega, pow_add, ← mul_assoc]
  have hodd : excess * 2 ^ (46 - k) * 2 ^ 7 ≠ microsPerSecond := by
    unfold microsPerSecond
    omega
  exact_mod_cast hodd

/-- The days have a finer last place than their seconds, even counted in days. -/
theorem half_place_lt_place {whole j k : Nat} (hl : 2 ^ k ≤ whole) (hu : whole * secondsPerDay < 2 ^ (j + 1))
    (hk : k ≤ 51) (hj : j ≤ 51) : (1 : ℚ) / 2 ^ (53 - k) < 1 / 2 ^ (52 - j) / secondsPerDay := by
  have hlt : secondsPerDay * 2 ^ (52 - j) < 2 ^ (53 - k) := by
    refine Nat.lt_of_mul_lt_mul_right (a := 2 ^ k) ?_
    calc
      secondsPerDay * 2 ^ (52 - j) * 2 ^ k ≤ secondsPerDay * 2 ^ (52 - j) * whole := Nat.mul_le_mul_left _ hl
      _ = whole * secondsPerDay * 2 ^ (52 - j) := by ring
      _ < 2 ^ (j + 1) * 2 ^ (52 - j) := Nat.mul_lt_mul_of_pos_right hu (Nat.two_pow_pos _)
      _ = 2 ^ (53 - k) * 2 ^ k := by
        rw [← Nat.pow_add, ← Nat.pow_add]
        congr 1
        omega
  rw [div_div, mul_comm]
  refine one_div_lt_one_div_of_lt (mul_pos cast_secondsPerDay_pos (by positivity)) ?_
  exact_mod_cast hlt

include hlt

theorem whole_lt : distance / microsPerDay < 2 ^ 24 := Nat.div_lt_of_lt_mul (by rwa [Nat.mul_comm] at hlt)

theorem log2_seconds_lt (hpos : 0 < distance / microsPerDay) :
    (distance / microsPerDay * secondsPerDay).log2 < 41 := by
  have hwhole := whole_lt hlt
  rw [Nat.log2_lt (Nat.mul_pos hpos (by decide)).ne']
  unfold secondsPerDay
  omega

include seconds days

/-- An excess that is lost is gone with the rounded seconds. -/
theorem LosesExcess.days_eq (h : LosesExcess distance) : magnitude n e = (distance / microsPerDay : Nat) := by
  have hpos : distance / microsPerDay * secondsPerDay ≠ 0 := (Nat.mul_pos h.whole_pos (by decide)).ne'
  have hlog := log2_seconds_lt hlt h.whole_pos
  have hseconds : magnitude m p = (distance / microsPerDay * secondsPerDay : Nat) := by
    refine seconds.eq_natCast (Nat.log2_self_le hpos) Nat.lt_log2_self (by omega) ?_ ?_
    · rw [← sub_nonneg, div_microsPerSecond_sub]
      positivity
    · rw [div_microsPerSecond_sub, half_place_lt_iff (by omega)]
      exact h.less
  have hquotient : magnitude m p / secondsPerDay = (distance / microsPerDay : Nat) := by
    rw [hseconds, Nat.cast_mul, mul_div_cancel_right₀ _ cast_secondsPerDay_pos.ne']
  have hwhole := whole_lt hlt
  refine le_antisymm (days.le_natCast (by omega) hquotient.le) (days.natCast_le (by omega) hquotient.ge)

omit hlt in
/-- What there is of less than a day is more than no days. -/
theorem days_pos (hexcess : 0 < distance % microsPerDay) (hzero : distance / microsPerDay = 0) :
    0 < magnitude n e := by
  have hsub := div_microsPerSecond_sub distance
  rw [hzero, Nat.zero_mul, Nat.cast_zero, sub_zero] at hsub
  have hsecond : 1 / 2 ^ 20 ≤ magnitude m p := by
    refine seconds.inv_two_pow_le (by decide) ?_
    rw [hsub, div_le_div_iff₀ (by positivity) cast_microsPerSecond_pos, one_mul]
    have hle : microsPerSecond ≤ distance % microsPerDay * 2 ^ 20 := by
      unfold microsPerSecond
      omega
    exact_mod_cast hle
  have hday : 1 / 2 ^ 37 ≤ magnitude n e := by
    refine days.inv_two_pow_le (by decide) ?_
    rw [le_div_iff₀ cast_secondsPerDay_pos]
    refine le_trans ?_ hsecond
    norm_num [secondsPerDay]
  exact lt_of_lt_of_le (by positivity) hday

omit days in
theorem lt_seconds (hexcess : 0 < distance % microsPerDay) (hkept : ¬ LosesExcess distance)
    (hpos : 0 < distance / microsPerDay) : (distance / microsPerDay * secondsPerDay : Nat) < magnitude m p := by
  have hseconds : distance / microsPerDay * secondsPerDay ≠ 0 := (Nat.mul_pos hpos (by decide)).ne'
  have hlog := log2_seconds_lt hlt hpos
  refine seconds.natCast_lt (Nat.log2_self_le hseconds) Nat.lt_log2_self (by omega) ?_
  rw [div_microsPerSecond_sub]
  refine lt_of_le_of_ne (not_lt.mp fun hless => hkept ⟨hexcess, ?_⟩) (half_place_ne (by omega)).symm
  exact (half_place_lt_iff (by omega)).mp hless

/-- An excess that is kept by the rounded seconds is kept by the days, which have a finer last place. -/
theorem lt_days (hexcess : 0 < distance % microsPerDay) (hkept : ¬ LosesExcess distance) :
    (distance / microsPerDay : Nat) < magnitude n e := by
  rcases Nat.eq_zero_or_pos (distance / microsPerDay) with hzero | hpos
  · rw [hzero, Nat.cast_zero]
    exact days_pos seconds days hexcess hzero
  · have hseconds : distance / microsPerDay * secondsPerDay ≠ 0 := (Nat.mul_pos hpos (by decide)).ne'
    have hlog := log2_seconds_lt hlt hpos
    have hu := Nat.lt_log2_self (n := distance / microsPerDay * secondsPerDay)
    have hplace := natCast_add_le_magnitude (Nat.log2_self_le hseconds) hu (by omega) hm
      (lt_seconds hlt seconds hexcess hkept hpos)
    have hwhole := Nat.log2_self_le hpos.ne'
    have hk : (distance / microsPerDay).log2 ≤ 51 := by
      have hbound := (Nat.log2_lt hpos.ne').mpr (whole_lt hlt)
      omega
    refine days.natCast_lt hwhole Nat.lt_log2_self hk ?_
    refine (half_place_lt_place hwhole hu hk (by omega)).trans_le ?_
    rw [le_sub_iff_add_le, le_div_iff₀ cast_secondsPerDay_pos, add_mul,
      div_mul_cancel₀ _ cast_secondsPerDay_pos.ne', add_comm, ← Nat.cast_mul]
    exact hplace

/-- The ceiling of the rounded days is exact but for an excess that is lost. -/
theorem ceil_days : ⌈magnitude n e⌉ = roundedDays distance := by
  have hwhole := whole_lt hlt
  have hsplit := Nat.div_add_mod' distance microsPerDay
  by_cases hlost : LosesExcess distance
  · rw [hlost.days_eq hlt seconds days, Int.ceil_natCast, roundedDays, if_pos hlost]
  · rw [roundedDays_of_kept hlost]
    rcases Nat.eq_zero_or_pos (distance % microsPerDay) with hzero | hexcess
    · have heq : magnitude n e = (distance / microsPerDay : Nat) :=
        le_antisymm (days_le seconds days hwhole.le (by omega)) (le_days seconds days hwhole.le (by omega))
      rw [heq, Int.ceil_natCast, exactDays, hzero, if_neg (Nat.lt_irrefl 0)]
    · have hunder : magnitude n e ≤ (distance / microsPerDay + 1 : Nat) := by
        refine days_le seconds days hwhole ?_
        have hmod := Nat.mod_lt distance (show 0 < microsPerDay by decide)
        rw [Nat.succ_mul]
        omega
      rw [exactDays, if_pos hexcess, Int.ceil_eq_iff, Int.cast_natCast]
      refine ⟨?_, hunder⟩
      rw [Nat.cast_succ, add_sub_cancel_right]
      exact lt_days hlt seconds days hexcess hlost

end Distance

/-! ## Days between instants -/

theorem value?_finite_false {m p : Nat} (hc : Canonical m p) :
    (Binary64.finite false m p hc).value? = some (magnitude m p) := by
  rw [value?_finite, signed, if_neg Bool.false_ne_true, Int.cast_natCast, magnitude]

/-- The computed days between two instants that are less than `2 ^ 24` days apart. -/
theorem ceil_div_secondsBetween {first second : Int}
    (hlt : (second - first).natAbs < 2 ^ 24 * microsPerDay) :
    Number.ceil (.float ((secondsBetween first second).div (ofInt secondsPerDay))) =
      .ok (roundedDays (second - first).natAbs) := by
  have hsmall : (second - first).natAbs < leastOverflowing * microsPerSecond := by
    refine hlt.trans ?_
    decide +kernel
  obtain ⟨m, p, hm, hseconds, seconds⟩ := ofQuotient_eq_finite (d := microsPerSecond) (by decide) hsmall
  obtain ⟨n, e, hn, hdays, days⟩ := div_secondsPerDay hm
  have hvalue : (Number.float (.finite false n e hn)).value? = some (magnitude n e) := value?_finite_false hn
  rw [secondsBetween_eq, hseconds, hdays, Number.ceil_eq hvalue, ceil_days hlt seconds days]

theorem toTimestamp_text {s : Text} {a : Timestamp} (h : Timestamp.ofLooseText s = .ok a) :
    toTimestamp (.text s) = .ok a := by
  rw [toTimestamp, h, ofCalendar]

section Texts
variable {s t : Text} {a b : Timestamp} (hs : Timestamp.ofLooseText s = .ok a)
  (ht : Timestamp.ofLooseText t = .ok b)
include hs ht

theorem distance_lt : (b.instant - a.instant).natAbs < 3652062 * microsPerDay := by
  have ha := Timestamp.instant_bounds hs
  have hb := Timestamp.instant_bounds ht
  unfold microsPerDay secondsPerDay microsPerSecond at *
  omega

theorem daysBetween_texts : daysBetween (.text s) (.text t) =
    .ok (.integer (roundedDays (b.instant - a.instant).natAbs)) := by
  have hlt : (b.instant - a.instant).natAbs < 2 ^ 24 * microsPerDay := (distance_lt hs ht).trans (by decide)
  refine bind_eq_ok_iff.mpr ⟨b, toTimestamp_text ht, bind_eq_ok_iff.mpr ⟨a, toTimestamp_text hs, ?_⟩⟩
  exact bind_eq_ok_iff.mpr ⟨_, ceil_div_secondsBetween hlt, rfl⟩

/-- The days between two dates are the same in both orders, and none only between equal instants. They
are the least number of days that is at least the distance of the instants exactly if no excess is lost,
and else one less; this happens over long distances and to a few microseconds only. Where nothing is
lost, a way over a third date is no shorter. -/
theorem daysBetween_is_exact_unless_lost :
    ∃ n : Nat, daysBetween (.text s) (.text t) = .ok (.integer n) ∧
      daysBetween (.text t) (.text s) = .ok (.integer n) ∧ (n = 0 ↔ a.instant = b.instant) ∧
      (IsLeast (daysCovering (b.instant - a.instant).natAbs) n ↔
        ¬ LosesExcess (b.instant - a.instant).natAbs) ∧
      (LosesExcess (b.instant - a.instant).natAbs →
        IsLeast (daysCovering (b.instant - a.instant).natAbs) (n + 1) ∧
          2 ^ 34 * microsPerSecond ≤ (b.instant - a.instant).natAbs ∧
          (b.instant - a.instant).natAbs % microsPerDay ≤ 30) ∧
      ∀ {u : Text} {c : Timestamp}, Timestamp.ofLooseText u = .ok c →
        ¬ LosesExcess (b.instant - a.instant).natAbs → ¬ LosesExcess (c.instant - b.instant).natAbs →
        ∃ m k : Nat, daysBetween (.text t) (.text u) = .ok (.integer m) ∧
          daysBetween (.text s) (.text u) = .ok (.integer k) ∧ k ≤ n + m := by
  have hsymm : (a.instant - b.instant).natAbs = (b.instant - a.instant).natAbs := by omega
  refine ⟨_, daysBetween_texts hs ht, ?_, ?_, isLeast_roundedDays_iff, fun hlost => ⟨?_, ?_⟩, ?_⟩
  · rw [daysBetween_texts ht hs, hsymm]
  · rw [roundedDays_eq_zero_iff]
    omega
  · have hsucc : (roundedDays (b.instant - a.instant).natAbs : Int) + 1 =
        exactDays (b.instant - a.instant).natAbs := by exact_mod_cast hlost.roundedDays_succ
    rw [hsucc]
    exact isLeast_exactDays _
  · exact hlost.bounds (distance_lt hs ht)
  · intro u c hu hfirst hsecond
    refine ⟨_, _, daysBetween_texts ht hu, daysBetween_texts hs hu, ?_⟩
    rw [roundedDays_of_kept hfirst, roundedDays_of_kept hsecond]
    exact (roundedDays_le _).trans (exactDays_le_add (by omega))

end Texts

/-- Thirty hours are two days. -/
theorem daysBetween_of_thirty_hours :
    Timestamp.ofLooseText "2024-01-01T00:00:00" = .ok ⟨63839664000000000, 0⟩ ∧
      Timestamp.ofLooseText "2024-01-02T06:00:00" = .ok ⟨63839772000000000, 0⟩ ∧
      ¬ LosesExcess 108000000000 ∧
      daysBetween (.text "2024-01-01T00:00:00") (.text "2024-01-02T06:00:00") = .ok (.integer 2) := by
  have hs : Timestamp.ofLooseText "2024-01-01T00:00:00" = .ok ⟨63839664000000000, 0⟩ := by decide +kernel
  have ht : Timestamp.ofLooseText "2024-01-02T06:00:00" = .ok ⟨63839772000000000, 0⟩ := by decide +kernel
  have hkept : ¬ LosesExcess 108000000000 := by decide +kernel
  obtain ⟨n, hn, -, -, hleast, -⟩ := daysBetween_is_exact_unless_lost hs ht
  have htwo : (n : Int) = 2 := (hleast.mpr hkept).unique (isLeast_exactDays 108000000000)
  refine ⟨hs, ht, hkept, ?_⟩
  rw [hn, htwo]

/-- A microsecond is lost over 599 years, and three more over 1200 years are kept only together with it. -/
theorem not_every_distance_is_rounded_up :
    (¬ ∀ {s t : Text} {a b : Timestamp} {n : Int}, Timestamp.ofLooseText s = .ok a →
        Timestamp.ofLooseText t = .ok b → daysBetween (.text s) (.text t) = .ok (.integer n) →
        IsLeast (daysCovering (b.instant - a.instant).natAbs) n) ∧
      ¬ ∀ {s t u : Text} {n m k : Int}, daysBetween (.text s) (.text t) = .ok (.integer n) →
        daysBetween (.text t) (.text u) = .ok (.integer m) →
        daysBetween (.text s) (.text u) = .ok (.integer k) → k ≤ n + m := by
  have hs : Timestamp.ofLooseText "0001-01-01" = .ok ⟨0, 0⟩ := by decide +kernel
  have ht : Timestamp.ofLooseText "0600-01-01T00:00:00.000001" = .ok ⟨18902592000000001, 0⟩ := by
    decide +kernel
  have hu : Timestamp.ofLooseText "1800-01-01T00:00:00.000004" = .ok ⟨56770934400000004, 0⟩ := by
    decide +kernel
  constructor
  · intro h
    have hlost : LosesExcess 18902592000000001 := by decide +kernel
    exact isLeast_roundedDays_iff.mp (h hs ht (daysBetween_texts hs ht)) hlost
  · intro h
    have hfirst : roundedDays 18902592000000001 = 218780 := by decide +kernel
    have hsecond : roundedDays 37868342400000003 = 438291 := by decide +kernel
    have hwhole : roundedDays 56770934400000004 = 657072 := by decide +kernel
    have hle : (roundedDays 56770934400000004 : Int) ≤
        roundedDays 18902592000000001 + roundedDays 37868342400000003 :=
      h (daysBetween_texts hs ht) (daysBetween_texts ht hu) (daysBetween_texts hs hu)
    omega

end Vetting.Dated
