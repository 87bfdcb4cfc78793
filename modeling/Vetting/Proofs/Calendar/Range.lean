import Mathlib.Tactic.Ring
import Vetting.Calendar.Reading
import Vetting.Proofs.Outcome
import Vetting.Proofs.Text.Digits

/-!
# The range of timestamps

A text that is read as a timestamp denotes an instant less than a day away from the years 1 to 9999.
-/

namespace Vetting.Calendar

open Text

/-! ## Days -/

theorem daysBeforeMonth_le (year : Int) {month : Nat} (h : month ≤ 12) : daysBeforeMonth year month ≤ 335 := by
  have hall : ∀ leap : Bool, ∀ month < 13,
      ((monthLengths leap).take (month - 1)).foldl (· + ·) 0 ≤ 335 := by decide
  exact hall (isLeap year) month (by omega)

theorem monthLength_le (year : Int) {month : Nat} (h : month ≤ 12) : monthLength year month ≤ 31 := by
  have hall : ∀ leap : Bool, ∀ month < 13, (monthLengths leap).getD (month - 1) 0 ≤ 31 := by decide
  exact hall (isLeap year) month (by omega)

/-- A date and a time of day whose parts are in range. -/
structure InRange (d : Date) (c : Clock) : Prop where
  year : 1 ≤ d.year ∧ d.year ≤ 9999
  month : 1 ≤ d.month ∧ d.month ≤ 12
  day : 1 ≤ d.day ∧ d.day ≤ monthLength d.year d.month
  hour : c.hour ≤ 23
  minute : c.minute ≤ 59
  second : c.second ≤ 59

section Range
variable {d : Date} {c : Clock}

theorem inRange_of_dateFault? (h : Timestamp.dateFault? d c = none) : InRange d c := by
  unfold Timestamp.dateFault? Timestamp.firstYear Timestamp.lastYear at h
  split_ifs at h
  constructor <;> omega

theorem InRange.number_bounds (h : InRange d c) : 1 ≤ d.number ∧ d.number ≤ 3652060 := by
  have hyear := h.year
  have hmonth := daysBeforeMonth_le d.year h.month.2
  have hday := h.day
  have hlength := monthLength_le d.year h.month.2
  unfold Date.number daysBeforeYear
  omega

theorem InRange.micros_lt (h : InRange d c) (hmicro : c.micro < microsPerSecond) :
    c.micros < microsPerDay := by
  obtain ⟨-, -, -, hhour, hminute, hsecond⟩ := h
  unfold Clock.micros microsPerDay secondsPerDay microsPerSecond at *
  omega

end Range

/-! ## Fractions of seconds -/

section Fractions
variable {points : List CodePoint} {length micro left : Nat} {parts found : List Nat} {more colons : Bool}

theorem natOfDigits_lt_pow {digits : List CodePoint} (h : digits.all isAsciiDigit = true) :
    natOfDigits digits < 10 ^ digits.length := by
  have hvalues : natOfDigits digits = numberOf (digits.map (· - 48)) := by
    rw [natOfDigits, numberOf, List.foldl_map]
  have hlength : digits.length = (digits.map (· - 48)).length := (List.length_map _).symm
  rw [hvalues, hlength]
  refine numberOf_lt fun d hd => ?_
  obtain ⟨c, hc, rfl⟩ := List.mem_map.mp hd
  have hdigit := List.all_eq_true.mp h c hc
  rw [isAsciiDigit, Bool.and_eq_true, decide_eq_true_eq, decide_eq_true_eq] at hdigit
  have hupper : c ≤ 57 := hdigit.2
  omega

theorem micro_lt_of_readFraction (h : readFraction points length = some (micro, more)) :
    micro < microsPerSecond := by
  rw [readFraction, Option.bind_eq_bind, Option.bind_eq_some_iff] at h
  obtain ⟨⟨n, rest⟩, htake, hmicro⟩ := h
  obtain ⟨rfl, -⟩ := Prod.mk.inj (Option.some.inj hmicro)
  rw [takeNumber] at htake
  split at htake
  · rename_i hdigits
    rw [Bool.and_eq_true, decide_eq_true_eq] at hdigits
    have hlt := natOfDigits_lt_pow hdigits.2
    rw [fractionMicros, hdigits.1] at *
    have hsix : 10 ^ min length 6 * 10 ^ (6 - min length 6) = microsPerSecond := by
      rw [← Nat.pow_add, Nat.add_sub_cancel' (Nat.min_le_right length 6)]
      rfl
    rw [← hsix]
    exact Nat.mul_lt_mul_of_pos_right hlt (Nat.pow_pos (by decide))
  · cases htake

theorem micro_lt_of_readClockFrom
    (h : readClockFrom points length parts colons left = some (found, micro, more)) :
    micro < microsPerSecond := by
  induction left generalizing points length parts colons with
  | zero =>
    rw [readClockFrom, Option.bind_eq_bind, Option.bind_eq_some_iff] at h
    obtain ⟨⟨micro', more'⟩, hfraction, hresult⟩ := h
    cases hresult
    exact micro_lt_of_readFraction hfraction
  | succ left ih =>
    rw [readClockFrom, Option.bind_eq_bind, Option.bind_eq_some_iff] at h
    obtain ⟨⟨part, rest⟩, -, h⟩ := h
    dsimp only at h
    generalize (if (parts ++ [part]).length = 1 then rest.head? == some colon else colons) = separated at h
    split_ifs at h
    · cases h
      decide
    · exact ih h
    · rw [Option.bind_eq_bind, Option.bind_eq_some_iff] at h
      obtain ⟨⟨micro', more'⟩, hfraction, hresult⟩ := h
      cases hresult
      exact micro_lt_of_readFraction hfraction
    · exact ih h

theorem micro_lt_of_readClock {c : Clock} (h : readClock points length = some (c, more)) :
    c.micro < microsPerSecond := by
  rw [readClock, Option.bind_eq_bind, Option.bind_eq_some_iff] at h
  obtain ⟨⟨found, micro, more'⟩, hclock, hresult⟩ := h
  cases hresult
  exact micro_lt_of_readClockFrom hclock

theorem micro_lt_of_readTime {c : Clock} {offset : Option Int} (h : readTime points = some (c, offset)) :
    c.micro < microsPerSecond := by
  rw [readTime, Option.bind_eq_bind, Option.bind_eq_some_iff] at h
  obtain ⟨⟨clock, more⟩, hclock, h⟩ := h
  have hlt := micro_lt_of_readClock hclock
  dsimp only at h
  split at h
  · split at h
    · cases h
    · cases h
      exact hlt
  · split at h
    · split at h
      · cases h
      · cases h
        exact hlt
    · rw [Option.bind_eq_some_iff] at h
      obtain ⟨⟨distance, more'⟩, -, h⟩ := h
      dsimp only at h
      split at h
      · cases h
      · cases h
        exact hlt

theorem micro_lt_of_readParts {d : Date} {c : Clock} {offset : Option Int}
    (h : readParts points = some (d, c, offset)) : c.micro < microsPerSecond := by
  rw [readParts, Option.bind_eq_bind, Option.bind_eq_some_iff] at h
  obtain ⟨date, -, h⟩ := h
  dsimp only at h
  split at h
  · cases h
    decide
  · split at h
    · cases h
    · rw [Option.bind_eq_bind, Option.bind_eq_some_iff] at h
      obtain ⟨⟨clock, offset'⟩, htime, h⟩ := h
      cases h
      exact micro_lt_of_readTime htime

end Fractions

/-! ## Instants -/

/-- A timestamp that is made of parts in range is in the calendar at its place, and its offset is less
than a day. -/
theorem Timestamp.instant_bounds_of_parts {d : Date} {c : Clock} {offset : Int} {t : Timestamp}
    (hmicro : c.micro < microsPerSecond)
    (h : (do checkOffset offset; Timestamp.ofParts d c offset) = Except.ok t) :
    -(microsPerDay : Int) < t.instant ∧ t.instant < 3652061 * microsPerDay := by
  obtain ⟨_, hoffset, hparts⟩ := bind_eq_ok_iff.mp h
  rw [checkOffset] at hoffset
  split at hoffset
  · rename_i hless
    rw [ofParts] at hparts
    split at hparts
    · cases hparts
    · rename_i hrange
      cases hparts
      have hd := (inRange_of_dateFault? hrange).number_bounds
      have hc := (inRange_of_dateFault? hrange).micros_lt hmicro
      have hday : (microsPerDay : Int) = 86400000000 := rfl
      simp only [instant, startOfDay, hday]
      omega
  · cases hoffset

theorem Timestamp.instant_bounds {text : Text} {t : Timestamp} (h : Timestamp.ofLooseText text = .ok t) :
    -(microsPerDay : Int) < t.instant ∧ t.instant < 3652061 * microsPerDay := by
  rw [ofLooseText, ofText] at h
  split at h
  · cases h
  · rename_i hparts
    exact instant_bounds_of_parts (micro_lt_of_readParts hparts) h

end Vetting.Calendar
