import Vetting.Proofs.Binary64.Notation
import Vetting.Proofs.Coercion.WellFormed

/-!
# The texts of numbers coerced

Strict coercion keeps the canonical text of a number or reads the number back. Flexible coercion leaves
out what cannot stand in a numeral before it reads, so it does the same unless the text has an exponent
with a plus sign, which binary64 numbers have from `10^21` on: there the digits of the exponent join
those of the mantissa.
-/

namespace Vetting.Coercion

open Lexer Text Binary64

/-! ## Texts without an exponent -/

section Plain
variable {parts : NumeralParts} {t : Text} {points : List CodePoint}

theorem isNumeralPoint_of_plain (ht : Plain t) : ∀ c ∈ t.points, isNumeralPoint c = true := by
  intro c hc
  unfold isNumeralPoint
  rcases ht c hc with h | rfl
  · rw [h]
    rfl
  · rfl

theorem filter_signText (negative : Bool) (t : Text) :
    (signText negative ++ t).points.filter isNumeralPoint =
      (signText negative ++ (Text.mk (t.points.filter isNumeralPoint))).points := by
  rw [points_append, List.filter_append]
  cases negative <;> rfl

/-- A numeral of digits and points has no exponent. -/
theorem exponent_eq_none_of_plain (hw : parts.Writes t.points) (ht : Plain t) :
    parts.exponent = none := by
  generalize hpoints : t.points = points at hw
  cases hw with
  | @intro whole a b fraction exponent _ _ he =>
    cases exponent with
    | none => rfl
    | some e =>
      obtain ⟨mark, rest, rfl, hm⟩ := exists_mark_of_writesExponent he
      have hmem : mark ∈ t.points := by
        rw [hpoints]
        simp
      simp only [isExponentMark, Bool.or_eq_true, decide_eq_true_eq] at hm
      rcases ht mark hmem with h | rfl
      · rcases hm with rfl | rfl <;> cases h
      · rcases hm with hm | hm <;> cases hm

theorem asciiDigit?_of_digits {digits : List CodePoint} (h : ∀ c ∈ digits, isAsciiDigit c = true) :
    ∀ c ∈ digits, asciiDigit? c = some (c - 48) := by
  intro c hc
  rw [asciiDigit?, if_pos (h c hc)]

/-- A numeral without an exponent is a loose one. -/
theorem looseNumeral?_of_writes (negative : Bool) (hstart : startsWithDigit t.points = true)
    (hw : parts.Writes t.points) (he : parts.exponent = none) :
    looseNumeral? (signText negative ++ t).points =
      some ⟨negative, valuesOf parts.whole, parts.fraction.map valuesOf⟩ := by
  obtain ⟨a, hf, ht⟩ := hw.exists_fraction he
  have hwhole := hw.digits_whole hstart
  have hempty := isEmpty_valuesOf hwhole
  unfold looseNumeral?
  rw [takeSign_append negative hstart, ht]
  dsimp only
  generalize parts.fraction = fraction at hf ⊢
  cases hf with
  | absent =>
    rw [takeDigits_append (asciiDigit?_of_digits hwhole.isDigit) (by simp)]
    simp [hempty]
  | @point digits hd =>
    have hpoint : ∀ c ∈ (46 :: digits).head?, asciiDigit? c = none := by
      intro c hc
      obtain rfl := Option.some.inj hc
      rfl
    have htail : takeDigits asciiDigit? (digits ++ []) = (valuesOf digits, []) :=
      takeDigits_append (asciiDigit?_of_digits hd.isDigit) (by simp)
    rw [List.append_nil] at htail
    rw [takeDigits_append (asciiDigit?_of_digits hwhole.isDigit) hpoint]
    simp [htail, hempty]

/-- A numeral that has a number has the same one as a loose numeral, if it is a finite one. -/
theorem looseNumber_of_number {numeral : Numeral} {n : Number} (h : numeral.number = .ok n)
    (hfinite : ∀ i, n = .integer i → i.natAbs < leastOverflowing) : looseNumber numeral = .ok n := by
  obtain ⟨negative, whole, fraction⟩ := numeral
  cases fraction with
  | some fraction => exact h
  | none =>
    have hread := h
    simp only [Numeral.number] at hread
    split at hread
    · cases hread
    rw [Except.ok.injEq] at hread
    have hbound := hfinite _ hread.symm
    have hmagnitude : numberOfDigits whole < leastOverflowing := by
      cases negative with
      | true => rwa [if_pos rfl, Int.natAbs_neg, Int.natAbs_natCast] at hbound
      | false => exact hbound
    have hnot : (ofDecimal negative (numberOfDigits whole) 0).isInfinite = false := by
      rw [Bool.eq_false_iff, ne_eq, (nearest_ofDecimal ..).isInfinite_iff, not_le, zpow_zero, mul_one]
      exact_mod_cast hmagnitude
    simp only [looseNumber, hnot, Bool.false_eq_true, ↓reduceIte]
    exact h

end Plain

/-! ## Texts that are no numerals -/

section Names
variable {t : Text} {c : CodePoint} {points : List CodePoint} {p : CodePoint → Bool}

theorem mem_dropWhile (hc : c ∈ points) (hp : p c = false) : c ∈ points.dropWhile p := by
  rw [← List.takeWhile_append_dropWhile (p := p) (l := points)] at hc
  rcases List.mem_append.mp hc with h | h
  · rw [List.mem_takeWhile_imp h] at hp
    cases hp
  · exact h

theorem mem_trimPoints (hc : c ∈ points) (hp : p c = false) : c ∈ trimPoints p points := by
  unfold trimPoints
  rw [List.mem_reverse]
  apply mem_dropWhile _ hp
  rw [List.mem_reverse]
  exact mem_dropWhile hc hp

theorem mem_lowerPoints (hc : c ∈ points) (hlower : ∀ before after,
    CodePoint.lowerBetween before c after = [c]) (before : List CodePoint) :
    c ∈ lowerPoints before points := by
  induction points generalizing before with
  | nil => cases hc
  | cons d points ih =>
    rw [lowerPoints]
    apply List.mem_append.mpr
    rcases List.mem_cons.mp hc with rfl | hc
    · left
      rw [hlower]
      exact List.mem_cons_self
    · exact .inr (ih hc _)

/-- A digit is no blank and has no other case. -/
theorem isBlank_digit (h : isAsciiDigit c = true) : CodePoint.isBlank c = false := by
  have hall : ∀ c < 58, 48 ≤ c → CodePoint.isBlank c = false := by decide +kernel
  simp only [isAsciiDigit, Bool.and_eq_true, decide_eq_true_eq] at h
  exact hall c (Nat.lt_succ_of_le h.2) h.1

theorem lowerBetween_digit (h : isAsciiDigit c = true) (before after : List CodePoint) :
    CodePoint.lowerBetween before c after = [c] := by
  have hall : ∀ c < 58, 48 ≤ c → c ≠ CodePoint.capitalSigma ∧ CodePoint.toLower c = [c] := by
    decide +kernel
  simp only [isAsciiDigit, Bool.and_eq_true, decide_eq_true_eq] at h
  obtain ⟨hsigma, hlower⟩ := hall c (Nat.lt_succ_of_le h.2) h.1
  rw [CodePoint.lowerBetween, if_neg hsigma, hlower]

/-- A text with a digit names no boolean. -/
theorem booleanNamed?_of_digit (hc : c ∈ t.points) (hdigit : isAsciiDigit c = true) :
    booleanNamed? t = none := by
  have hmem : c ∈ t.trim.toLower.points :=
    mem_lowerPoints (mem_trimPoints hc (isBlank_digit hdigit)) (lowerBetween_digit hdigit) []
  unfold booleanNamed?
  dsimp only
  split
  · rename_i h
    rw [h] at hmem
    have hall : ∀ c ∈ (ofString "true").points, isAsciiDigit c = false := by decide
    rw [hall c hmem] at hdigit
    cases hdigit
  · split
    · rename_i h
      rw [h] at hmem
      have hall : ∀ c ∈ (ofString "false").points, isAsciiDigit c = false := by decide
      rw [hall c hmem] at hdigit
      cases hdigit
    · rfl

/-- A loose numeral has a minus sign at its front only. -/
theorem not_mem_of_looseNumeral? {numeral : Numeral} (h : looseNumeral? points = some numeral) :
    45 ∉ (takeSign points).2 := by
  have hsign {digits : List CodePoint} (hd : ∀ c ∈ digits, (asciiDigit? c).isSome = true) :
      45 ∉ digits := fun hmem => absurd (hd 45 hmem) (by decide)
  unfold looseNumeral? at h
  generalize takeSign points = signed at h ⊢
  obtain ⟨negative, points⟩ := signed
  obtain ⟨whole, rest, rfl, hw, htake⟩ := exists_takeDigits asciiDigit? points
  simp only [htake] at h
  show 45 ∉ whole ++ rest
  rw [List.mem_append, not_or]
  refine ⟨hsign hw, ?_⟩
  split at h
  · exact List.not_mem_nil
  · rename_i rest
    obtain ⟨digits, ending, rfl, hd, htake⟩ := exists_takeDigits asciiDigit? rest
    simp only [htake, Option.ite_none_left_eq_some, not_or, not_not] at h
    obtain ⟨⟨rfl, _⟩, _⟩ := h
    rw [List.append_nil, List.mem_cons, not_or]
    exact ⟨by decide, hsign hd⟩
  · cases h

end Names

/-! ## The canonical text of a number -/

/-- Binary64 numbers from `10^21` on, in either direction. -/
def Large : Number → Prop
  | .float (.finite _ m p _) => (10 : ℚ) ^ 21 ≤ magnitude m p
  | _ => False

/-- Numbers that are not large, and whose nearest binary64 number is finite. -/
def Moderate : Number → Prop
  | .integer i => i.natAbs < leastOverflowing
  | n => ¬ Large n

/-- A text kept as it is, or the number with this text. -/
def Faithful (n : Number) (t : Text) (outcome : Except Fault Value) : Prop :=
  outcome = .ok (.text t) ∨ ∃ m, outcome = .ok (.number m) ∧ Number.equal m n = true

section Texts
variable {n : Number} {m p : Nat} {hc : Canonical m p}

/-- How the magnitude of a binary64 number that is not written as an integer is written. -/
theorem notation_of_magnitude (negative : Bool) (hpos : 0 < magnitudeUnits m p)
    (hi : ∀ i, (finite negative m p hc).toInt? = some i → ¬ i.natAbs < Number.integralLimit) :
    let t := Number.expressionLayout.numeral (shortest m p hc)
    (¬ (10 : ℚ) ^ 21 ≤ magnitude m p ∧ (Plain t ∨ Marked "e-" t)) ∨
      ((10 : ℚ) ^ 21 ≤ magnitude m p ∧ Marked "e+" t) := by
  intro t
  have hwf := (shortest_read hc).1
  rcases Int.lt_or_le 15 (shortest m p hc).exponent with he | he
  · right
    have hge := le_magnitude_of_lt_exponent hpos he
    obtain ⟨i, htoInt⟩ := exists_toInt?_of_le_magnitude negative hc hge
    constructor
    · rw [magnitude_of_toInt? htoInt]
      exact_mod_cast Nat.not_lt.mp (hi i htoInt)
    · have hmarked := marked_of_not_positional Number.expressionLayout hwf
        (fun h => absurd h.2 (Int.not_le.mpr he))
      rwa [if_neg (by omega)] at hmarked
  · left
    constructor
    · have hle := magnitude_le_of_exponent_le he
      rw [not_le]
      exact hle.trans_lt (by norm_num)
    · rcases Int.lt_or_le (shortest m p hc).exponent (-4) with hlow | hlow
      · right
        have hmarked := marked_of_not_positional Number.expressionLayout hwf
          (fun h => absurd h.1 (Int.not_le.mpr hlow))
        rwa [if_pos (by omega)] at hmarked
      · exact .inl (plain_of_positional _ hwf hlow he)

/-- The text of a large number is marked with a plus sign, any other is not. -/
theorem notation_of_encodable (h : n.Encodable) :
    (¬ Large n ∧ (Plain n.reread.magnitudeText ∨ Marked "e-" n.reread.magnitudeText)) ∨
      (Large n ∧ Marked "e+" n.reread.magnitudeText) := by
  cases h with
  | integer h => exact .inl ⟨id, .inl (plain_ofNat _)⟩
  | @float negative m p hc =>
    cases hi : (finite negative m p hc).toInt? with
    | none =>
      rw [Number.reread_float_of_none hi]
      apply notation_of_magnitude negative
      · apply Nat.pos_of_ne_zero
        intro h0
        have hzero : signed negative 0 = 0 := by cases negative <;> rfl
        rw [toInt?, units?, h0, hzero] at hi
        dsimp only at hi
        rw [Int.zero_emod, if_pos rfl] at hi
        cases hi
      · intro i h
        rw [hi] at h
        cases h
    | some i =>
      have hmagnitude := magnitude_of_toInt? hi
      rw [Number.reread_float_of_some hi]
      by_cases hlt : i.natAbs < Number.integralLimit
      · rw [if_pos hlt]
        refine .inl ⟨?_, .inl (plain_ofNat _)⟩
        show ¬ (10 : ℚ) ^ 21 ≤ magnitude m p
        rw [hmagnitude, not_le]
        exact_mod_cast hlt
      · rw [if_neg hlt]
        apply notation_of_magnitude negative
        · apply Nat.pos_of_ne_zero
          intro h0
          have hzero : magnitude m p = 0 := by rw [magnitude, h0, Nat.cast_zero, zero_div]
          rw [hzero, eq_comm, Nat.cast_eq_zero] at hmagnitude
          rw [hmagnitude] at hlt
          exact hlt (by decide)
        · intro j hj
          rw [hi, Option.some.injEq] at hj
          exact hj ▸ hlt

end Texts

/-! ## Texts with an exponent -/

section Marked
variable {t mark mantissa exponent : Text}

theorem exists_digit_of_startsWithDigit (h : startsWithDigit t.points = true) :
    ∃ c ∈ t.points, isAsciiDigit c = true := by
  obtain ⟨points⟩ := t
  cases points with
  | nil => cases h
  | cons c rest => exact ⟨c, List.mem_cons_self, h⟩

theorem wellFormed_of_mantissa (negative : Bool) (h : Mantissa t) :
    WellFormed (signText negative ++ t).points := by
  obtain ⟨hstart, ⟨whole, fraction, _⟩, he, hw⟩ := h
  obtain ⟨a, hf, ht⟩ := hw.exists_fraction he
  rw [points_append, ht]
  refine ⟨negative, whole, fraction, hw.digits_whole hstart, ?_, ?_⟩
  · intro digits hm
    cases hf with
    | absent => cases hm
    | point hd => exact Option.some.inj hm ▸ hd
  · cases negative <;> cases hf <;> rfl

/-- A minus sign in the exponent keeps flexible coercion from reading a number. -/
theorem flexible_of_minus (negative : Bool) (h : Marked "e-" t) :
    flexible (.text (signText negative ++ t)) = .ok (.text (signText negative ++ t)) := by
  have hstart := h.starts
  obtain ⟨c, hc, hdigit⟩ := exists_digit_of_startsWithDigit hstart
  have hboolean : booleanNamed? (signText negative ++ t) = none := by
    refine booleanNamed?_of_digit ?_ hdigit
    exact List.mem_append_right _ hc
  have hfiltered : startsWithDigit (t.points.filter isNumeralPoint) = true := by
    obtain ⟨points⟩ := t
    cases points with
    | nil => cases hstart
    | cons c rest =>
      have hc : isAsciiDigit c = true := hstart
      have hpoint : isNumeralPoint c = true := by simp [isNumeralPoint, hc]
      show startsWithDigit ((c :: rest).filter isNumeralPoint) = true
      rw [List.filter_cons_of_pos hpoint]
      exact hc
  have hloose : looseNumeral? ((signText negative ++ t).points.filter isNumeralPoint) = none := by
    rw [filter_signText, ← Option.not_isSome_iff_eq_none]
    intro hsome
    obtain ⟨numeral, hnumeral⟩ := Option.isSome_iff_exists.mp hsome
    have hnot := not_mem_of_looseNumeral? hnumeral
    rw [takeSign_append negative (t := ⟨t.points.filter isNumeralPoint⟩) hfiltered] at hnot
    apply hnot
    exact List.mem_filter.mpr ⟨h.mem (by decide), rfl⟩
  simp only [flexible, hloose, hboolean]

/-- Without its plus sign the exponent is read with the mantissa. -/
theorem flexible_of_plus (negative : Bool) (hm : Mantissa mantissa) (hd : Digits exponent.points) :
    flexible (.text (signText negative ++ mantissa ++ "e+" ++ exponent)) =
      flexible (.text (signText negative ++ mantissa ++ exponent)) := by
  have hjoined := hm.append_digits hd
  obtain ⟨hstart, parts, he, hw⟩ := hjoined
  have hnumeral := looseNumeral?_of_writes negative hstart hw he
  have hkept : (signText negative ++ (mantissa ++ exponent)).points.filter isNumeralPoint =
      (signText negative ++ (mantissa ++ exponent)).points := by
    rw [filter_signText, List.filter_eq_self.mpr]
    exact isNumeralPoint_of_plain (hm.append_digits hd).plain
  have hdropped : (signText negative ++ mantissa ++ "e+" ++ exponent).points.filter isNumeralPoint =
      (signText negative ++ (mantissa ++ exponent)).points.filter isNumeralPoint := by
    have hmark : (ofString "e+").points.filter isNumeralPoint = [] := by decide
    simp only [points_append, List.filter_append, hmark, List.append_assoc, List.nil_append]
  rw [← hkept] at hnumeral
  have hmarked := hnumeral
  rw [← hdropped] at hmarked
  rw [Text.append_assoc (signText negative) mantissa exponent]
  simp only [flexible, hmarked, hnumeral]

end Marked

/-! ## Reading the text of a number -/

section Reread
variable {r : Number}

theorem strict_of_plain (h : r.Encodable) (ht : Plain r.magnitudeText) :
    strict (.text (signText r.isNegative ++ r.magnitudeText)) .number = .ok (.number r) := by
  obtain ⟨hstart, parts, hw, hn⟩ := h.magnitude
  have he := exponent_eq_none_of_plain hw ht
  have hnumeral := strictNumeral?_of_writes r.isNegative hstart hw
  rw [he] at hnumeral
  rw [strict_text, hnumeral]
  dsimp only
  rw [number_of_parts r.isNegative hn he, h.neg_abs]
  rfl

theorem flexible_of_plain (h : r.Encodable) (ht : Plain r.magnitudeText)
    (hfinite : ∀ i, r = .integer i → i.natAbs < leastOverflowing) :
    flexible (.text (signText r.isNegative ++ r.magnitudeText)) = .ok (.number r) := by
  obtain ⟨hstart, parts, hw, hn⟩ := h.magnitude
  have he := exponent_eq_none_of_plain hw ht
  have hnumber := number_of_parts r.isNegative hn he
  rw [h.neg_abs] at hnumber
  have hkept : (signText r.isNegative ++ r.magnitudeText).points.filter isNumeralPoint =
      (signText r.isNegative ++ r.magnitudeText).points := by
    rw [filter_signText, List.filter_eq_self.mpr (isNumeralPoint_of_plain ht)]
  simp only [flexible, hkept, looseNumeral?_of_writes r.isNegative hstart hw he,
    looseNumber_of_number hnumber hfinite]
  rfl

theorem strict_of_marked (h : r.Encodable) {mark : Text} (ht : Marked mark r.magnitudeText)
    (hmark : 101 ∈ mark.points) :
    strict (.text (signText r.isNegative ++ r.magnitudeText)) .number =
      .ok (.text (signText r.isNegative ++ r.magnitudeText)) := by
  obtain ⟨hstart, parts, hw, hn⟩ := h.magnitude
  have hnumeral := strictNumeral?_of_writes r.isNegative hstart hw
  cases he : parts.exponent with
  | none =>
    have hplain := Mantissa.plain ⟨hstart, parts, he, hw⟩
    rcases hplain 101 (ht.mem hmark) with h | h <;> cases h
  | some e =>
    rw [he] at hnumeral
    rw [strict_text, hnumeral]

end Reread

theorem toText_number {n : Number} (h : n.Encodable) :
    (Value.number n).toText = .ok (signText n.reread.isNegative ++ n.reread.magnitudeText) :=
  h.format_eq

theorem Moderate.not_large {n : Number} (h : Moderate n) : ¬ Large n := by
  cases n with
  | integer i => exact id
  | float x => exact h

theorem integralLimit_lt_leastOverflowing : Number.integralLimit < leastOverflowing := by
  decide +kernel

theorem Moderate.natAbs_lt {n : Number} {i : Int} (h : Moderate n) (hr : n.reread = .integer i) :
    i.natAbs < leastOverflowing := by
  cases n with
  | integer j =>
    cases hr
    exact h
  | float x =>
    cases hi : x.toInt? with
    | none =>
      rw [Number.reread_float_of_none hi] at hr
      cases hr
    | some j =>
      rw [Number.reread_float_of_some hi] at hr
      split at hr
      · rename_i hlt
        cases hr
        exact hlt.trans integralLimit_lt_leastOverflowing
      · cases hr

/-- Strict coercion keeps the text of a number or reads an equal number. Flexible coercion of a moderate
number does so too, and agrees with strict coercion; of a large number it reads the text without the
mark and the sign of the exponent. -/
theorem number_text_keeps_its_number_unless_large {n : Number} (h : n.Encodable) :
    ∃ t, (Value.number n).toText = .ok t ∧ Faithful n t (strict (.text t) .number) ∧
      (Moderate n → Faithful n t (flexible (.text t)) ∧
        ∀ k, strict (.text t) .number = .ok (.number k) →
          ∃ l, flexible (.text t) = .ok (.number l) ∧ Number.equal l k = true) ∧
      (Large n → ∃ mantissa exponent : Text, t = mantissa ++ "e+" ++ exponent ∧
        WellFormed mantissa.points ∧ Digits exponent.points ∧
        strict (.text t) .number = .ok (.text t) ∧
        flexible (.text t) = flexible (.text (mantissa ++ exponent))) := by
  have hequal := Value.equal_reread_number h
  have hself : Number.equal n.reread n.reread = true := by
    have hr := h.reread
    generalize n.reread = r at hr
    cases hr <;> exact Value.number_equal_of_place rfl rfl
  refine ⟨_, toText_number h, ?_⟩
  rcases notation_of_encodable h with ⟨hsmall, hplain | hmarked⟩ | ⟨hlarge, hmarked⟩
  · have hstrict := strict_of_plain h.reread hplain
    refine ⟨.inr ⟨_, hstrict, hequal⟩, ?_, fun hlarge => absurd hlarge hsmall⟩
    intro hmoderate
    have hflexible := flexible_of_plain h.reread hplain fun i hi => hmoderate.natAbs_lt hi
    refine ⟨.inr ⟨_, hflexible, hequal⟩, ?_⟩
    intro k hk
    rw [hstrict] at hk
    cases hk
    exact ⟨_, hflexible, hself⟩
  · have hstrict := strict_of_marked h.reread hmarked (by decide)
    refine ⟨.inl hstrict, ?_, fun hlarge => absurd hlarge hsmall⟩
    intro _
    refine ⟨.inl (flexible_of_minus _ hmarked), ?_⟩
    intro k hk
    rw [hstrict] at hk
    cases hk
  · have hstrict := strict_of_marked h.reread hmarked (by decide)
    refine ⟨.inl hstrict, fun hmoderate => absurd hlarge hmoderate.not_large, ?_⟩
    intro _
    obtain ⟨mantissa, exponent, hm, hd, ht⟩ := hmarked
    rw [ht] at hstrict ⊢
    refine ⟨signText n.reread.isNegative ++ mantissa, exponent, ?_, wellFormed_of_mantissa _ hm, hd,
      hstrict, ?_⟩
    · simp only [Text.append_assoc]
    · have key := flexible_of_plus n.reread.isNegative hm hd
      simp only [Text.append_assoc] at key ⊢
      exact key

theorem number_text_keeps_its_number_of_googol :
    (Number.integer (10 ^ 100)).Encodable ∧ Moderate (.integer (10 ^ 100)) ∧
      ∃ t, (Value.number (.integer (10 ^ 100))).toText = .ok t ∧
        Faithful (.integer (10 ^ 100)) t (flexible (.text t)) := by
  have h : (Number.integer (10 ^ 100)).Encodable := by
    have hlimit : 100 < Fault.digitLimit := by decide
    refine .integer ?_
    unfold Number.unwritable
    generalize Fault.digitLimit = limit at *
    exact Nat.pow_lt_pow_right (by decide) hlimit
  have hmoderate : Moderate (.integer (10 ^ 100)) := by
    show (10 ^ 100 : Int).natAbs < leastOverflowing
    decide +kernel
  obtain ⟨t, ht, _, hflexible, _⟩ := number_text_keeps_its_number_unless_large h
  exact ⟨h, hmoderate, t, ht, (hflexible hmoderate).1⟩

/-! ## A text that is read as another number -/

theorem flexible_of_sextillion : flexible (.text "1e+21") = .ok (.number (.integer 121)) := by
  have hbound : (121 : Int).natAbs < leastOverflowing := by decide +kernel
  have hnumber : Numeral.number ⟨false, [1, 2, 1], none⟩ = .ok (.integer 121) := by rfl
  have hloose : looseNumeral? ((ofString "1e+21").points.filter isNumeralPoint) =
      some ⟨false, [1, 2, 1], none⟩ := by rfl
  have hread := looseNumber_of_number hnumber fun i hi => by cases hi; exact hbound
  simp only [flexible, hloose, hread]
  rfl

/-- The text of `10^21` is read as 121. -/
theorem not_every_number_text_keeps_its_number :
    ¬ ∀ (n : Number) (t : Text), n.Encodable → (Value.number n).toText = .ok t →
      Faithful n t (flexible (.text t)) := by
  intro hall
  have hfinite : (ofDecimal false 1 21).isInfinite = false := by decide +kernel
  have hencodable : (Number.float (ofDecimal false 1 21)).Encodable := by
    rcases Coercion.encodable_or_infinite false 1 21 with h | ⟨sign, h⟩
    · exact h
    · rw [h] at hfinite
      cases hfinite
  have hformat : (Number.float (ofDecimal false 1 21)).format.toOption = some "1e+21" := by
    decide +kernel
  have htext : (Value.number (.float (ofDecimal false 1 21))).toText = .ok "1e+21" := by
    show (Number.float (ofDecimal false 1 21)).format = .ok "1e+21"
    cases h : (Number.float (ofDecimal false 1 21)).format with
    | error f =>
      rw [h] at hformat
      cases hformat
    | ok t =>
      rw [h] at hformat
      exact congrArg Except.ok (Option.some.inj hformat)
  rcases hall _ _ hencodable htext with h | ⟨m, h, hequal⟩
  · rw [flexible_of_sextillion] at h
    cases h
  · rw [flexible_of_sextillion] at h
    cases h
    have hdiffer : Number.equal (.integer 121) (.float (ofDecimal false 1 21)) = false := by
      decide +kernel
    rw [hdiffer] at hequal
    cases hequal

end Vetting.Coercion
