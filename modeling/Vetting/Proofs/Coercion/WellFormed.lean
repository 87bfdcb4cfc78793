import Vetting.Proofs.Binary64.Nearest
import Vetting.Proofs.Coercion.Repetition

/-!
# Well-formed number texts

Strict coercion reads the number that a well-formed text denotes, a fraction rounded once. It also reads
texts that are not well-formed: digits of other scripts, and a line feed at the end. Every other text
stays as it is.
-/

namespace Vetting.Coercion

open Lexer Text Binary64

/-- A minus sign if any, digits, and a point with digits if any. -/
def numeralPoints (negative : Bool) (whole : List CodePoint) (fraction : Option (List CodePoint)) :
    List CodePoint :=
  (if negative then [45] else []) ++ (whole ++ (fraction.map (46 :: ·)).getD [])

/-- Texts of ASCII digits with a sign and a fraction at most. -/
def WellFormed (points : List CodePoint) : Prop :=
  ∃ negative whole fraction, Digits whole ∧ (∀ digits ∈ fraction, Digits digits) ∧
    points = numeralPoints negative whole fraction

/-- Digits of any script. -/
structure AnyDigits (digits : List CodePoint) : Prop where
  ne_nil : digits ≠ []
  isDecimal : ∀ c ∈ digits, CodePoint.isDecimal c = true

/-- Texts that fall short of being well-formed by the script of a digit or by a line feed at the end. -/
def Irregular (points : List CodePoint) : Prop :=
  ¬ WellFormed points ∧ ∃ negative whole fraction ending, AnyDigits whole ∧
    (∀ digits ∈ fraction, AnyDigits digits) ∧ (ending = [] ∨ ending = [10]) ∧
    points = numeralPoints negative whole fraction ++ ending

/-- The number that a well-formed text denotes. -/
inductive Denotes : List CodePoint → Number → Prop
  | integer (negative : Bool) {whole : List CodePoint} (hw : Digits whole) :
      Denotes (numeralPoints negative whole none) (.integer (signed negative (natOfDigits whole)))
  | rounded (negative : Bool) {whole digits : List CodePoint} {x : Binary64} (hw : Digits whole)
      (hf : Digits digits)
      (hx : Nearest negative (natOfDigits whole + natOfDigits digits / 10 ^ digits.length) x) :
      Denotes (numeralPoints negative whole (some digits)) (.float x)

/-! ## Digits of any script -/

def anyValues (digits : List CodePoint) : List Nat := digits.filterMap CodePoint.decimalValue?

section Digits
variable {digits rest : List CodePoint}

theorem isDecimal_of_isAsciiDigit {c : CodePoint} (h : isAsciiDigit c = true) :
    CodePoint.isDecimal c = true := by
  rw [CodePoint.isDecimal, CodePoint.decimalValue?_of_isAsciiDigit h]
  rfl

theorem AnyDigits.of_digits (h : Digits digits) : AnyDigits digits :=
  ⟨h.ne_nil, fun c hc => isDecimal_of_isAsciiDigit (h.isDigit c hc)⟩

theorem anyValues_of_digits (h : Digits digits) : anyValues digits = valuesOf digits :=
  filterMap_eq_valuesOf (decimalValue?_of_digits h)

theorem length_anyValues (h : ∀ c ∈ digits, CodePoint.isDecimal c = true) :
    (anyValues digits).length = digits.length := by
  induction digits with
  | nil => rfl
  | cons c digits ih =>
    obtain ⟨hc, hd⟩ := List.forall_mem_cons.mp h
    obtain ⟨d, hd'⟩ := Option.isSome_iff_exists.mp hc
    rw [anyValues, List.filterMap_cons, hd', List.length_cons, List.length_cons]
    exact congrArg (· + 1) (ih hd)

theorem AnyDigits.isEmpty (h : AnyDigits digits) : (anyValues digits).isEmpty = false := by
  rw [List.isEmpty_eq_false_iff, ← List.length_pos_iff, length_anyValues h.isDecimal,
    List.length_pos_iff]
  exact h.ne_nil

theorem takeDigits_any (hd : ∀ c ∈ digits, CodePoint.isDecimal c = true)
    (hr : ∀ c ∈ rest.head?, CodePoint.isDecimal c = false) :
    takeDigits CodePoint.decimalValue? (digits ++ rest) = (anyValues digits, rest) := by
  apply takeDigits_span hd
  intro c hc
  exact Option.not_isSome_iff_eq_none.mp (Bool.eq_false_iff.mp (hr c hc))

theorem anyDigits_of_isEmpty (hd : ∀ c ∈ digits, CodePoint.isDecimal c = true)
    (h : ¬ (anyValues digits).isEmpty = true) : AnyDigits digits := by
  refine ⟨?_, hd⟩
  rintro rfl
  exact h rfl

end Digits

/-! ## What is read as a numeral -/

section Reading
variable {negative : Bool} {whole ending points : List CodePoint} {fraction : Option (List CodePoint)}

theorem takeSign_numeralPoints (hw : AnyDigits whole) (fraction : Option (List CodePoint))
    (ending : List CodePoint) :
    takeSign (numeralPoints negative whole fraction ++ ending) =
      (negative, whole ++ ((fraction.map (46 :: ·)).getD [] ++ ending)) := by
  unfold numeralPoints
  rw [List.append_assoc, List.append_assoc]
  cases negative with
  | true => rfl
  | false =>
    obtain ⟨hne, hd⟩ := hw
    cases whole with
    | nil => exact absurd rfl hne
    | cons c whole =>
      have hc : c ≠ 45 := by
        rintro rfl
        exact absurd (hd 45 List.mem_cons_self) (by decide)
      show takeSign (c :: _) = _
      unfold takeSign
      split
      · rename_i heq
        exact absurd (List.cons.inj heq).1 hc
      · rfl

theorem head?_ending (he : ending = [] ∨ ending = [10]) :
    ∀ c ∈ ending.head?, CodePoint.isDecimal c = false := by
  rcases he with rfl | rfl
  · simp
  · intro c hc
    obtain rfl := Option.some.inj hc
    decide

/-- Digits of any script are read, and a line feed after them is not seen. -/
theorem strictNumeral?_numeralPoints {t : Text} (hw : AnyDigits whole)
    (hf : ∀ digits ∈ fraction, AnyDigits digits) (he : ending = [] ∨ ending = [10])
    (ht : t.points = numeralPoints negative whole fraction ++ ending) :
    strictNumeral? t = some ⟨negative, anyValues whole, fraction.map anyValues⟩ := by
  rw [strictNumeral?_eq, ht, takeSign_numeralPoints hw]
  dsimp only
  cases fraction with
  | none =>
    rw [Option.map_none, Option.getD_none, List.nil_append,
      takeDigits_any hw.isDecimal (head?_ending he)]
    simp only [hw.isEmpty, Bool.false_eq_true, ↓reduceIte]
    rcases he with rfl | rfl <;> rfl
  | some digits =>
    have hd := hf digits rfl
    have hpoint : ∀ c ∈ (46 :: (digits ++ ending)).head?, CodePoint.isDecimal c = false := by
      intro c hc
      obtain rfl := Option.some.inj hc
      decide
    rw [Option.map_some, Option.getD_some, List.cons_append, takeDigits_any hw.isDecimal hpoint]
    simp only [hw.isEmpty, Bool.false_eq_true, ↓reduceIte, strictRest?]
    rw [takeDigits_any hd.isDecimal (head?_ending he)]
    rcases he with rfl | rfl <;> simp [hd.isEmpty]

theorem exists_takeSign (points : List CodePoint) :
    ∃ negative rest, takeSign points = (negative, rest) ∧
      points = (if negative then [45] else []) ++ rest := by
  unfold takeSign
  split
  · exact ⟨true, _, rfl, rfl⟩
  · exact ⟨false, _, rfl, rfl⟩

/-- Nothing else is read. -/
theorem exists_numeralPoints {t : Text} {numeral : Numeral} (h : strictNumeral? t = some numeral) :
    ∃ negative whole fraction ending, AnyDigits whole ∧ (∀ digits ∈ fraction, AnyDigits digits) ∧
      (ending = [] ∨ ending = [10]) ∧
      t.points = numeralPoints negative whole fraction ++ ending := by
  obtain ⟨negative, points, hsign, ht⟩ := exists_takeSign t.points
  obtain ⟨whole, rest, rfl, hw, htake⟩ := exists_takeDigits CodePoint.decimalValue? points
  rw [strictNumeral?_eq, hsign] at h
  simp only [htake] at h
  split at h
  · cases h
  rename_i hne
  have hwhole := anyDigits_of_isEmpty hw hne
  rw [ht]
  unfold strictRest? at h
  split at h
  · exact ⟨negative, whole, none, [], hwhole, by simp, .inl rfl, by simp [numeralPoints]⟩
  · exact ⟨negative, whole, none, [10], hwhole, by simp, .inr rfl, by simp [numeralPoints]⟩
  · rename_i rest
    obtain ⟨digits, ending, rfl, hd, htake⟩ := exists_takeDigits CodePoint.decimalValue? rest
    simp only [htake] at h
    split at h
    · cases h
    · rename_i hend
      rw [not_or, not_and_or, not_not, not_not] at hend
      refine ⟨negative, whole, some digits, ending, hwhole, ?_, hend.2, ?_⟩
      · intro digits' hm
        obtain rfl := Option.some.inj hm
        exact anyDigits_of_isEmpty hd hend.1
      · simp [numeralPoints]
  · cases h

end Reading

/-! ## The numbers of texts -/

section Numbers
variable {whole digits : List CodePoint} {fraction : Option (List CodePoint)}

/-- A numeral of few digits has a number. -/
theorem Numeral.exists_number {n : Numeral} (h : n.whole.length ≤ Fault.digitLimit) :
    ∃ m, n.number = .ok m := by
  cases hn : n.number with
  | ok m => exact ⟨m, rfl⟩
  | error f =>
    obtain ⟨⟨_, hlt⟩, _⟩ := Numeral.number_eq_error_iff.mp hn
    exact absurd hlt (Nat.not_lt.mpr h)

theorem natOfDigits_append (a b : List CodePoint) :
    natOfDigits (a ++ b) = natOfDigits a * 10 ^ b.length + natOfDigits b := by
  rw [← numberOfDigits_valuesOf, ← numberOfDigits_valuesOf, ← numberOfDigits_valuesOf, valuesOf,
    List.map_append]
  have key := numberOf_append (valuesOf a) (valuesOf b)
  rwa [show (valuesOf b).length = b.length from List.length_map _] at key

/-- The number of the numeral that a well-formed text is. -/
theorem denotes_number (negative : Bool) (hw : Digits whole) (hf : ∀ digits ∈ fraction, Digits digits)
    (hlimit : whole.length ≤ Fault.digitLimit) :
    ∃ n, Numeral.number ⟨negative, valuesOf whole, fraction.map valuesOf⟩ = .ok n ∧
      Denotes (numeralPoints negative whole fraction) n := by
  cases fraction with
  | none =>
    refine ⟨_, ?_, .integer negative hw⟩
    have hlength : ¬ Fault.digitLimit < (valuesOf whole).length := by
      rw [valuesOf, List.length_map]
      exact Nat.not_lt.mpr hlimit
    simp only [Numeral.number, Option.map_none, if_neg hlength, numberOfDigits_valuesOf]
    rfl
  | some digits =>
    refine ⟨_, rfl, .rounded negative hw (hf digits rfl) ?_⟩
    have happend : valuesOf whole ++ valuesOf digits = valuesOf (whole ++ digits) := by
      simp [valuesOf]
    have hlength : (valuesOf digits).length = digits.length := List.length_map _
    have hvalue : (natOfDigits whole : ℚ) + natOfDigits digits / 10 ^ digits.length =
        natOfDigits (whole ++ digits) * 10 ^ (-(digits.length : Int)) := by
      have hten : (10 : ℚ) ^ digits.length ≠ 0 := pow_ne_zero _ (by norm_num)
      rw [natOfDigits_append, zpow_neg, zpow_natCast]
      push_cast
      field_simp
    rw [happend, numberOfDigits_valuesOf, hlength, hvalue]
    exact nearest_ofDecimal ..

theorem length_le_numeralPoints (negative : Bool) (whole : List CodePoint)
    (fraction : Option (List CodePoint)) :
    whole.length ≤ (numeralPoints negative whole fraction).length := by
  simp only [numeralPoints, List.length_append]
  omega

end Numbers

variable {t : Text}

theorem strict_of_wellFormed (hlimit : t.points.length ≤ Fault.digitLimit) (h : WellFormed t.points) :
    ∃ n, Denotes t.points n ∧ strict (.text t) .number = .ok (.number n) := by
  obtain ⟨negative, whole, fraction, hw, hf, ht⟩ := h
  have hnumeral := strictNumeral?_numeralPoints (.of_digits hw)
    (fun digits hm => .of_digits (hf digits hm)) (.inl rfl) (ht.trans (List.append_nil _).symm)
  have hvalues : fraction.map anyValues = fraction.map valuesOf :=
    Option.map_congr fun digits hm => anyValues_of_digits (hf digits hm)
  rw [anyValues_of_digits hw, hvalues] at hnumeral
  rw [ht] at hlimit
  obtain ⟨n, hn, hd⟩ := denotes_number negative hw hf
    ((length_le_numeralPoints ..).trans hlimit)
  refine ⟨n, ht ▸ hd, ?_⟩
  rw [strict_text, hnumeral]
  dsimp only
  rw [hn]
  rfl

theorem strict_of_irregular (hlimit : t.points.length ≤ Fault.digitLimit) (h : Irregular t.points) :
    ∃ n, strict (.text t) .number = .ok (.number n) := by
  obtain ⟨_, negative, whole, fraction, ending, hw, hf, he, ht⟩ := h
  have hlength : (anyValues whole).length ≤ Fault.digitLimit := by
    rw [ht, List.length_append] at hlimit
    rw [length_anyValues hw.isDecimal]
    exact (length_le_numeralPoints negative whole fraction).trans ((Nat.le_add_right ..).trans hlimit)
  obtain ⟨n, hn⟩ := Numeral.exists_number
    (n := ⟨negative, anyValues whole, fraction.map anyValues⟩) hlength
  refine ⟨n, ?_⟩
  rw [strict_text, strictNumeral?_numeralPoints hw hf he ht]
  dsimp only
  rw [hn]
  rfl

theorem strict_of_neither (hwell : ¬ WellFormed t.points) (hirregular : ¬ Irregular t.points) :
    strict (.text t) .number = .ok (.text t) := by
  rw [strict_text]
  cases h : strictNumeral? t with
  | none => rfl
  | some numeral => exact absurd ⟨hwell, exists_numeralPoints h⟩ hirregular

/-- Strict coercion reads the number that a well-formed text denotes. It keeps every other text, unless
only the script of its digits or a line feed at its end is amiss. -/
theorem strict_number_reads_well_formed_unless_irregular
    (hlimit : t.points.length ≤ Fault.digitLimit) :
    (WellFormed t.points → ∃ n, Denotes t.points n ∧ strict (.text t) .number = .ok (.number n)) ∧
      ((∃ n, strict (.text t) .number = .ok (.number n)) ↔ WellFormed t.points ∨ Irregular t.points) ∧
      (¬ WellFormed t.points → ¬ Irregular t.points →
        strict (.text t) .number = .ok (.text t)) := by
  refine ⟨strict_of_wellFormed hlimit, ⟨?_, ?_⟩, strict_of_neither⟩
  · rintro ⟨n, hn⟩
    by_contra hneither
    obtain ⟨hwell, hirregular⟩ := not_or.mp hneither
    rw [strict_of_neither hwell hirregular] at hn
    cases hn
  · rintro (h | h)
    · obtain ⟨n, _, hn⟩ := strict_of_wellFormed hlimit h
      exact ⟨n, hn⟩
    · exact strict_of_irregular hlimit h

theorem wellFormed_fraction : WellFormed (ofString "-12.50").points :=
  ⟨true, [49, 50], some [53, 48], ⟨by decide, by decide⟩,
    fun digits hm => Option.some.inj hm ▸ ⟨by decide, by decide⟩, by decide⟩

theorem strict_number_reads_negative_fraction :
    (ofString "-12.50").points.length ≤ Fault.digitLimit ∧
      ∃ n, Denotes (ofString "-12.50").points n ∧
        strict (.text "-12.50") .number = .ok (.number n) := by
  have hlimit : (ofString "-12.50").points.length ≤ Fault.digitLimit := by decide
  exact ⟨hlimit, (strict_number_reads_well_formed_unless_irregular hlimit).1 wellFormed_fraction⟩

/-- A text with a line feed at its end is not well-formed and is read as a number. -/
theorem not_every_number_text_is_well_formed :
    ¬ ∀ t : Text, t.points.length ≤ Fault.digitLimit →
      ((∃ n, strict (.text t) .number = .ok (.number n)) ↔ WellFormed t.points) := by
  intro h
  obtain ⟨negative, whole, fraction, hw, hf, ht⟩ :=
    (h ⟨[53, 10]⟩ (by decide)).mp ⟨.integer 5, by rfl⟩
  have hmem : (10 : CodePoint) ∈ numeralPoints negative whole fraction := by
    rw [← ht]
    decide
  unfold numeralPoints at hmem
  rcases List.mem_append.mp hmem with hm | hm
  · cases negative <;> simp at hm
  rcases List.mem_append.mp hm with hm | hm
  · exact absurd (hw.isDigit 10 hm) (by decide)
  · cases fraction with
    | none => cases hm
    | some digits =>
      rcases List.mem_cons.mp hm with hm | hm
      · cases hm
      · exact absurd ((hf digits rfl).isDigit 10 hm) (by decide)

end Vetting.Coercion
