import Mathlib.Data.List.TakeWhile
import Vetting.Expression.Lexer
import Vetting.Proofs.Text.Digits

/-!
# Numerals in a text

A numeral is digits, then a point with digits or nothing, then an exponent or nothing. The lexer
reads the longest numeral at the front of a text, so what it reads depends on the numeral alone once
the rest of the text does not continue it.
-/

namespace Vetting.Lexer

open CodePoint Text

/-! ## Digits at the front of a text -/

/-- Digits that stand together. -/
structure Digits (digits : List CodePoint) : Prop where
  ne_nil : digits ≠ []
  isDigit : ∀ c ∈ digits, isAsciiDigit c = true

@[simp] theorem startsWithDigit_cons (c : CodePoint) (rest : List CodePoint) :
    startsWithDigit (c :: rest) = isAsciiDigit c := rfl

theorem Digits.exists_cons {digits : List CodePoint} (h : Digits digits) :
    ∃ c rest, digits = c :: rest ∧ isAsciiDigit c = true := by
  cases digits with
  | nil => exact absurd rfl h.ne_nil
  | cons c rest => exact ⟨c, rest, rfl, h.isDigit c List.mem_cons_self⟩

theorem Digits.startsWithDigit_append {digits : List CodePoint} (h : Digits digits)
    (rest : List CodePoint) : startsWithDigit (digits ++ rest) = true := by
  obtain ⟨c, tail, rfl, hc⟩ := h.exists_cons
  exact hc

theorem takeWhile_of_not_startsWithDigit {rest : List CodePoint} (h : startsWithDigit rest = false) :
    rest.takeWhile isAsciiDigit = [] ∧ rest.dropWhile isAsciiDigit = rest := by
  cases rest with
  | nil => exact ⟨rfl, rfl⟩
  | cons c rest =>
    rw [startsWithDigit_cons] at h
    simp [h]

theorem startsWithDigit_dropWhile (points : List CodePoint) :
    startsWithDigit (points.dropWhile isAsciiDigit) = false := by
  cases h : points.dropWhile isAsciiDigit with
  | nil => rfl
  | cons c rest =>
    have := List.head_dropWhile_not isAsciiDigit (l := points) (by rw [h]; simp)
    simpa [h] using this

/-- The digits at the front of a text, and what follows them. -/
theorem span_digits {digits rest : List CodePoint} (hd : ∀ c ∈ digits, isAsciiDigit c = true)
    (hr : startsWithDigit rest = false) :
    (digits ++ rest).takeWhile isAsciiDigit = digits ∧
      (digits ++ rest).dropWhile isAsciiDigit = rest := by
  rw [List.takeWhile_append_of_pos hd, List.dropWhile_append_of_pos hd,
    (takeWhile_of_not_startsWithDigit hr).1, (takeWhile_of_not_startsWithDigit hr).2]
  exact ⟨List.append_nil digits, rfl⟩

theorem digits_takeWhile {points : List CodePoint} (h : startsWithDigit points = true) :
    Digits (points.takeWhile isAsciiDigit) := by
  refine ⟨?_, fun c hc => List.mem_takeWhile_imp hc⟩
  cases points with
  | nil => cases h
  | cons c rest =>
    rw [startsWithDigit_cons] at h
    simp [h]

/-! ## Fractions -/

/-- How the fraction of a numeral is written. -/
inductive WritesFraction : Option (List CodePoint) → List CodePoint → Prop where
  | absent : WritesFraction none []
  | point {digits : List CodePoint} (h : Digits digits) : WritesFraction (some digits) (46 :: digits)

def startsWithFraction : List CodePoint → Bool
  | 46 :: rest => startsWithDigit rest
  | _ => false

theorem readFraction_of_not_starts {points : List CodePoint} (h : startsWithFraction points = false) :
    readFraction points = (none, points) := by
  unfold readFraction
  split
  · rename_i rest
    rw [startsWithFraction] at h
    simp [h]
  · rfl

theorem WritesFraction.readFraction_append {fraction : Option (List CodePoint)}
    {points rest : List CodePoint} (h : WritesFraction fraction points)
    (hr : startsWithDigit rest = false) (hn : fraction = none → startsWithFraction rest = false) :
    readFraction (points ++ rest) = (fraction, rest) := by
  cases h with
  | absent => exact readFraction_of_not_starts (hn rfl)
  | @point digits h =>
    obtain ⟨htake, hdrop⟩ := span_digits h.isDigit hr
    simp only [List.cons_append, readFraction, h.startsWithDigit_append, ↓reduceIte, htake, hdrop]

theorem exists_writesFraction (points : List CodePoint) :
    ∃ written, WritesFraction (readFraction points).1 written ∧
      points = written ++ (readFraction points).2 ∧
      ((readFraction points).1 = none → startsWithFraction (readFraction points).2 = false) ∧
      (startsWithDigit points = false → startsWithDigit (readFraction points).2 = false) := by
  cases h : startsWithFraction points with
  | false =>
    rw [readFraction_of_not_starts h]
    exact ⟨[], .absent, rfl, fun _ => h, id⟩
  | true =>
    unfold startsWithFraction at h
    split at h
    · rename_i rest
      simp only [readFraction, h, ↓reduceIte]
      refine ⟨_, .point (digits_takeWhile h), ?_, ?_, fun _ => startsWithDigit_dropWhile rest⟩
      · rw [List.cons_append, List.takeWhile_append_dropWhile]
      · intro hnone
        cases hnone
    · cases h

theorem WritesFraction.startsWithDigit_append {fraction : Option (List CodePoint)}
    {points rest : List CodePoint} (h : WritesFraction fraction points)
    (hr : startsWithDigit rest = false) : startsWithDigit (points ++ rest) = false := by
  cases h with
  | absent => exact hr
  | point h => rfl

/-! ## Exponents -/

def isExponentMark (c : CodePoint) : Bool := c = 101 || c = 69

/-- How the exponent of a numeral is written; a positive one may have a sign. -/
inductive WritesExponent : Option (Bool × List CodePoint) → List CodePoint → Prop where
  | absent : WritesExponent none []
  | unsigned {mark : CodePoint} {digits : List CodePoint} (hm : isExponentMark mark = true)
      (h : Digits digits) : WritesExponent (some (false, digits)) (mark :: digits)
  | positive {mark : CodePoint} {digits : List CodePoint} (hm : isExponentMark mark = true)
      (h : Digits digits) : WritesExponent (some (false, digits)) (mark :: 43 :: digits)
  | negative {mark : CodePoint} {digits : List CodePoint} (hm : isExponentMark mark = true)
      (h : Digits digits) : WritesExponent (some (true, digits)) (mark :: 45 :: digits)

def startsWithMark (points : List CodePoint) : Bool := (points.head?.map isExponentMark).getD false

theorem not_startsWithDigit_of_mark {mark : CodePoint} (h : isExponentMark mark = true)
    (rest : List CodePoint) : startsWithDigit (mark :: rest) = false := by
  simp only [isExponentMark, Bool.or_eq_true, decide_eq_true_eq] at h
  rcases h with rfl | rfl <;> rfl

theorem WritesExponent.readExponent_append {exponent : Option (Bool × List CodePoint)}
    {points rest : List CodePoint} (h : WritesExponent exponent points)
    (hr : startsWithDigit rest = false) (hn : exponent = none → startsWithMark rest = false) :
    readExponent (points ++ rest) = some (exponent, rest) := by
  cases h with
  | absent =>
    cases rest with
    | nil => rfl
    | cons c rest =>
      have hc : (c = 101 || c = 69) = false := hn rfl
      simp only [List.nil_append, readExponent, hc, Bool.false_eq_true, ↓reduceIte]
  | @unsigned mark digits hm h =>
    have hm' : (mark = 101 || mark = 69) = true := hm
    obtain ⟨htake, hdrop⟩ := span_digits h.isDigit hr
    obtain ⟨c, tail, rfl, hc⟩ := h.exists_cons
    have hplus : c ≠ 43 := by rintro rfl; cases hc
    have hminus : c ≠ 45 := by rintro rfl; cases hc
    simp only [List.cons_append, readExponent, hm', ↓reduceIte]
    split
    · rename_i hsign
      exact absurd (List.cons.inj hsign).1 hplus
    · rename_i hsign
      exact absurd (List.cons.inj hsign).1 hminus
    · rw [List.cons_append] at htake hdrop
      simp only [startsWithDigit_cons, hc, ↓reduceIte, htake, hdrop]
  | @positive mark digits hm h =>
    have hm' : (mark = 101 || mark = 69) = true := hm
    obtain ⟨htake, hdrop⟩ := span_digits h.isDigit hr
    simp only [List.cons_append, readExponent, hm', ↓reduceIte, h.startsWithDigit_append, htake, hdrop]
  | @negative mark digits hm h =>
    have hm' : (mark = 101 || mark = 69) = true := hm
    obtain ⟨htake, hdrop⟩ := span_digits h.isDigit hr
    simp only [List.cons_append, readExponent, hm', ↓reduceIte, h.startsWithDigit_append, htake, hdrop]

theorem exists_writesExponent {points rest : List CodePoint} {exponent : Option (Bool × List CodePoint)}
    (h : readExponent points = some (exponent, rest)) (hp : startsWithDigit points = false) :
    ∃ written, WritesExponent exponent written ∧ points = written ++ rest ∧
      startsWithDigit rest = false := by
  unfold readExponent at h
  split at h
  · rename_i c tail
    split at h
    · rename_i hm
      split at h
      rename_i negative digits hsign
      split at h
      · rename_i hd
        cases h
        split at hsign
        · cases hsign
          refine ⟨_, .positive hm (digits_takeWhile hd), ?_, startsWithDigit_dropWhile _⟩
          rw [List.cons_append, List.cons_append, List.takeWhile_append_dropWhile]
        · cases hsign
          refine ⟨_, .negative hm (digits_takeWhile hd), ?_, startsWithDigit_dropWhile _⟩
          rw [List.cons_append, List.cons_append, List.takeWhile_append_dropWhile]
        · cases hsign
          refine ⟨_, .unsigned hm (digits_takeWhile hd), ?_, startsWithDigit_dropWhile _⟩
          rw [List.cons_append, List.takeWhile_append_dropWhile]
      · cases h
    · cases h
      exact ⟨[], .absent, rfl, hp⟩
  · cases h
    exact ⟨[], .absent, rfl, hp⟩

theorem WritesExponent.startsWithDigit_append {exponent : Option (Bool × List CodePoint)}
    {points rest : List CodePoint} (h : WritesExponent exponent points)
    (hr : startsWithDigit rest = false) : startsWithDigit (points ++ rest) = false := by
  cases h with
  | absent => exact hr
  | unsigned hm h => exact not_startsWithDigit_of_mark hm _
  | positive hm h => exact not_startsWithDigit_of_mark hm _
  | negative hm h => exact not_startsWithDigit_of_mark hm _

theorem WritesExponent.startsWithFraction_append {exponent : Option (Bool × List CodePoint)}
    {points rest : List CodePoint} (h : WritesExponent exponent points)
    (hr : exponent = none → startsWithFraction rest = false) :
    startsWithFraction (points ++ rest) = false := by
  have mark {mark : CodePoint} (hm : isExponentMark mark = true) (tail : List CodePoint) :
      startsWithFraction (mark :: tail) = false := by
    simp only [isExponentMark, Bool.or_eq_true, decide_eq_true_eq] at hm
    rcases hm with rfl | rfl <;> rfl
  cases h with
  | absent => exact hr rfl
  | unsigned hm h => exact mark hm _
  | positive hm h => exact mark hm _
  | negative hm h => exact mark hm _

/-! ## Numerals -/

/-- How a numeral is written. -/
inductive NumeralParts.Writes : NumeralParts → List CodePoint → Prop where
  | intro {whole a b : List CodePoint} {fraction : Option (List CodePoint)}
      {exponent : Option (Bool × List CodePoint)} (hw : ∀ c ∈ whole, isAsciiDigit c = true)
      (hf : WritesFraction fraction a) (he : WritesExponent exponent b) :
      Writes ⟨whole, fraction, exponent⟩ (whole ++ (a ++ b))

theorem NumeralParts.Writes.digits_whole {parts : NumeralParts} {points : List CodePoint}
    (h : parts.Writes points) (hstart : startsWithDigit points = true) : Digits parts.whole := by
  obtain ⟨hw, hf, he⟩ := h
  rename_i whole a b fraction exponent
  have hb : startsWithDigit b = false := by
    rw [← List.append_nil b]
    exact he.startsWithDigit_append rfl
  refine ⟨?_, hw⟩
  rintro rfl
  rw [List.nil_append, hf.startsWithDigit_append hb] at hstart
  cases hstart

theorem NumeralParts.Writes.exists_fraction {parts : NumeralParts} {points : List CodePoint}
    (h : parts.Writes points) (hnone : parts.exponent = none) :
    ∃ a, WritesFraction parts.fraction a ∧ points = parts.whole ++ a := by
  obtain ⟨hw, hf, he⟩ := h
  rename_i whole a b fraction exponent
  obtain rfl : exponent = none := hnone
  cases he
  exact ⟨a, hf, by rw [List.append_nil]⟩

/-- A code point that may not follow a numeral. -/
def startsWithLetter (points : List CodePoint) : Bool :=
  (points.head?.map fun c => isLetter c || c = 95).getD false

/-- A text that does not continue a numeral. -/
structure NumeralParts.Stops (parts : NumeralParts) (rest : List CodePoint) : Prop where
  digit : startsWithDigit rest = false
  letter : startsWithLetter rest = false
  fraction : parts.fraction = none → parts.exponent = none → startsWithFraction rest = false

theorem startsWithMark_eq_false {points : List CodePoint} (h : startsWithLetter points = false) :
    startsWithMark points = false := by
  cases points with
  | nil => rfl
  | cons c rest =>
    have hc : (isLetter c || c = 95) = false := h
    have key : (c = 101 || c = 69) = false := by
      rw [Bool.or_eq_false_iff, decide_eq_false_iff_not, decide_eq_false_iff_not]
      refine ⟨?_, ?_⟩ <;> rintro rfl <;> exact absurd hc (by decide)
    exact key

theorem NumeralParts.Writes.readNumber_append {parts : NumeralParts} {points rest : List CodePoint}
    {n : Number} (h : parts.Writes points) (hs : parts.Stops rest) (hn : parts.number? = some n)
    (position : Nat) :
    readNumber (points ++ rest) position = .ok ⟨.number, .number n, points.length - 1⟩ := by
  obtain ⟨hw, hf, he⟩ := h
  rename_i whole a b fraction exponent
  have hdigit : startsWithDigit (a ++ (b ++ rest)) = false :=
    hf.startsWithDigit_append (he.startsWithDigit_append hs.digit)
  obtain ⟨htake, hdrop⟩ := span_digits hw hdigit
  have hfraction : readFraction (a ++ (b ++ rest)) = (fraction, b ++ rest) := by
    refine hf.readFraction_append (he.startsWithDigit_append hs.digit) fun hnone => ?_
    exact he.startsWithFraction_append (hs.fraction hnone)
  have hexponent : readExponent (b ++ rest) = some (exponent, rest) :=
    he.readExponent_append hs.digit fun _ => startsWithMark_eq_false hs.letter
  have hlength : (whole ++ (a ++ (b ++ rest))).length - rest.length = (whole ++ (a ++ b)).length := by
    simp only [List.length_append]
    omega
  have hletter : (rest.head?.map fun c => isLetter c || c = 95).getD false = false := hs.letter
  simp only [readNumber, List.append_assoc, htake, hdrop, hfraction, hexponent, hlength, hletter, hn,
    Bool.false_eq_true, ↓reduceIte]

theorem exists_writes_of_readNumber {points : List CodePoint} {position : Nat} {r : Reading}
    (h : readNumber points position = .ok r) :
    ∃ parts written rest n, NumeralParts.Writes parts written ∧ points = written ++ rest ∧
      parts.Stops rest ∧ parts.number? = some n ∧ r = ⟨.number, .number n, written.length - 1⟩ := by
  unfold readNumber at h
  dsimp only at h
  obtain ⟨a, hf, hfr, hff, hfd⟩ := exists_writesFraction (points.dropWhile isAsciiDigit)
  generalize readFraction (points.dropWhile isAsciiDigit) = fraction at *
  obtain ⟨fraction, rest⟩ := fraction
  dsimp only at *
  split at h
  · cases h
  · rename_i exponent rest' he
    obtain ⟨b, hb, rfl, hd⟩ := exists_writesExponent he (hfd (startsWithDigit_dropWhile points))
    have hpoints : points = points.takeWhile isAsciiDigit ++ (a ++ b) ++ rest' := by
      rw [List.append_assoc, List.append_assoc, ← hfr, List.takeWhile_append_dropWhile]
    have hlength : points.length - rest'.length =
        (points.takeWhile isAsciiDigit ++ (a ++ b)).length := by
      conv => lhs; rw [hpoints]
      rw [List.length_append, Nat.add_sub_cancel]
    have hfraction (hn : fraction = none) (hx : exponent = none) :
        startsWithFraction rest' = false := by
      subst hx
      cases hb
      exact hff hn
    split at h
    · cases h
    · rename_i hletter
      split at h
      · rename_i n hn
        cases h
        refine ⟨_, _, rest', n, .intro (fun c hc => List.mem_takeWhile_imp hc) hf hb, hpoints,
          ⟨hd, ?_, hfraction⟩, hn, by rw [hlength]⟩
        exact Bool.eq_false_iff.mpr hletter
      · cases h

end Vetting.Lexer
