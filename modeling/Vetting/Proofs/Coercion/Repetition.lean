import Mathlib.Data.List.Basic
import Vetting.Proofs.Coercion
import Vetting.Proofs.Expression.Literal

/-!
# Coercing what was coerced

The result of a coercion is coerced to itself, with one exception: a text that is a numeral with a
fraction becomes a binary64 number, and if that is integral, its own canonical text has no fraction and
becomes an integer. The two are equal, so a value that is coerced twice is identical or equal to what it
was after the first time.
-/

namespace Vetting

open Lexer Text

/-! ## Signs -/

namespace Binary64

theorem neg_ofQuotient (a d : Nat) : (ofQuotient false a d).neg = ofQuotient true a d := by
  unfold ofQuotient
  dsimp only
  split <;> split <;> rfl

theorem neg_ofDecimal (digits : Nat) (exponent : Int) :
    (ofDecimal false digits exponent).neg = ofDecimal true digits exponent := by
  unfold ofDecimal
  dsimp only
  split
  · rfl
  · split
    · rfl
    · split
      · rfl
      · split <;> exact neg_ofQuotient ..

theorem ofQuotient_ne_nan (negative : Bool) (a d : Nat) : ofQuotient negative a d ≠ .nan := by
  unfold ofQuotient
  dsimp only
  split <;> split <;> exact Binary64.noConfusion

theorem ofDecimal_ne_nan (negative : Bool) (digits : Nat) (exponent : Int) :
    ofDecimal negative digits exponent ≠ .nan := by
  unfold ofDecimal
  dsimp only
  split
  · exact Binary64.noConfusion
  · split
    · exact Binary64.noConfusion
    · split
      · exact Binary64.noConfusion
      · split <;> exact ofQuotient_ne_nan _ _ _

end Binary64

/-! ## Digits of any script -/

namespace CodePoint

theorem decimalValue?_of_isAsciiDigit {c : CodePoint} (h : isAsciiDigit c = true) :
    decimalValue? c = some (c - 48) := by
  have hrange : (48 ≤ c && c < 48 + 10) = true := by
    simp only [isAsciiDigit, Bool.and_eq_true, decide_eq_true_eq] at h
    simp only [Bool.and_eq_true, decide_eq_true_eq]
    exact ⟨h.1, Nat.lt_succ_of_le h.2⟩
  rw [decimalValue?, zeros, List.find?_cons, hrange]
  rfl

theorem lt_ten_of_decimalValue? {c : CodePoint} {d : Nat} (h : decimalValue? c = some d) : d < 10 := by
  rw [decimalValue?, Option.map_eq_some_iff] at h
  obtain ⟨start, hfind, rfl⟩ := h
  have hrange := List.find?_some hfind
  simp only [Bool.and_eq_true, decide_eq_true_eq] at hrange
  exact Nat.sub_lt_left_of_lt_add hrange.1 hrange.2

end CodePoint

namespace Coercion

def valuesOf (digits : List CodePoint) : List Nat := digits.map (· - 48)

theorem numberOfDigits_valuesOf (digits : List CodePoint) :
    numberOfDigits (valuesOf digits) = natOfDigits digits := by
  rw [numberOfDigits, valuesOf, natOfDigits, List.foldl_map]

/-- The digits at the front of a text, and what follows them. -/
theorem takeDigits_span {valueOf : CodePoint → Option Nat} {digits rest : List CodePoint}
    (hd : ∀ c ∈ digits, (valueOf c).isSome = true) (hr : ∀ c ∈ rest.head?, valueOf c = none) :
    takeDigits valueOf (digits ++ rest) = (digits.filterMap valueOf, rest) := by
  have hstop : rest.takeWhile (fun c => (valueOf c).isSome) = [] ∧
      rest.dropWhile (fun c => (valueOf c).isSome) = rest := by
    cases rest with
    | nil => exact ⟨rfl, rfl⟩
    | cons c rest => simp [hr c rfl]
  unfold takeDigits
  rw [List.takeWhile_append_of_pos hd, List.dropWhile_append_of_pos hd, hstop.1, hstop.2,
    List.append_nil]

theorem exists_takeDigits (valueOf : CodePoint → Option Nat) (points : List CodePoint) :
    ∃ digits rest, points = digits ++ rest ∧ (∀ c ∈ digits, (valueOf c).isSome = true) ∧
      takeDigits valueOf points = (digits.filterMap valueOf, rest) := by
  refine ⟨_, _, List.takeWhile_append_dropWhile.symm, ?_, rfl⟩
  intro c hc
  exact List.mem_takeWhile_imp (p := fun c => (valueOf c).isSome) hc

theorem filterMap_eq_valuesOf {valueOf : CodePoint → Option Nat} {digits : List CodePoint}
    (h : ∀ c ∈ digits, valueOf c = some (c - 48)) : digits.filterMap valueOf = valuesOf digits := by
  rw [valuesOf, ← List.filterMap_eq_map]
  exact List.filterMap_congr h

theorem takeDigits_append {valueOf : CodePoint → Option Nat} {digits rest : List CodePoint}
    (hd : ∀ c ∈ digits, valueOf c = some (c - 48)) (hr : ∀ c ∈ rest.head?, valueOf c = none) :
    takeDigits valueOf (digits ++ rest) = (valuesOf digits, rest) := by
  have hsome : ∀ c ∈ digits, (valueOf c).isSome = true := by
    intro c hc
    rw [hd c hc]
    rfl
  rw [takeDigits_span hsome hr, filterMap_eq_valuesOf hd]

theorem decimalValue?_of_digits {digits : List CodePoint} (h : Digits digits) :
    ∀ c ∈ digits, CodePoint.decimalValue? c = some (c - 48) :=
  fun c hc => CodePoint.decimalValue?_of_isAsciiDigit (h.isDigit c hc)

theorem lt_ten_of_mem_takeDigits {points : List CodePoint} {d : Nat}
    (h : d ∈ (takeDigits CodePoint.decimalValue? points).1) : d < 10 := by
  obtain ⟨c, _, hc⟩ := List.mem_filterMap.mp h
  exact CodePoint.lt_ten_of_decimalValue? hc

/-! ## Numerals of canonical texts -/

theorem takeSign_append (negative : Bool) {t : Text} (h : startsWithDigit t.points = true) :
    takeSign (Binary64.signText negative ++ t).points = (negative, t.points) := by
  cases negative with
  | true => rfl
  | false =>
    obtain ⟨points⟩ := t
    cases points with
    | nil => cases h
    | cons c rest =>
      rw [startsWithDigit_cons] at h
      show takeSign (c :: rest) = (false, c :: rest)
      unfold takeSign
      split
      · rename_i he
        cases he
        cases h
      · rfl

theorem decimalValue?_of_mark {c : CodePoint} (h : isExponentMark c = true) :
    CodePoint.decimalValue? c = none := by
  simp only [isExponentMark, Bool.or_eq_true, decide_eq_true_eq] at h
  rcases h with rfl | rfl <;> decide

theorem exists_mark_of_writesExponent {e : Bool × List CodePoint} {points : List CodePoint}
    (h : WritesExponent (some e) points) :
    ∃ mark rest, points = mark :: rest ∧ isExponentMark mark = true := by
  cases h with
  | unsigned hm _ => exact ⟨_, _, rfl, hm⟩
  | positive hm _ => exact ⟨_, _, rfl, hm⟩
  | negative hm _ => exact ⟨_, _, rfl, hm⟩

/-- What strict coercion makes of a text by what follows the digits at its front. -/
def strictRest? (negative : Bool) (whole : List Nat) (rest : List CodePoint) : Option Numeral :=
  match rest with
  | [] | [10] => some ⟨negative, whole, none⟩
  | 46 :: rest =>
    let (fraction, rest) := takeDigits CodePoint.decimalValue? rest
    if fraction.isEmpty ∨ (rest ≠ [] ∧ rest ≠ [10]) then none
    else some ⟨negative, whole, some fraction⟩
  | _ => none

theorem strictNumeral?_eq (t : Text) :
    strictNumeral? t =
      let (negative, points) := takeSign t.points
      let (whole, rest) := takeDigits CodePoint.decimalValue? points
      if whole.isEmpty then none else strictRest? negative whole rest := rfl

theorem isEmpty_valuesOf {digits : List CodePoint} (h : Digits digits) :
    (valuesOf digits).isEmpty = false := by
  obtain ⟨c, rest, rfl, _⟩ := h.exists_cons
  rfl

theorem strictNumeral?_append (negative : Bool) {t : Text} {whole rest : List CodePoint}
    (ht : t.points = whole ++ rest) (hd : Digits whole)
    (hr : ∀ c ∈ rest.head?, CodePoint.decimalValue? c = none) :
    strictNumeral? (Binary64.signText negative ++ t) = strictRest? negative (valuesOf whole) rest := by
  have hstart : startsWithDigit t.points = true := ht ▸ hd.startsWithDigit_append rest
  rw [strictNumeral?_eq, takeSign_append negative hstart, ht]
  dsimp only
  rw [takeDigits_append (decimalValue?_of_digits hd) hr, isEmpty_valuesOf hd]
  rfl

theorem strictRest?_point (negative : Bool) (whole : List Nat) {digits rest : List CodePoint}
    (hd : Digits digits) (hr : ∀ c ∈ rest.head?, CodePoint.decimalValue? c = none) :
    strictRest? negative whole (46 :: (digits ++ rest)) =
      if rest ≠ [] ∧ rest ≠ [10] then none else some ⟨negative, whole, some (valuesOf digits)⟩ := by
  rw [strictRest?, takeDigits_append (decimalValue?_of_digits hd) hr]
  simp [isEmpty_valuesOf hd]

theorem strictRest?_mark (negative : Bool) (whole : List Nat) {mark : CodePoint}
    (h : isExponentMark mark = true) (rest : List CodePoint) :
    strictRest? negative whole (mark :: rest) = none := by
  simp only [isExponentMark, Bool.or_eq_true, decide_eq_true_eq] at h
  rcases h with rfl | rfl <;> rfl

/-- A numeral without an exponent is one for strict coercion too; with an exponent it is none. -/
theorem strictNumeral?_of_writes {parts : NumeralParts} {t : Text} (negative : Bool)
    (hstart : startsWithDigit t.points = true) (hw : parts.Writes t.points) :
    strictNumeral? (Binary64.signText negative ++ t) =
      match parts.exponent with
      | none => some ⟨negative, valuesOf parts.whole, parts.fraction.map valuesOf⟩
      | some _ => none := by
  have hd := hw.digits_whole hstart
  generalize ht : t.points = points at hw
  cases hw with
  | @intro whole a b fraction exponent _ hf he =>
    cases exponent with
    | none =>
      cases he
      cases hf with
      | absent => exact strictNumeral?_append negative ht hd (fun _ h => nomatch h)
      | @point digits h =>
        rw [List.append_nil] at ht
        rw [strictNumeral?_append negative ht hd (by simp; decide), ← List.append_nil digits,
          strictRest?_point negative (valuesOf whole) h (by simp)]
        simp
    | some e =>
      obtain ⟨mark, rest, rfl, hm⟩ := exists_mark_of_writesExponent he
      have hhead : ∀ c ∈ (mark :: rest).head?, CodePoint.decimalValue? c = none := by
        simpa using decimalValue?_of_mark hm
      cases hf with
      | absent =>
        rw [List.nil_append] at ht
        rw [strictNumeral?_append negative ht hd hhead, strictRest?_mark _ _ hm]
      | point h =>
        have hne : mark ≠ 10 := by
          rintro rfl
          cases hm
        rw [strictNumeral?_append negative ht hd (by simp; decide), List.cons_append,
          strictRest?_point _ _ h hhead]
        simp [hne]

/-- Without an exponent both denote the same number. -/
theorem number_of_parts {parts : NumeralParts} {n : Number} (negative : Bool)
    (h : parts.number? = some n) (he : parts.exponent = none) :
    Numeral.number ⟨negative, valuesOf parts.whole, parts.fraction.map valuesOf⟩ =
      .ok (if negative then n.neg else n) := by
  obtain ⟨whole, fraction, exponent⟩ := parts
  obtain rfl : exponent = none := he
  cases fraction with
  | none =>
    rw [NumeralParts.number?] at h
    by_cases hlong : Fault.digitLimit < whole.length
    · rw [if_pos hlong] at h
      cases h
    · rw [if_neg hlong] at h
      cases h
      have hlength : ¬ Fault.digitLimit < (valuesOf whole).length := by
        rwa [valuesOf, List.length_map]
      simp only [Numeral.number, Option.map_none, if_neg hlength, numberOfDigits_valuesOf]
      cases negative <;> rfl
  | some digits =>
    cases h
    have happend : valuesOf whole ++ valuesOf digits = valuesOf (whole ++ digits) := by
      simp [valuesOf]
    have hlength : (valuesOf digits).length = digits.length := List.length_map _
    simp only [Numeral.number, Option.map_some, Option.getD_some, happend, numberOfDigits_valuesOf,
      hlength, Int.zero_sub]
    cases negative with
    | true => rw [← Binary64.neg_ofDecimal]; rfl
    | false => rfl

/-! ## Numbers that were read -/

theorem strict_number (n : Number) :
    strict (.number n) .number = do
      let text ← n.format
      match strictNumeral? text with
      | some numeral =>
        let m ← numeral.number
        return .number m
      | none => return .number n := rfl

theorem strict_text (t : Text) :
    strict (.text t) .number =
      match strictNumeral? t with
      | some numeral => do
        let n ← numeral.number
        return .number n
      | none => .ok (.text t) := rfl

/-- A number that has a literal stays as it is, or becomes the number that its literal denotes. -/
theorem strict_number_of_encodable {n : Number} (h : n.Encodable) :
    strict (.number n) .number = .ok (.number n) ∨
      strict (.number n) .number = .ok (.number n.reread) := by
  obtain ⟨hstart, parts, hw, hn⟩ := h.reread.magnitude
  have hnumeral := strictNumeral?_of_writes n.reread.isNegative hstart hw
  rw [strict_number, h.format_eq]
  simp only [bind, Except.bind, hnumeral]
  cases he : parts.exponent with
  | some e => exact .inl rfl
  | none =>
    refine .inr ?_
    simp only [number_of_parts n.reread.isNegative hn he, h.reread.neg_abs]
    rfl

theorem strict_number_of_infinite (negative : Bool) :
    strict (.number (.float (.infinite negative))) .number =
      .ok (.number (.float (.infinite negative))) := by
  have hnone : strictNumeral? (Number.expressionLayout.write (.infinite negative)) = none := by
    cases negative <;> decide +kernel
  rw [strict_number]
  show (match strictNumeral? (Number.expressionLayout.write (.infinite negative)) with
    | some numeral => do
      let m ← numeral.number
      return .number m
    | none => return .number (.float (.infinite negative)) : Except Fault Value) = _
  rw [hnone]
  rfl

theorem encodable_or_infinite (negative : Bool) (digits : Nat) (exponent : Int) :
    (Number.float (Binary64.ofDecimal negative digits exponent)).Encodable ∨
      ∃ sign, Binary64.ofDecimal negative digits exponent = .infinite sign := by
  have hnan := Binary64.ofDecimal_ne_nan negative digits exponent
  cases h : Binary64.ofDecimal negative digits exponent with
  | nan => exact absurd h hnan
  | infinite sign => exact .inr ⟨sign, rfl⟩
  | finite sign m p hc => exact .inl (.float hc)

/-- The number of a numeral has a literal unless it is infinite. -/
theorem Numeral.encodable_or_infinite {numeral : Numeral} {n : Number}
    (hdigits : ∀ d ∈ numeral.whole, d < 10) (h : numeral.number = .ok n) :
    n.Encodable ∨ ∃ sign, n = .float (.infinite sign) := by
  obtain ⟨negative, whole, fraction⟩ := numeral
  cases fraction with
  | some fraction =>
    cases h
    refine (Coercion.encodable_or_infinite ..).imp_right ?_
    rintro ⟨sign, h⟩
    exact ⟨sign, congrArg Number.float h⟩
  | none =>
    rw [Numeral.number] at h
    dsimp only at h
    split at h
    · cases h
    · rename_i hlength
      cases h
      have hlt : numberOfDigits whole < Number.unwritable := by
        unfold Number.unwritable
        generalize Fault.digitLimit = limit at *
        refine Nat.lt_of_lt_of_le (numberOf_lt hdigits) ?_
        exact Nat.pow_le_pow_right (by decide) (Nat.not_lt.mp hlength)
      refine .inl (.integer ?_)
      cases negative with
      | true =>
        rw [if_pos rfl, Int.natAbs_neg]
        exact hlt
      | false => exact hlt

theorem strictRest?_whole {negative : Bool} {whole : List Nat} {rest : List CodePoint}
    {numeral : Numeral} (h : strictRest? negative whole rest = some numeral) :
    numeral.whole = whole := by
  unfold strictRest? at h
  split at h
  · cases h
    rfl
  · cases h
    rfl
  · dsimp only at h
    split at h
    · cases h
    · cases h
      rfl
  · cases h

theorem lt_ten_of_strictNumeral? {text : Text} {numeral : Numeral}
    (h : strictNumeral? text = some numeral) : ∀ d ∈ numeral.whole, d < 10 := by
  rw [strictNumeral?_eq] at h
  dsimp only at h
  split at h
  · cases h
  · rw [strictRest?_whole h]
    exact fun d hd => lt_ten_of_mem_takeDigits hd

/-! ## Coercions -/

/-- A value, or the number that its literal denotes. -/
inductive Respelled : Value → Value → Prop
  | same (v : Value) : Respelled v v
  | number {n : Number} (h : n.Encodable) : Respelled (.number n) (.number n.reread)

theorem Respelled.eq_or_equal {v w : Value} (h : Respelled v w) : w = v ∨ w.equal v = true := by
  cases h with
  | same => exact .inl rfl
  | number h => exact .inr (Value.equal_reread_number h)

theorem exists_strict_number {numeral : Numeral} {n : Number} (hdigits : ∀ d ∈ numeral.whole, d < 10)
    (h : numeral.number = .ok n) :
    ∃ w, strict (.number n) .number = .ok w ∧ Respelled (.number n) w := by
  rcases numeral.encodable_or_infinite hdigits h with hn | ⟨sign, rfl⟩
  · rcases strict_number_of_encodable hn with hs | hs
    · exact ⟨_, hs, .same _⟩
    · exact ⟨_, hs, .number hn⟩
  · exact ⟨_, strict_number_of_infinite sign, .same _⟩

theorem booleanNamed?_literal (b : Bool) : booleanNamed? (if b then "true" else "false") = some b := by
  cases b <;> decide +kernel

theorem strict_boolean (b : Bool) : strict (.boolean b) .boolean = .ok (.boolean b) := by
  have htext : (Value.boolean b).toText = .ok (if b then "true" else "false") := rfl
  simp only [strict, htext, bind, Except.bind, booleanNamed?_literal]
  rfl

/-- What was coerced strictly is coerced so again. Only a number that was read may change. -/
theorem strict_again {v w : Value} {target : Target} (h : strict v target = .ok w) :
    ∃ w', strict w target = .ok w' ∧ Respelled w w' := by
  have unchanged (hw : w = v) : ∃ w', strict w target = .ok w' ∧ Respelled w w' := by
    subst hw
    exact ⟨w, h, .same w⟩
  have hread := h
  unfold strict at hread
  split at hread
  · cases hread
    exact unchanged rfl
  rw [bind_eq_ok_iff] at hread
  obtain ⟨text, _, hread⟩ := hread
  cases target with
  | number =>
    dsimp only at hread
    split at hread
    · rename_i numeral hnumeral
      rw [bind_eq_ok_iff] at hread
      obtain ⟨n, hn, hread⟩ := hread
      cases hread
      exact exists_strict_number (lt_ten_of_strictNumeral? hnumeral) hn
    · cases hread
      exact unchanged rfl
  | boolean =>
    dsimp only at hread
    split at hread
    · cases hread
      exact ⟨_, strict_boolean _, .same _⟩
    · cases hread
      exact unchanged rfl
  | other =>
    cases hread
    exact ⟨_, rfl, .same _⟩

theorem flexible_again {v w : Value} (h : flexible v = .ok w) : flexible w = .ok w := by
  cases v with
  | text text =>
    have hread := h
    unfold flexible at hread
    dsimp only at hread
    split at hread
    · rw [bind_eq_ok_iff] at hread
      obtain ⟨n, _, hread⟩ := hread
      cases hread
      rfl
    · split at hread
      · cases hread
        rfl
      · cases hread
        exact h
  | _ =>
    cases h
    rfl

/-- A value that was coerced is coerced to itself, or to the number that its literal denotes. -/
theorem coerce_again {v w : Value} {rules : List Rule} (h : coerce v rules = .ok w) :
    ∃ w', coerce w rules = .ok w' ∧ Respelled w w' := by
  by_cases hw : w = .null
  · subst hw
    exact ⟨_, rfl, .same _⟩
  have hv : v ≠ .null := by
    rintro rfl
    cases h
    exact hw rfl
  cases ht : targetType rules with
  | none =>
    rw [coerce_of_untargeted hv ht] at h
    rw [coerce_of_untargeted hw ht]
    exact ⟨w, flexible_again h, .same w⟩
  | some type =>
    rw [coerce_of_targeted hv ht] at h
    rw [coerce_of_targeted hw ht]
    exact strict_again h

end Coercion
end Vetting
