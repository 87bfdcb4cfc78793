import Vetting.Number
import Vetting.Proofs.Binary64.Decimal
import Vetting.Proofs.Expression.Numeral

/-!
# Written binary64 numbers as numerals

Every layout writes a numeral of the lexer with a fraction or an exponent, and the lexer reads it
as the number nearest to the decimal value.
-/

namespace Vetting.Binary64

open Lexer Text

def shown (digits : List Nat) : List CodePoint := digits.map digitPoint

@[simp] theorem shown_append (a b : List Nat) : shown (a ++ b) = shown a ++ shown b :=
  List.map_append

@[simp] theorem length_shown (digits : List Nat) : (shown digits).length = digits.length :=
  List.length_map ..

theorem shown_replicate_zero (k : Nat) : shown (List.replicate k 0) = List.replicate k 48 :=
  List.map_replicate

theorem digits_shown {digits : List Nat} (hn : digits ≠ []) (hd : ∀ d ∈ digits, d < 10) :
    Digits (shown digits) :=
  ⟨fun h => hn (List.map_eq_nil_iff.mp h), isAsciiDigit_of_mem_map hd⟩

theorem points_padNat (width n : Nat) :
    (padNat width n).points =
      shown (List.replicate (width - (digitsOfNat n).length) 0 ++ digitsOfNat n) := by
  rw [padNat, shown_append, shown_replicate_zero, List.length_map]
  rfl

theorem digits_padNat (width n : Nat) : Digits (padNat width n).points := by
  rw [points_padNat]
  refine digits_shown (List.append_ne_nil_of_right_ne_nil _ (digitsOfNat_ne_nil n)) fun d hd => ?_
  rcases List.mem_append.mp hd with hd | hd
  · rw [List.eq_of_mem_replicate hd]
    decide
  · exact lt_ten_of_mem_digitsOfNat hd

theorem natOfDigits_padNat (width n : Nat) : natOfDigits (padNat width n).points = n := by
  rw [points_padNat, shown, natOfDigits_map_digitPoint, numberOf_append, numberOf_replicate_zero,
    Nat.zero_mul, Nat.zero_add, numberOf_digitsOfNat]

/-! ## Values of numerals -/

/-- The value of a numeral with a fraction and without an exponent. -/
theorem number?_positional (whole fraction : List Nat) :
    NumeralParts.number? ⟨shown whole, some (shown fraction), none⟩ =
      some (.float (ofDecimal false (numberOf (whole ++ fraction)) (-fraction.length))) := by
  simp only [NumeralParts.number?, Option.getD_some, ← shown_append, length_shown, Int.zero_sub]
  rw [shown, natOfDigits_map_digitPoint]

/-- The value of a numeral with one digit before the point and an exponent. -/
theorem number?_scientific (d : Nat) (fraction : List Nat) (negative : Bool) (e : List CodePoint)
    (shape : Option (List CodePoint)) (hs : shape.getD [] = shown fraction) :
    NumeralParts.number? ⟨shown [d], shape, some (negative, e)⟩ =
      some (.float (ofDecimal false (numberOf (d :: fraction))
        ((if negative then -(natOfDigits e : Int) else natOfDigits e) - fraction.length))) := by
  simp only [NumeralParts.number?, hs, ← shown_append, length_shown, List.singleton_append]
  rw [shown, natOfDigits_map_digitPoint]

/-! ## Layouts -/

/-- A text that the lexer reads as this number when nothing continues it. -/
def Written (points : List CodePoint) (x : Binary64) : Prop :=
  startsWithDigit points = true ∧
    ∃ parts, NumeralParts.Writes parts points ∧ parts.number? = some (.float x)

theorem written_positional {whole fraction : List Nat} {x : Binary64} (hwn : whole ≠ [])
    (hw : ∀ d ∈ whole, d < 10) (hfn : fraction ≠ []) (hf : ∀ d ∈ fraction, d < 10)
    (hx : ofDecimal false (numberOf (whole ++ fraction)) (-fraction.length) = x) :
    Written (shown whole ++ 46 :: shown fraction) x := by
  have hwd := digits_shown hwn hw
  refine ⟨hwd.startsWithDigit_append _, ⟨shown whole, some (shown fraction), none⟩, ?_, ?_⟩
  · have h := NumeralParts.Writes.intro hwd.isDigit (.point (digits_shown hfn hf)) .absent
    rwa [List.append_nil] at h
  · rw [number?_positional, hx]

theorem written_scientific {d : Nat} {fraction : List Nat} {e : Int} {written : List CodePoint}
    {x : Binary64} (width : Nat) (hd : d < 10) (hf : ∀ d ∈ fraction, d < 10)
    (hw : fraction = [] ∧ written = [] ∨ fraction ≠ [] ∧ written = 46 :: shown fraction)
    (hx : ofDecimal false (numberOf (d :: fraction)) (e - fraction.length) = x) :
    Written (shown [d] ++ (written ++
      101 :: (if e < 0 then 45 else 43) :: (padNat width e.natAbs).points)) x := by
  have hwd : Digits (shown [d]) := digits_shown (List.cons_ne_nil d []) (by simpa using hd)
  have he : (if decide (e < 0) then -(natOfDigits (padNat width e.natAbs).points : Int)
      else natOfDigits (padNat width e.natAbs).points) = e := by
    rw [natOfDigits_padNat]
    by_cases h : e < 0 <;> simp only [h, decide_true, decide_false, ↓reduceIte, Bool.false_eq_true] <;>
      omega
  have hexponent : WritesExponent (some (decide (e < 0), (padNat width e.natAbs).points))
      (101 :: (if e < 0 then 45 else 43) :: (padNat width e.natAbs).points) := by
    by_cases h : e < 0
    · simp only [h, decide_true, ↓reduceIte]
      exact .negative rfl (digits_padNat ..)
    · simp only [h, decide_false, ↓reduceIte]
      exact .positive rfl (digits_padNat ..)
  refine ⟨hwd.startsWithDigit_append _, ?_⟩
  rcases hw with ⟨rfl, rfl⟩ | ⟨hn, rfl⟩
  · refine ⟨_, .intro hwd.isDigit .absent hexponent, ?_⟩
    rw [number?_scientific d [] _ _ none rfl, he, hx]
  · refine ⟨_, .intro hwd.isDigit (.point (digits_shown hn hf)) hexponent, ?_⟩
    rw [number?_scientific d fraction _ _ (some (shown fraction)) rfl, he, hx]

theorem forall_mem_replicate_zero (k : Nat) : ∀ d ∈ List.replicate k 0, d < 10 := by
  intro d hd
  rw [List.eq_of_mem_replicate hd]
  decide

section Numeral
variable {digits : List Nat} {e : Int} (hne : digits ≠ []) (hlt : ∀ d ∈ digits, d < 10)
include hne hlt

/-- Below one, zeros stand between the point and the digits. -/
theorem written_of_neg (he : e < 0) :
    Written (48 :: 46 :: (List.replicate ((-e).toNat - 1) 48 ++ shown digits))
      (Numeral.mk digits e).read := by
  have hx : ofDecimal false (numberOf ([0] ++ (List.replicate ((-e).toNat - 1) 0 ++ digits)))
      (-(List.replicate ((-e).toNat - 1) 0 ++ digits).length) = (Numeral.mk digits e).read := by
    rw [List.singleton_append, ← List.cons_append, ← List.replicate_succ, numberOf_append,
      numberOf_replicate_zero, Nat.zero_mul, Nat.zero_add, List.length_append,
      List.length_replicate, Numeral.read]
    congr 1
    dsimp only
    omega
  have key := written_positional (List.cons_ne_nil 0 []) (by decide)
    (List.append_ne_nil_of_right_ne_nil _ hne)
    (List.forall_mem_append.mpr ⟨forall_mem_replicate_zero _, hlt⟩) hx
  rwa [shown_append, shown_replicate_zero] at key

/-- Digits that all stand before the point are filled up with zeros. -/
theorem written_of_length_le (he : 0 ≤ e) (hlen : digits.length ≤ e.toNat + 1) :
    Written (shown digits ++ List.replicate (e.toNat + 1 - digits.length) 48 ++ [46, 48])
      (Numeral.mk digits e).read := by
  have hx : ofDecimal false
      (numberOf (digits ++ List.replicate (e.toNat + 1 - digits.length) 0 ++ [0]))
      (-([0] : List Nat).length) = (Numeral.mk digits e).read := by
    rw [List.append_assoc, ← List.replicate_succ', numberOf_append, numberOf_replicate_zero,
      List.length_replicate, Nat.add_zero, ofDecimal_mul_pow, Numeral.read]
    congr 1
    simp only [List.length_singleton]
    omega
  have key := written_positional
    (List.append_ne_nil_of_left_ne_nil hne (List.replicate (e.toNat + 1 - digits.length) 0))
    (List.forall_mem_append.mpr ⟨hlt, forall_mem_replicate_zero _⟩) (List.cons_ne_nil 0 [])
    (by decide) hx
  rwa [shown_append, shown_replicate_zero] at key

/-- Otherwise the point stands among the digits. -/
theorem written_of_lt_length (he : 0 ≤ e) (hlen : e.toNat + 1 < digits.length) :
    Written (shown (digits.take (e.toNat + 1)) ++ 46 :: shown (digits.drop (e.toNat + 1)))
      (Numeral.mk digits e).read := by
  have hx : ofDecimal false (numberOf (digits.take (e.toNat + 1) ++ digits.drop (e.toNat + 1)))
      (-(digits.drop (e.toNat + 1)).length) = (Numeral.mk digits e).read := by
    rw [List.take_append_drop, List.length_drop, Numeral.read]
    congr 1
    dsimp only
    omega
  have htake : digits.take (e.toNat + 1) ≠ [] := by simpa using hne
  have hdrop : digits.drop (e.toNat + 1) ≠ [] := by
    rw [ne_eq, List.drop_eq_nil_iff]
    omega
  exact written_positional htake (fun d hd => hlt d (List.mem_of_mem_take hd)) hdrop
    (fun d hd => hlt d (List.mem_of_mem_drop hd)) hx

end Numeral

/-- A mantissa of one digit before the point is followed by the exponent. -/
theorem written_mantissa {d : Nat} {fraction : List Nat} {e : Int} {written : List CodePoint}
    (width : Nat) (hlt : ∀ c ∈ d :: fraction, c < 10)
    (hw : fraction = [] ∧ written = [] ∨ fraction ≠ [] ∧ written = 46 :: shown fraction) :
    Written (shown [d] ++ (written ++
        101 :: (if e < 0 then 45 else 43) :: (padNat width e.natAbs).points))
      (Numeral.mk (d :: fraction) e).read := by
  obtain ⟨hd, hf⟩ := List.forall_mem_cons.mp hlt
  refine written_scientific width hd hf hw ?_
  rw [Numeral.read]
  congr 1
  simp only [List.length_cons]
  omega

/-- A layout writes a numeral so that the lexer reads its value. -/
theorem Layout.written_numeral (layout : Layout) {n : Numeral} (h : n.WellFormed) :
    Written (layout.numeral n).points n.read := by
  obtain ⟨digits, e⟩ := n
  obtain ⟨hne, hlt⟩ := h
  dsimp only at hne hlt
  have hpoint : (ofString ".").points = [46] := rfl
  have hmark : (ofString "e").points = [101] := rfl
  have hsign : (ofString (if e < 0 then "-" else "+")).points = [if e < 0 then 45 else 43] := by
    split <;> rfl
  unfold Layout.numeral
  dsimp only
  split
  · split
    · rename_i he
      exact written_of_neg hne hlt he
    · rename_i he
      have he : 0 ≤ e := Int.not_lt.mp he
      split
      · rename_i hlen
        exact written_of_length_le hne hlt he hlen
      · rename_i hlen
        have key := written_of_lt_length hne hlt he (Nat.lt_of_not_le hlen)
        rwa [List.append_cons] at key
  · match digits with
    | [] => exact absurd rfl hne
    | [d] =>
      have key := written_mantissa (e := e) layout.exponentDigits hlt (.inl ⟨rfl, rfl⟩)
      simpa [digitsText, shown, hmark, hsign] using key
    | d :: c :: fraction =>
      have key := written_mantissa (e := e) layout.exponentDigits hlt (.inr ⟨by simp, rfl⟩)
      simpa [digitsText, shown, hpoint, hmark, hsign] using key

end Vetting.Binary64
