import Mathlib.Tactic.Ring
import Vetting.Text.Basic

/-!
# Decimal digits

A list of digits, the most significant first, writes a number. The digits of a number write it
back, and there are as many of them as the number needs.
-/

namespace Vetting.Text

def numberOf (digits : List Nat) : Nat := digits.foldl (fun n d => n * 10 + d) 0

@[simp] theorem numberOf_nil : numberOf [] = 0 := rfl

theorem foldl_digits (digits : List Nat) (start : Nat) :
    digits.foldl (fun n d => n * 10 + d) start = start * 10 ^ digits.length + numberOf digits := by
  induction digits generalizing start with
  | nil => simp
  | cons d rest ih =>
    rw [numberOf, List.foldl_cons, List.foldl_cons, ih (start * 10 + d), ih (0 * 10 + d),
      List.length_cons, Nat.pow_succ]
    ring

theorem numberOf_append (a b : List Nat) :
    numberOf (a ++ b) = numberOf a * 10 ^ b.length + numberOf b := by
  rw [numberOf, List.foldl_append, foldl_digits]
  rfl

@[simp] theorem numberOf_singleton (d : Nat) : numberOf [d] = d := by
  simp [numberOf]

theorem numberOf_lt {digits : List Nat} (h : ∀ d ∈ digits, d < 10) :
    numberOf digits < 10 ^ digits.length := by
  induction digits with
  | nil => exact Nat.one_pos
  | cons d rest ih =>
    obtain ⟨hd, hrest⟩ := List.forall_mem_cons.mp h
    have hcons : numberOf (d :: rest) = d * 10 ^ rest.length + numberOf rest := by
      rw [← List.singleton_append, numberOf_append, numberOf_singleton]
    calc numberOf (d :: rest)
        < d * 10 ^ rest.length + 10 ^ rest.length := hcons ▸ Nat.add_lt_add_left (ih hrest) _
      _ = (d + 1) * 10 ^ rest.length := (Nat.succ_mul ..).symm
      _ ≤ 10 * 10 ^ rest.length := Nat.mul_le_mul_right _ hd
      _ = 10 ^ (d :: rest).length := (Nat.pow_succ' ..).symm

theorem numberOf_replicate_zero (n : Nat) : numberOf (List.replicate n 0) = 0 := by
  induction n with
  | zero => rfl
  | succ n ih => rw [List.replicate_succ', numberOf_append, ih, numberOf_singleton, Nat.zero_mul]

theorem natOfDigits_map_digitPoint (digits : List Nat) :
    natOfDigits (digits.map digitPoint) = numberOf digits := by
  rw [natOfDigits, numberOf, List.foldl_map]
  simp [digitPoint]

/-! ## The digits of a number -/

theorem digitsOfNat_of_lt {n : Nat} (h : n < 10) : digitsOfNat n = [n] := by
  rw [digitsOfNat, if_pos h]

theorem digitsOfNat_of_ge {n : Nat} (h : 10 ≤ n) :
    digitsOfNat n = digitsOfNat (n / 10) ++ [n % 10] := by
  rw [digitsOfNat, if_neg (by omega)]

theorem numberOf_digitsOfNat (n : Nat) : numberOf (digitsOfNat n) = n := by
  induction n using Nat.strongRecOn with
  | _ n ih =>
    rcases Nat.lt_or_ge n 10 with h | h
    · rw [digitsOfNat_of_lt h, numberOf_singleton]
    · rw [digitsOfNat_of_ge h, numberOf_append, ih (n / 10) (by omega), numberOf_singleton]
      simp only [List.length_singleton, Nat.pow_one]
      omega

theorem digitsOfNat_ne_nil (n : Nat) : digitsOfNat n ≠ [] := by
  rcases Nat.lt_or_ge n 10 with h | h
  · rw [digitsOfNat_of_lt h]
    simp
  · rw [digitsOfNat_of_ge h]
    simp

theorem lt_ten_of_mem_digitsOfNat {n d : Nat} (hd : d ∈ digitsOfNat n) : d < 10 := by
  induction n using Nat.strongRecOn with
  | _ n ih =>
    rcases Nat.lt_or_ge n 10 with h | h
    · rw [digitsOfNat_of_lt h, List.mem_singleton] at hd
      omega
    · rw [digitsOfNat_of_ge h, List.mem_append, List.mem_singleton] at hd
      rcases hd with hd | hd
      · exact ih (n / 10) (by omega) hd
      · omega

theorem length_digitsOfNat_pos (n : Nat) : 0 < (digitsOfNat n).length :=
  List.length_pos_iff.mpr (digitsOfNat_ne_nil n)

/-- A number has at most `k` digits when it is below `10 ^ k`. -/
theorem length_digitsOfNat_le_iff {n k : Nat} (hk : 0 < k) :
    (digitsOfNat n).length ≤ k ↔ n < 10 ^ k := by
  induction n using Nat.strongRecOn generalizing k with
  | _ n ih =>
    obtain ⟨k, rfl⟩ : ∃ j, k = j + 1 := ⟨k - 1, by omega⟩
    rcases Nat.lt_or_ge n 10 with h | h
    · have hp : 10 ^ 1 ≤ 10 ^ (k + 1) := Nat.pow_le_pow_right (by decide) (by omega)
      rw [digitsOfNat_of_lt h, List.length_singleton]
      omega
    · rw [digitsOfNat_of_ge h, List.length_append, List.length_singleton]
      rcases Nat.eq_zero_or_pos k with rfl | hk'
      · have := length_digitsOfNat_pos (n / 10)
        omega
      · rw [Nat.add_le_add_iff_right, ih (n / 10) (by omega) hk', Nat.div_lt_iff_lt_mul (by decide),
          Nat.pow_succ]

/-- The digits of a number times a power of ten. -/
theorem length_digitsOfNat_mul_pow {n : Nat} (hn : 0 < n) (k : Nat) :
    (digitsOfNat (n * 10 ^ k)).length = (digitsOfNat n).length + k := by
  induction k with
  | zero => rw [Nat.pow_zero, Nat.mul_one, Nat.add_zero]
  | succ k ih =>
    have hp : 0 < n * 10 ^ k := Nat.mul_pos hn (Nat.pow_pos (by decide))
    have he : n * 10 ^ (k + 1) = n * 10 ^ k * 10 := by rw [Nat.pow_succ, Nat.mul_assoc]
    rw [he, digitsOfNat_of_ge (by omega), List.length_append, Nat.mul_div_cancel _ (by decide), ih]
    rfl

/-! ## Digits as code points -/

theorem isAsciiDigit_digitPoint {d : Nat} (h : d < 10) : isAsciiDigit (digitPoint d) = true := by
  have hle : 48 + d ≤ 57 := by omega
  rw [isAsciiDigit, digitPoint, decide_eq_true (Nat.le_add_right 48 d), decide_eq_true hle]
  rfl

theorem isAsciiDigit_of_mem_map {digits : List Nat} (h : ∀ d ∈ digits, d < 10) :
    ∀ c ∈ digits.map digitPoint, isAsciiDigit c = true := by
  intro c hc
  obtain ⟨d, hd, rfl⟩ := List.mem_map.mp hc
  exact isAsciiDigit_digitPoint (h d hd)

end Vetting.Text
