import Mathlib.Order.Compare
import Vetting.Proofs.Result
import Vetting.Proofs.Value.Equality
import Vetting.Value.Order

/-!
# The order of values

Numbers are ordered by their places on the line and texts by their code points, so the order of two
values is reversed when they are exchanged, goes on transitively, and is that of equal values exactly
when they are equal. Two values have an order if they are texts, or numbers that pass the test for NaN.
-/

namespace Vetting

/-! ## Places and texts -/

instance : Std.OrientedCmp Binary64.Place.compare where
  eq_swap {p q} := by
    cases p <;> cases q <;> try rfl
    exact Std.OrientedOrd.eq_swap

instance : Std.TransCmp Binary64.Place.compare where
  isLE_trans {p q r} hpq hqr := by
    cases p <;> cases q <;> cases r <;> try first | rfl | contradiction
    exact Std.TransOrd.isLE_trans hpq hqr

namespace Text

theorem comparePoints_swap (a b : List CodePoint) :
    comparePoints a b = (comparePoints b a).swap := by
  induction a generalizing b with
  | nil => cases b <;> rfl
  | cons x a ih =>
    cases b with
    | nil => rfl
    | cons y b =>
      rw [comparePoints, comparePoints, ih b]
      rcases Nat.lt_trichotomy x y with h | rfl | h
      · simp [h, Nat.lt_asymm h]
      · simp
      · simp [h, Nat.lt_asymm h]

theorem comparePoints_eq_iff {a b : List CodePoint} : comparePoints a b = .eq ↔ a = b := by
  induction a generalizing b with
  | nil => cases b <;> simp [comparePoints]
  | cons x a ih =>
    cases b with
    | nil => simp [comparePoints]
    | cons y b =>
      rw [comparePoints]
      rcases Nat.lt_trichotomy x y with h | rfl | h
      · simp [h, Nat.ne_of_lt h]
      · simp [ih]
      · simp [h, Nat.lt_asymm h, Nat.ne_of_gt h]

theorem comparePoints_isLE_trans {a b c : List CodePoint} (hab : (comparePoints a b).isLE = true)
    (hbc : (comparePoints b c).isLE = true) : (comparePoints a c).isLE = true := by
  induction a generalizing b c with
  | nil => cases c <;> rfl
  | cons x a ih =>
    cases b with
    | nil => cases hab
    | cons y b =>
      cases c with
      | nil => cases hbc
      | cons z c =>
        rw [comparePoints] at hab hbc ⊢
        by_cases hxz : x < z
        · simp [hxz]
        -- none of the three points is before the next, so they are the same
        · have hxy : x ≤ y := by
            refine Nat.le_of_not_lt fun h => ?_
            simp [h, Nat.lt_asymm h] at hab
          have hyz : y ≤ z := by
            refine Nat.le_of_not_lt fun h => ?_
            simp [h, Nat.lt_asymm h] at hbc
          have hzx : z ≤ x := Nat.le_of_not_lt hxz
          obtain rfl := Nat.le_antisymm hxy (Nat.le_trans hyz hzx)
          obtain rfl := Nat.le_antisymm hyz hzx
          simp only [Nat.lt_irrefl, ↓reduceIte] at hab hbc ⊢
          exact ih hab hbc

end Text

instance : Std.OrientedCmp Text.compare where
  eq_swap := Text.comparePoints_swap _ _

instance : Std.TransCmp Text.compare where
  isLE_trans := Text.comparePoints_isLE_trans

theorem Text.compare_eq_iff {a b : Text} : Text.compare a b = .eq ↔ a = b := by
  rw [Text.compare, comparePoints_eq_iff, Text.ext_iff]

/-- A comparison over two steps, neither of which goes down. -/
theorem compare_then {α : Type} {cmp : α → α → Ordering} [Std.TransCmp cmp] {a b c : α}
    (hab : cmp a b ≠ .gt) (hbc : cmp b c ≠ .gt) : cmp a c = (cmp a b).then (cmp b c) := by
  cases h : cmp a b with
  | gt => exact absurd h hab
  | eq => rw [Std.TransCmp.congr_left h, Ordering.then]
  | lt =>
    cases h' : cmp b c with
    | gt => exact absurd h' hbc
    | eq => exact Std.TransCmp.lt_of_lt_of_eq h h'
    | lt => exact Std.TransCmp.lt_trans h h'

namespace Value

/-! ## Values with an order -/

theorem exists_place?_of_testNaN {n : Number} (h : n.testNaN = .ok false) :
    ∃ p, n.place? = some p := by
  cases n with
  | integer i => exact ⟨_, rfl⟩
  | float x =>
    cases x with
    | nan => cases h
    | infinite negative => exact ⟨_, rfl⟩
    | finite negative m p hc => exact ⟨_, rfl⟩

/-- How two values can have an order. -/
inductive Compares : Value → Value → Ordering → Prop
  | numbers {m n : Number} {p q : Binary64.Place} (hm : m.testNaN = .ok false)
      (hn : n.testNaN = .ok false) (hp : m.place? = some p) (hq : n.place? = some q) :
      Compares (number m) (number n) (p.compare q)
  | texts (s t : Text) : Compares (text s) (text t) (Text.compare s t)

section Compares
variable {a b c : Value} {o o' : Ordering}

theorem compare_eq_ok_iff : a.compare b = .ok o ↔ Compares a b o := by
  constructor
  · intro h
    cases a <;> cases b <;> try cases h
    · rename_i m n
      rw [compare] at h
      obtain ⟨isNaN, hm, h⟩ := bind_eq_ok_iff.mp h
      cases isNaN with
      | true => cases h
      | false =>
        obtain ⟨isNaN, hn, h⟩ := bind_eq_ok_iff.mp h
        cases isNaN with
        | true => cases h
        | false =>
          obtain ⟨p, hp⟩ := exists_place?_of_testNaN hm
          obtain ⟨q, hq⟩ := exists_place?_of_testNaN hn
          simp only [Number.compare?, hp, hq, bind, Option.bind, Bool.false_eq_true, ↓reduceIte,
            Option.getD_some, pure, Except.pure, Except.ok.injEq] at h
          exact h ▸ .numbers hm hn hp hq
    · exact .texts _ _
  · intro h
    cases h with
    | numbers hm hn hp hq =>
      simp [compare, hm, hn, Number.compare?, hp, hq, bind, Except.bind, pure, Except.pure]
    | texts s t => rfl

theorem Compares.swap (h : Compares a b o) : Compares b a o.swap := by
  cases h with
  | @numbers _ _ p q hm hn hp hq =>
    have hswap : q.compare p = (p.compare q).swap := Std.OrientedCmp.eq_swap
    exact hswap ▸ .numbers hn hm hq hp
  | texts s t =>
    have hswap : t.compare s = (s.compare t).swap := Std.OrientedCmp.eq_swap
    exact hswap ▸ .texts t s

theorem Compares.trans (hab : Compares a b o) (hbc : Compares b c o') (ho : o ≠ .gt)
    (ho' : o' ≠ .gt) : Compares a c (o.then o') := by
  cases hab with
  | numbers hm hn hp hq =>
    cases hbc with
    | numbers _ hk hq' hr =>
      cases hq.symm.trans hq'
      rw [← compare_then ho ho']
      exact .numbers hm hk hp hr
  | texts s t =>
    cases hbc with
    | texts _ u =>
      rw [← compare_then ho ho']
      exact .texts s u

theorem Compares.eq_iff (h : Compares a b o) : o = .eq ↔ a.equal b = true := by
  cases h with
  | numbers _ _ hp hq =>
    rw [Binary64.Place.compare_eq_iff, equal, Number.equal_iff, hp, hq]
    constructor
    · rintro rfl
      exact ⟨_, rfl, rfl⟩
    · rintro ⟨r, hr, hr'⟩
      exact (Option.some.inj hr).trans (Option.some.inj hr').symm
  | texts s t => rw [Text.compare_eq_iff, equal, beq_iff_eq]

/-- Two values have an order if they are texts, or numbers that pass the test for NaN. -/
theorem exists_compare_iff : (∃ o, a.compare b = .ok o) ↔
    (∃ s t, a = text s ∧ b = text t) ∨
      ∃ m n, a = number m ∧ b = number n ∧ m.testNaN = .ok false ∧ n.testNaN = .ok false := by
  simp only [compare_eq_ok_iff]
  constructor
  · rintro ⟨o, h⟩
    cases h with
    | numbers hm hn => exact .inr ⟨_, _, rfl, rfl, hm, hn⟩
    | texts s t => exact .inl ⟨s, t, rfl, rfl⟩
  · rintro (⟨s, t, rfl, rfl⟩ | ⟨m, n, rfl, rfl, hm, hn⟩)
    · exact ⟨_, .texts s t⟩
    · obtain ⟨p, hp⟩ := exists_place?_of_testNaN hm
      obtain ⟨q, hq⟩ := exists_place?_of_testNaN hn
      exact ⟨_, .numbers hm hn hp hq⟩

end Compares

/-! ## The laws -/

/-- Equality of definite values is reflexive, symmetric and transitive. The order of two values that
have one is reversed for the exchanged values, is that of equals exactly for equal values, and goes on
over a third value. -/
theorem equality_and_order_lawful :
    (∀ v : Value, v.Definite → v.equal v = true) ∧
    (∀ v w : Value, v.Definite → w.Definite → v.equal w = true → w.equal v = true) ∧
    (∀ u v w : Value, u.Definite → v.Definite → w.Definite →
      u.equal v = true → v.equal w = true → u.equal w = true) ∧
    (∀ v w : Value, (∃ o, v.compare w = .ok o) ↔
      (∃ s t, v = text s ∧ w = text t) ∨
        ∃ m n, v = number m ∧ w = number n ∧ m.testNaN = .ok false ∧ n.testNaN = .ok false) ∧
    (∀ (v w : Value) o, v.compare w = .ok o →
      w.compare v = .ok o.swap ∧ (o = .eq ↔ v.equal w = true)) ∧
    ∀ (u v w : Value) o o', u.compare v = .ok o → v.compare w = .ok o' → o ≠ .gt → o' ≠ .gt →
      u.compare w = .ok (o.then o') := by
  refine ⟨fun v hv => equal_refl hv, fun v w hv hw h => equal_symm hv hw h,
    fun u v w _ _ _ huv hvw => equal_trans huv hvw, fun v w => exists_compare_iff, ?_, ?_⟩
  · intro v w o h
    rw [compare_eq_ok_iff] at h
    exact ⟨compare_eq_ok_iff.mpr h.swap, h.eq_iff⟩
  · intro u v w o o' huv hvw ho ho'
    rw [compare_eq_ok_iff] at huv hvw ⊢
    exact huv.trans hvw ho ho'

/-- An object, and one with the same keys in another order, a tuple and a binary64 number in it. -/
def listed : Value :=
  .object [(.text "a", .array [.integer 1, .null]), (.text "b", .text "x")]

def relisted : Value :=
  .object [(.text "b", .text "x"), (.text "a", .tuple [.float (Binary64.ofInt 1), .null])]

theorem definite_listed : listed.Definite := by
  refine ⟨by decide, rfl, ⟨?_, trivial, trivial⟩, rfl, trivial, trivial⟩
  exact fun h => nomatch h

theorem definite_relisted : relisted.Definite := by
  refine ⟨by decide, rfl, trivial, rfl, ⟨?_, trivial, trivial⟩, trivial⟩
  show Number.float (Binary64.ofInt 1) ≠ .float .nan
  decide +kernel

/-- Objects in another order are equal both ways, and the order of 1 and 3 is found by way of 2.5. -/
theorem listed_equal_relisted :
    listed.Definite ∧ relisted.Definite ∧ listed.equal relisted = true ∧
      relisted.equal listed = true ∧
      (integer 1).compare (float (Binary64.ofDecimal false 25 (-1))) = .ok .lt ∧
      (float (Binary64.ofDecimal false 25 (-1))).compare (integer 3) = .ok .lt ∧
      (integer 1).compare (integer 3) = .ok .lt := by
  obtain ⟨_, hsymm, _, _, _, htrans⟩ := equality_and_order_lawful
  have hequal : listed.equal relisted = true := by decide +kernel
  have hless : (integer 1).compare (float (Binary64.ofDecimal false 25 (-1))) = .ok .lt := by
    decide +kernel
  have hless' : (float (Binary64.ofDecimal false 25 (-1))).compare (integer 3) = .ok .lt := by
    decide +kernel
  refine ⟨definite_listed, definite_relisted, hequal,
    hsymm _ _ definite_listed definite_relisted hequal, hless, hless', ?_⟩
  exact htrans _ _ _ _ _ hless hless' (by decide) (by decide)

end Value
end Vetting
