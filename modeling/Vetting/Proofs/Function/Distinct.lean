import Mathlib.Data.List.GetD
import Mathlib.Data.List.Induction
import Vetting.Function.Collection
import Vetting.Proofs.Value.Equality

/-!
# Distinct elements

The elements that are kept are compared with those kept before them only. Since equality is transitive,
this is as good as comparing each element with all before it: an element is kept exactly if it is the
first of those equal to it, and keeping the distinct elements once more changes nothing. Equality need
not be reflexive for this, so NaN is kept wherever it stands.
-/

namespace Vetting.Collection

variable {items others : List Value} {v : Value}

/-- The positions of the elements that are equal to no element before them. -/
def firstPositions (items : List Value) : List Nat :=
  (List.range items.length).filter fun i =>
    !(items.take i).any fun earlier => (items.getD i .null).equal earlier

/-! ## One element more -/

theorem distinctAfter_append (kept items others : List Value) :
    distinctAfter kept (items ++ others) =
      distinctAfter kept items ++ distinctAfter (kept ++ distinctAfter kept items) others := by
  induction items generalizing kept with
  | nil => simp [distinctAfter]
  | cons v rest ih =>
    rw [List.cons_append, distinctAfter, distinctAfter]
    split
    · exact ih kept
    · rw [ih (kept ++ [v]), List.append_assoc]
      rfl

theorem distinct_concat_eq (items : List Value) (v : Value) :
    distinct (items ++ [v]) =
      distinct items ++ if (distinct items).any (v.equal ·) then [] else [v] := by
  rw [distinct, distinctAfter_append, List.nil_append, distinctAfter]
  rfl

/-- What is equal to an element is equal to one that is kept. -/
theorem any_distinct (items : List Value) (v : Value) :
    (distinct items).any (v.equal ·) = items.any (v.equal ·) := by
  induction items using List.reverseRecOn generalizing v with
  | nil => rfl
  | append_singleton items w ih =>
    rw [distinct_concat_eq, ih w]
    cases hw : items.any (w.equal ·) with
    | false => simp [ih v]
    | true =>
      -- the element left out is equal to one before it, which stands for it
      obtain ⟨u, hu, hwu⟩ := List.any_eq_true.mp hw
      have hv (h : v.equal w = true) : items.any (v.equal ·) = true :=
        List.any_eq_true.mpr ⟨u, hu, Value.equal_trans h hwu⟩
      cases h : v.equal w with
      | false => simp [ih v, h]
      | true => simp [ih v, h, hv h]

/-- An element after others is kept unless it is equal to one of them. -/
theorem distinct_concat (items : List Value) (v : Value) :
    distinct (items ++ [v]) =
      distinct items ++ if items.any (v.equal ·) then [] else [v] := by
  rw [distinct_concat_eq, any_distinct]

/-! ## Positions -/

theorem mem_firstPositions_iff {i : Nat} (hi : i < items.length) :
    i ∈ firstPositions items ↔ ∀ j (hj : j < i), items[i].equal items[j] = false := by
  rw [firstPositions, List.mem_filter, List.mem_range, Bool.not_eq_true', List.any_eq_false,
    List.getD_eq_getElem _ _ hi]
  constructor
  · rintro ⟨_, h⟩ j hj
    have hmem : items[j] ∈ items.take i := List.mem_take_iff_getElem.mpr ⟨j, by omega, rfl⟩
    simpa using h _ hmem
  · refine fun h => ⟨hi, fun w hw => ?_⟩
    obtain ⟨j, hj, rfl⟩ := List.mem_take_iff_getElem.mp hw
    simpa using h j (by omega)

theorem lt_of_mem_firstPositions {i : Nat} (h : i ∈ firstPositions items) : i < items.length :=
  List.mem_range.mp (List.mem_of_mem_filter h)

theorem firstPositions_sorted (items : List Value) : (firstPositions items).Pairwise (· < ·) :=
  List.pairwise_lt_range.filter _

theorem firstPositions_concat (items : List Value) (v : Value) :
    firstPositions (items ++ [v]) =
      firstPositions items ++ if items.any (v.equal ·) then [] else [items.length] := by
  have hbefore : (List.range items.length).filter (fun i =>
      !((items ++ [v]).take i).any fun w => ((items ++ [v]).getD i .null).equal w) =
        firstPositions items := by
    refine List.filter_congr fun i hi => ?_
    have hi : i < items.length := List.mem_range.mp hi
    rw [List.take_append_of_le_length (Nat.le_of_lt hi), List.getD_append _ _ _ _ hi]
  rw [firstPositions, List.length_append, List.length_singleton, List.range_succ, List.filter_append,
    hbefore, List.filter_singleton, List.take_left, List.getD_append_right _ _ _ _ (Nat.le_refl _),
    Nat.sub_self, List.getD_cons_zero]
  cases items.any (v.equal ·) <;> rfl

/-- The elements kept are those at these positions. -/
theorem distinct_eq_filterMap (items : List Value) :
    distinct items = (firstPositions items).filterMap (items[·]?) := by
  induction items using List.reverseRecOn with
  | nil => rfl
  | append_singleton items v ih =>
    have hbefore : (firstPositions items).filterMap ((items ++ [v])[·]?) = distinct items := by
      rw [ih]
      refine List.filterMap_congr fun i hi => ?_
      exact List.getElem?_append_left (lt_of_mem_firstPositions hi)
    rw [distinct_concat, firstPositions_concat, List.filterMap_append, hbefore]
    cases items.any (v.equal ·) <;> simp

/-- An element that is not kept is equal to one that is kept before it. -/
theorem exists_first_of_not_mem {i : Nat} (hi : i < items.length) (h : i ∉ firstPositions items) :
    ∃ j ∈ firstPositions items, ∃ hj : j < i, items[i].equal items[j] = true := by
  induction i using Nat.strongRecOn with
  | ind i ih =>
    rw [mem_firstPositions_iff hi] at h
    push Not at h
    obtain ⟨j, hj, hequal⟩ := h
    rw [ne_eq, Bool.not_eq_false] at hequal
    by_cases hfirst : j ∈ firstPositions items
    · exact ⟨j, hfirst, hj, hequal⟩
    · obtain ⟨k, hk, hkj, hequal'⟩ := ih j hj (by omega) hfirst
      exact ⟨k, hk, by omega, Value.equal_trans hequal hequal'⟩

/-! ## The elements that are kept -/

theorem distinct_sublist (items : List Value) : (distinct items).Sublist items := by
  induction items using List.reverseRecOn with
  | nil => exact .refl _
  | append_singleton items v ih =>
    rw [distinct_concat]
    refine ih.append ?_
    split
    · exact List.nil_sublist _
    · exact .refl _

theorem distinct_pairwise (items : List Value) :
    (distinct items).Pairwise fun a b => b.equal a = false := by
  induction items using List.reverseRecOn with
  | nil => exact .nil
  | append_singleton items v ih =>
    rw [distinct_concat, ← any_distinct]
    cases h : (distinct items).any (v.equal ·) with
    | true => simpa using ih
    | false =>
      refine List.pairwise_append.mpr ⟨ih, List.pairwise_singleton .., fun a ha b hb => ?_⟩
      obtain rfl := List.mem_singleton.mp hb
      simpa using List.any_eq_false.mp h a ha

theorem distinct_of_pairwise (h : items.Pairwise fun a b => b.equal a = false) :
    distinct items = items := by
  induction items using List.reverseRecOn with
  | nil => rfl
  | append_singleton items v ih =>
    obtain ⟨hitems, _, hv⟩ := List.pairwise_append.mp h
    have hnone : items.any (v.equal ·) = false :=
      List.any_eq_false.mpr fun a ha => by simp [hv a ha v (List.mem_singleton_self v)]
    rw [distinct_concat, ih hitems, hnone]
    rfl

/-- The distinct elements of an array are a subsequence of it in which no element is equal to an earlier
one. An element is kept exactly if it is equal to no element before it, and otherwise it is equal to one
that is kept before it. The distinct elements of the result are the result itself. -/
theorem unique_keeps_first_of_equals (items : List Value) :
    let kept := distinct items
    let positions := firstPositions items
    unique (.array items) = .ok (.array kept) ∧ unique (.tuple items) = .ok (.array kept) ∧
      unique (.array kept) = .ok (.array kept) ∧ kept.Sublist items ∧
      (kept.Pairwise fun earlier later => later.equal earlier = false) ∧
      positions.Pairwise (· < ·) ∧ kept = positions.filterMap (items[·]?) ∧
      (∀ i (hi : i < items.length),
        i ∈ positions ↔ ∀ j (hj : j < i), items[i].equal items[j] = false) ∧
      ∀ i (hi : i < items.length), i ∉ positions →
        ∃ j ∈ positions, ∃ hj : j < i, items[i].equal items[j] = true := by
  intro kept positions
  have hagain : distinct kept = kept := distinct_of_pairwise (distinct_pairwise items)
  refine ⟨rfl, rfl, ?_, distinct_sublist items, distinct_pairwise items, firstPositions_sorted items,
    distinct_eq_filterMap items, fun i hi => mem_firstPositions_iff hi,
    fun i hi h => exists_first_of_not_mem hi h⟩
  show Except.ok (Value.array (distinct kept)) = _
  rw [hagain]

/-- One as an integer and as a binary64 number are equal; NaN is equal to nothing. -/
example : firstPositions [.integer 1, .float .nan, .float (Binary64.ofInt 1), .float .nan] = [0, 1, 3] := by
  decide +kernel

end Vetting.Collection
