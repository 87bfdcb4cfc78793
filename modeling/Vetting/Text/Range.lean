import Vetting.Text.Basic

/-!
# Sets of code points given by ranges

A class of code points is a list of disjoint ranges in increasing order, both ends included.
-/

namespace Vetting.CodePoint

/-- Membership in an increasing list of ranges; the search stops at the first range above. -/
def inRanges : List (Nat × Nat) → CodePoint → Bool
  | [], _ => false
  | (low, high) :: rest, c => if c < low then false else if c ≤ high then true else inRanges rest c

/-- What `inRanges` decides lies in one of the ranges. -/
theorem exists_range_of_inRanges {ranges : List (Nat × Nat)} {c : CodePoint}
    (h : inRanges ranges c = true) : ∃ r ∈ ranges, r.1 ≤ c ∧ c ≤ r.2 := by
  induction ranges with
  | nil => simp [inRanges] at h
  | cons r rest ih =>
    obtain ⟨low, high⟩ := r
    simp only [inRanges] at h
    split at h
    · simp at h
    next above =>
      split at h
      next below => exact ⟨(low, high), by simp, Nat.not_lt.mp above, below⟩
      · obtain ⟨r, hr, hc⟩ := ih h
        exact ⟨r, by simp [hr], hc⟩

end Vetting.CodePoint
