import Vetting.Text.Basic

/-!
# Texts as bytes

The octets of UTF-8. A code point is written by the first octet and by six bits in each of those
after it; the shortest form is the only one, and surrogates have none.
-/

namespace Vetting.Text

/-- How many octets follow a first octet, the number that it begins, and the least code point that
needs so many. -/
def leadingOctet? (b : Nat) : Option (Nat × Nat × Nat) :=
  if b < 0x80 then some (0, b, 0)
  else if 0xC0 ≤ b ∧ b < 0xE0 then some (1, b - 0xC0, 0x80)
  else if 0xE0 ≤ b ∧ b < 0xF0 then some (2, b - 0xE0, 0x800)
  else if 0xF0 ≤ b ∧ b < 0xF8 then some (3, b - 0xF0, 0x10000)
  else none

/-- The number that further octets make of the one that is begun. -/
def continued? (n : Nat) (octets : List Nat) : Option Nat :=
  octets.foldlM (fun n b => if 0x80 ≤ b ∧ b < 0xC0 then some (n * 64 + (b - 0x80)) else none) n

/-- Whether a number is a code point that texts in octets may hold. -/
def isScalar (c : Nat) : Bool := c < 0xD800 || (0xE000 ≤ c && c ≤ 0x10FFFF)

/-- The code points that octets write, unless they are malformed. -/
def pointsOfOctets? (octets : List Nat) : Option (List CodePoint) :=
  match octets with
  | [] => some []
  | b :: rest => do
    let (count, begun, least) ← leadingOctet? b
    let more := rest.take count
    if more.length < count then none
    let c ← continued? begun more
    if c < least ∨ !isScalar c then none
    let others ← pointsOfOctets? (rest.drop count)
    return c :: others
termination_by octets.length
decreasing_by exact Nat.lt_succ_of_le (List.drop_suffix count rest).length_le

end Vetting.Text
