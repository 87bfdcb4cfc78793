import Vetting.Text.Range

/-!
# Decimal digits of every script

The digits of one script stand in a row, from zero to nine.
-/

namespace Vetting.CodePoint

/-- The zeros of the scripts of Unicode 14. -/
def zeros : List Nat := [
  48, 1632, 1776, 1984, 2406, 2534, 2662, 2790, 2918, 3046,
  3174, 3302, 3430, 3558, 3664, 3792, 3872, 4160, 4240, 6112,
  6160, 6470, 6608, 6784, 6800, 6992, 7088, 7232, 7248, 42528,
  43216, 43264, 43472, 43504, 43600, 44016, 65296, 66720, 68912, 69734,
  69872, 69942, 70096, 70384, 70736, 70864, 71248, 71360, 71472, 71904,
  72016, 72784, 73040, 73120, 92768, 92864, 93008, 120782, 120792, 120802,
  120812, 120822, 123200, 123632, 125264, 130032]

/-- The value of a decimal digit of any script. -/
def decimalValue? (c : CodePoint) : Option Nat :=
  (zeros.find? fun start => start ≤ c && c < start + 10).map (c - ·)

def isDecimal (c : CodePoint) : Bool := (decimalValue? c).isSome

end Vetting.CodePoint
