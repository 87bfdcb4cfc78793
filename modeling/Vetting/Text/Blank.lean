import Vetting.Text.Range

/-!
# Blank space

The code points that separate tokens and that trimming removes: the white space of Unicode,
with the four information separators of ASCII.
-/

namespace Vetting

def CodePoint.blankRanges : List (Nat × Nat) := [
  (9, 13), (28, 32), (133, 133), (160, 160), (5760, 5760), (8192, 8202), (8232, 8233),
  (8239, 8239), (8287, 8287), (12288, 12288)]

def CodePoint.isBlank (c : CodePoint) : Bool := CodePoint.inRanges CodePoint.blankRanges c

def Text.trim (t : Text) : Text := ⟨Text.trimPoints CodePoint.isBlank t.points⟩

end Vetting
