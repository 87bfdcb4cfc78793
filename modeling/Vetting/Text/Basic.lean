/-!
# Texts

A text is a finite sequence of code points. Positions and lengths count code points,
and a code point need not be a Unicode scalar value: a lone surrogate is a code point too.
-/

namespace Vetting

/-- A code point, written as its number. -/
abbrev CodePoint := Nat

/-- A text, as the list of its code points. -/
structure Text where
  points : List CodePoint
deriving DecidableEq, Inhabited

namespace Text

def ofString (s : String) : Text := ⟨s.toList.map Char.toNat⟩

instance : Coe String Text := ⟨ofString⟩

def empty : Text := ⟨[]⟩

instance : Append Text := ⟨fun a b => ⟨a.points ++ b.points⟩⟩

def length (t : Text) : Nat := t.points.length

def isEmpty (t : Text) : Bool := t.points.isEmpty

def singleton (c : CodePoint) : Text := ⟨[c]⟩

@[simp] theorem points_append (a b : Text) : (a ++ b).points = a.points ++ b.points := rfl

@[simp] theorem length_append (a b : Text) : (a ++ b).length = a.length + b.length := by
  simp [length]

@[ext] theorem ext {a b : Text} (h : a.points = b.points) : a = b := by
  cases a; cases b; simp_all

theorem append_assoc (a b c : Text) : a ++ b ++ c = a ++ (b ++ c) := by
  ext1; simp

@[simp] theorem append_empty (a : Text) : a ++ empty = a := by
  ext1; simp [empty]

@[simp] theorem empty_append (a : Text) : empty ++ a = a := by
  ext1; simp [empty]

def concat : List Text → Text
  | [] => empty
  | t :: ts => t ++ concat ts

def join (separator : Text) : List Text → Text
  | [] => empty
  | [t] => t
  | t :: u :: ts => t ++ separator ++ join separator (u :: ts)

def comparePoints : List CodePoint → List CodePoint → Ordering
  | [], [] => .eq
  | [], _ :: _ => .lt
  | _ :: _, [] => .gt
  | a :: as, b :: bs => if a < b then .lt else if b < a then .gt else comparePoints as bs

/-- Texts are ordered by their first differing code point; a proper initial part comes first. -/
def compare (a b : Text) : Ordering := comparePoints a.points b.points

/-- A copy without the code points at both ends that satisfy `p`. -/
def trimPoints (p : CodePoint → Bool) (points : List CodePoint) : List CodePoint :=
  ((points.dropWhile p).reverse.dropWhile p).reverse

def splitPoints (separator : CodePoint) : List CodePoint → List (List CodePoint)
  | [] => [[]]
  | c :: cs =>
    if c = separator then [] :: splitPoints separator cs
    else match splitPoints separator cs with
      | [] => [[c]]
      | part :: parts => (c :: part) :: parts

def split (separator : CodePoint) (t : Text) : List Text :=
  (splitPoints separator t.points).map Text.mk

/-- Sorting by code point order; equal texts keep their order. -/
def sort (texts : List Text) : List Text :=
  texts.mergeSort fun a b => compare a b != .gt

/-! ## Decimal digits of natural numbers -/

/-- The decimal digits of a number, the most significant first. -/
def digitsOfNat (n : Nat) : List Nat :=
  if n < 10 then [n] else digitsOfNat (n / 10) ++ [n % 10]
termination_by n
decreasing_by omega

def digitPoint (d : Nat) : CodePoint := 48 + d

def ofNat (n : Nat) : Text := ⟨(digitsOfNat n).map digitPoint⟩

def ofInt (i : Int) : Text :=
  if i < 0 then singleton 45 ++ ofNat i.natAbs else ofNat i.natAbs

def isAsciiDigit (c : CodePoint) : Bool := 48 ≤ c && c ≤ 57

/-- The number that ASCII digits write, the most significant first. -/
def natOfDigits (points : List CodePoint) : Nat :=
  points.foldl (fun n c => n * 10 + (c - 48)) 0

def hexValue? (c : CodePoint) : Option Nat :=
  if 48 ≤ c ∧ c ≤ 57 then some (c - 48)
  else if 97 ≤ c ∧ c ≤ 102 then some (c - 87)
  else if 65 ≤ c ∧ c ≤ 70 then some (c - 55)
  else none

/-- The number that exactly `width` hexadecimal digits write. -/
def hexNumber? (width : Nat) (points : List CodePoint) : Option Nat := do
  let values ← points.mapM hexValue?
  if values.length = width then some (values.foldl (fun n d => n * 16 + d) 0) else none

/-- A number in decimal, filled with zeros on the left up to `width` digits. -/
def padNat (width n : Nat) : Text :=
  let digits := (digitsOfNat n).map digitPoint
  ⟨List.replicate (width - digits.length) 48 ++ digits⟩

/-- The hexadecimal digits of a number, at least `width` of them, in lower case. -/
def hex (width n : Nat) : Text :=
  ofString (String.ofList (List.replicate (width - (Nat.toDigits 16 n).length) '0' ++ Nat.toDigits 16 n))

end Text
end Vetting
