import Vetting.Fault

/-!
# Placed code points

A document is read as a list of code points that know their line and column. The space between
two tokens is made of spaces, line breaks and comments; a comment runs to the end of its line.
-/

namespace Vetting.Document

/-- A code point with its place in a document. -/
structure Mark where
  point : CodePoint
  line : Nat
  column : Nat

def lineFeed : CodePoint := 10
def space : CodePoint := 32
def tab : CodePoint := 9
def numberSign : CodePoint := 35
def hyphen : CodePoint := 45
def fullStop : CodePoint := 46

/-- The mark that may stand in front of a text; it takes no column. -/
def orderMark : CodePoint := 0xFEFF

/-- Whether a code point ends a line, once line breaks are unified. -/
def isBreak (c : CodePoint) : Bool := c = lineFeed || c = 0x2028 || c = 0x2029

def isSpace (c : CodePoint) : Bool := c = space

def isSpaceOrTab (c : CodePoint) : Bool := c = space || c = tab

/-- The usual line breaks, each as one line feed. -/
def unifyBreaks : List CodePoint → List CodePoint
  | 13 :: 10 :: rest => lineFeed :: unifyBreaks rest
  | c :: rest => (if c = 13 || c = 0x85 then lineFeed else c) :: unifyBreaks rest
  | [] => []

def isAllowed (c : CodePoint) : Bool :=
  c = tab || c = 10 || c = 13 || (32 ≤ c && c ≤ 126) || c = 0x85 || (0xA0 ≤ c && c ≤ 0xD7FF)
    || (0xE000 ≤ c && c ≤ 0xFFFD) || (0x10000 ≤ c && c ≤ 0x10FFFF)

/-- The code points with their places, the first one at this line and column. -/
def placeFrom (line column : Nat) : List CodePoint → List Mark
  | [] => []
  | c :: rest =>
    ⟨c, line, column⟩ ::
      if isBreak c then placeFrom (line + 1) 0 rest
      else placeFrom line (if c = orderMark then column else column + 1) rest

def textOf (marks : List Mark) : List CodePoint := marks.map (·.point)

def nextIs (p : CodePoint → Bool) : List Mark → Bool
  | [] => false
  | m :: _ => p m.point

/-- Whether a mark is blank or ends a line. The end of the document counts as blank. -/
def isBlankAt : List Mark → Bool
  | [] => true
  | m :: _ => isSpaceOrTab m.point || isBreak m.point

/-- Whether a mark is a space or ends a line. The end of the document counts as a space. -/
def isGapAt : List Mark → Bool
  | [] => true
  | m :: _ => isSpace m.point || isBreak m.point

/-- Whether three times this code point stands at the front, and then a blank. -/
def isTriple (c : CodePoint) : List Mark → Bool
  | a :: b :: d :: rest => a.point = c && b.point = c && d.point = c && isBlankAt rest
  | _ => false

/-- Whether the front looks like the border between two documents. -/
def isBorderAt (marks : List Mark) : Bool := isTriple hyphen marks || isTriple fullStop marks

/-! ## Space between tokens -/

/-- The marks after the space in front of them, which may begin inside a comment. -/
def afterSpace (inComment : Bool) : List Mark → List Mark
  | [] => []
  | m :: rest =>
    if isBreak m.point then afterSpace false rest
    else if inComment || m.point = space then afterSpace inComment rest
    else if m.point = numberSign then afterSpace true rest
    else m :: rest

def skip (marks : List Mark) : List Mark := afterSpace false marks

theorem length_dropWhile_le (p : Mark → Bool) (marks : List Mark) :
    (marks.dropWhile p).length ≤ marks.length :=
  (List.dropWhile_suffix p).length_le

/-- What is left of a line after spaces and a comment, which has to be its end. -/
def afterLine? (marks : List Mark) : Option (List Mark) :=
  let rest := marks.dropWhile fun m => isSpace m.point
  let rest := if nextIs (· = numberSign) rest then rest.dropWhile fun m => !isBreak m.point else rest
  match rest with
  | [] => some []
  | m :: rest => if isBreak m.point then some rest else none

/-! ## Results of reading -/

/-- What a reader makes of marks: a result, and the marks after it. -/
abbrev Reading (α : Type) (marks : List Mark) :=
  Except Fault { r : α × List Mark // r.2.length < marks.length }

def malformed {α : Type} : Except Fault α := .error .malformedDocument

end Vetting.Document
