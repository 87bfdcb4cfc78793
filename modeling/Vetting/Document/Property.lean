import Vetting.Document.Token
import Vetting.Text.Utf8

/-!
# Directives, anchors and tags

A directive is a line of its own that begins with a percent sign. An anchor names the node that
follows, an alias stands for the node that has the name. A tag says of what type the node is that
follows; a handle in front of its name stands for a longer one, and octets may be written with a
percent sign and two hexadecimal digits.
-/

namespace Vetting.Document

def exclamationMark : CodePoint := 33
def percentSign : CodePoint := 37

/-- Whether a code point may stand in a name: ASCII letters, digits, hyphens and underscores. -/
def isNamePoint (c : CodePoint) : Bool :=
  Text.isAsciiDigit c || (65 ≤ c && c ≤ 90) || (97 ≤ c && c ≤ 122) || c = hyphen || c = 95

/-- The name at the front, which must not be empty, and the marks after it. -/
def takeName (marks : List Mark) : Except Fault (List CodePoint × List Mark) :=
  let name := textOf (marks.takeWhile fun m => isNamePoint m.point)
  if name.isEmpty then malformed else .ok (name, marks.dropWhile fun m => isNamePoint m.point)

/-- The code points other than blanks that may follow the name of an anchor:
`? : , ] } % @` and the backtick. -/
def afterAnchor : List CodePoint := [63, 58, 44, 93, 125, 37, 64, 96]

def anchorName (marks : List Mark) : Except Fault (List CodePoint × List Mark) := do
  let (name, rest) ← takeName marks
  if isBlankAt rest ∨ nextIs (fun c => decide (c ∈ afterAnchor)) rest then return (name, rest)
  else malformed

/-! ## Tags -/

/-- The code points other than letters, digits, hyphens, underscores and percent signs that may
stand in the name of a tag: `; / ? : @ & = + $ , . ! ~ * ' ( ) [ ]`. -/
def tagPunctuation : List CodePoint :=
  [59, 47, 63, 58, 64, 38, 61, 43, 36, 44, 46, 33, 126, 42, 39, 40, 41, 91, 93]

def isTagPoint (c : CodePoint) : Bool := isNamePoint c || decide (c ∈ tagPunctuation)

/-- The octets that are written with percent signs at the front, and the marks after them. -/
def escapedOctets : List Mark → Except Fault (List Nat × List Mark)
  | m :: a :: b :: rest =>
    if m.point = percentSign then
      match Text.hexNumber? 2 [a.point, b.point] with
      | some octet => do
        let (octets, after) ← escapedOctets rest
        return (octet :: octets, after)
      | none => malformed
    else .ok ([], m :: a :: b :: rest)
  | marks => if nextIs (· = percentSign) marks then malformed else .ok ([], marks)

/-- The name of a tag at the front, which may be empty, and the marks after it. -/
def tagPart (marks : List Mark) : Except Fault (List CodePoint × List Mark) := do
  let plain := textOf (marks.takeWhile fun m => isTagPoint m.point)
  let rest := marks.dropWhile fun m => isTagPoint m.point
  if nextIs (· = percentSign) rest then
    let (octets, after) ← escapedOctets rest
    match Text.pointsOfOctets? octets with
    | none => malformed
    | some points =>
      if _shorter : after.length < marks.length then
        let (more, last) ← tagPart after
        return (plain ++ points ++ more, last)
      else malformed
  else return (plain, rest)
termination_by marks.length
decreasing_by exact _shorter

def tagName (marks : List Mark) : Except Fault (List CodePoint × List Mark) := do
  let (name, rest) ← tagPart marks
  if name.isEmpty then malformed else return (name, rest)

/-- The handle of a tag: an exclamation mark on its own, or a name between two of them. With it,
the marks after it. -/
def tagHandle : List Mark → Except Fault (List CodePoint × List Mark)
  | [] => malformed
  | m :: rest =>
    if m.point ≠ exclamationMark then malformed
    else if nextIs isSpace rest then .ok ([exclamationMark], rest)
    else
      let name := textOf (rest.takeWhile fun m => isNamePoint m.point)
      match rest.dropWhile fun m => isNamePoint m.point with
      | n :: after =>
        if n.point = exclamationMark then
          .ok (exclamationMark :: name ++ [exclamationMark], after)
        else malformed
      | [] => malformed

/-- Whether there is an exclamation mark before the next space. -/
def hasHandle (marks : List Mark) : Bool :=
  (marks.takeWhile fun m => !isSpace m.point && !isBreak m.point).any
    fun m => m.point = exclamationMark

/-- The tag after its exclamation mark `m`, and the marks after it. The mark on its own is the
tag of no type in particular. -/
def tagToken (m : Mark) (rest : List Mark) : Except Fault (Token × List Mark) := do
  let (token, after) ←
    if nextIs (· = 60) rest then do
      let (name, after) ← tagName (rest.drop 1)
      if nextIs (· = 62) after then pure (Token.tag none name, after.drop 1) else malformed
    else if isBlankAt rest then pure (Token.tag none [exclamationMark], rest)
    else if hasHandle rest then do
      let (handle, after) ← tagHandle (m :: rest)
      let (name, after) ← tagName after
      pure (Token.tag (some handle) name, after)
    else do
      let (name, after) ← tagName rest
      pure (Token.tag (some [exclamationMark]) name, after)
  if isGapAt after then return (token, after) else malformed

/-! ## Directives -/

def takeVersionNumber (marks : List Mark) : Except Fault (Nat × List Mark) :=
  let digits := textOf (marks.takeWhile fun m => Text.isAsciiDigit m.point)
  if digits.isEmpty then malformed
  else if Fault.digitLimit < digits.length then .error (.tooManyDigitsToRead digits.length)
  else .ok (Text.natOfDigits digits, marks.dropWhile fun m => Text.isAsciiDigit m.point)

def afterSpaces (marks : List Mark) : List Mark := marks.dropWhile fun m => isSpace m.point

/-- The version in a directive: two numbers with a point between them. -/
def versionDirective (marks : List Mark) : Except Fault (Directive × List Mark) := do
  let (major, rest) ← takeVersionNumber (afterSpaces marks)
  if nextIs (· = fullStop) rest then
    let (_, rest) ← takeVersionNumber (rest.drop 1)
    if isGapAt rest then return (.version major, rest) else malformed
  else malformed

/-- The handle in a directive and what it stands for. -/
def handleDirective (marks : List Mark) : Except Fault (Directive × List Mark) := do
  let (name, rest) ← tagHandle (afterSpaces marks)
  if nextIs isSpace rest then
    let (stem, rest) ← tagName (afterSpaces rest)
    if isGapAt rest then return (.handle name stem, rest) else malformed
  else malformed

/-- The directive after its percent sign, and the marks after its line. -/
def directive (marks : List Mark) : Except Fault (Directive × List Mark) := do
  let (name, rest) ← takeName marks
  if !isGapAt rest then malformed
  else
    let (d, rest) ←
      if name = (Text.ofString "YAML").points then versionDirective rest
      else if name = (Text.ofString "TAG").points then handleDirective rest
      else pure (.other, rest.dropWhile fun m => !isBreak m.point)
    match afterLine? rest with
    | some after => return (d, after)
    | none => malformed

end Vetting.Document
