import Vetting.Document.Mark
import Vetting.Text.Basic

/-!
# The texts of scalars

A scalar is bare, or stands in quotes, or is a block of lines that are indented further than what
they belong to. Within a bare or quoted scalar a single line break is a space, and of several the
first one is left out. A single quote inside single quotes is written twice; between double quotes
a backslash begins an escape. A block keeps its line breaks, or is folded in the same way.
-/

namespace Vetting.Document

def colon : CodePoint := 58
def singleQuote : CodePoint := 39
def doubleQuote : CodePoint := 34
def backslash : CodePoint := 92
def questionMark : CodePoint := 63

def foldBreaks (first : CodePoint) (more : List CodePoint) : List CodePoint :=
  if first = lineFeed then if more.isEmpty then [space] else more else first :: more

/-! ## Bare scalars -/

def isFlowIndicator (c : CodePoint) : Bool :=
  c = 44 || c = 91 || c = 93 || c = 123 || c = 125

/-- The code points that begin something else than a bare scalar:
`- ? : , [ ] { } # & * ! | > ' " % @` and the backtick. -/
def indicators : List CodePoint :=
  [45, 63, 58, 44, 91, 93, 123, 125, 35, 38, 42, 33, 124, 62, 39, 34, 37, 64, 96]

/-- Whether a bare scalar begins at the front. A hyphen begins one if no blank follows; outside
flow collections so do a question mark and a colon. -/
def beginsBare (inFlow : Bool) : List Mark → Bool
  | [] => false
  | m :: rest =>
    !isBlankAt (m :: rest) && (!decide (m.point ∈ indicators)
      || (!isBlankAt rest
        && (m.point = hyphen || (!inFlow && (m.point = questionMark || m.point = colon)))))

def endsBare (inFlow : Bool) : List Mark → Bool
  | [] => true
  | m :: rest =>
    isBlankAt (m :: rest)
      || (m.point = colon && (isBlankAt rest || (inFlow && nextIs isFlowIndicator rest)))
      || (inFlow && (isFlowIndicator m.point || m.point = questionMark))

/-- The part of a bare scalar without blanks, and the marks after it. -/
def barePart (inFlow : Bool) : List Mark → List CodePoint × List Mark
  | [] => ([], [])
  | m :: rest =>
    if endsBare inFlow (m :: rest) then ([], m :: rest)
    else
      let (part, after) := barePart inFlow rest
      (m.point :: part, after)

/-- Blanks in a bare scalar: the text that stands for them, which is empty where the scalar ends;
the marks after them; and whether a line ended. -/
structure Blanks where
  text : List CodePoint
  after : List Mark
  crossed : Bool

/-- Further line breaks and the spaces around them, unless they lead to the border of a document. -/
def bareBreaks (read : List CodePoint) : List Mark → Option (List CodePoint) × List Mark
  | [] => (some read, [])
  | m :: rest =>
    if m.point = space then bareBreaks read rest
    else if isBreak m.point then
      if isBorderAt rest then (none, rest) else bareBreaks (read ++ [m.point]) rest
    else (some read, m :: rest)

def bareBlanks (marks : List Mark) : Blanks :=
  let spaces := textOf (marks.takeWhile fun m => isSpace m.point)
  match marks.dropWhile fun m => isSpace m.point with
  | [] => ⟨spaces, [], false⟩
  | m :: rest =>
    if isBreak m.point then
      if isBorderAt rest then ⟨[], rest, true⟩
      else
        let (breaks, after) := bareBreaks [] rest
        ⟨(breaks.map (foldBreaks m.point)).getD [], after, true⟩
    else ⟨spaces, m :: rest, false⟩

def startsAt (least : Nat) : List Mark → Bool
  | [] => false
  | m :: _ => least ≤ m.column

/-- A bare scalar, the marks after it and its blanks, and whether a line ended in those blanks.
Outside flow collections, further lines belong to it if they start at the column `least` or
later. -/
def bare (inFlow : Bool) (least : Nat) (marks : List Mark) : List CodePoint × List Mark × Bool :=
  let (part, after) := barePart inFlow marks
  let blanks := bareBlanks after
  let goesOn := !blanks.text.isEmpty && !nextIs (· = numberSign) blanks.after
    && (inFlow || startsAt least blanks.after) && !endsBare inFlow blanks.after
  if _shorter : goesOn ∧ blanks.after.length < marks.length then
    let (more, rest) := bare inFlow least blanks.after
    (part ++ blanks.text ++ more, rest)
  else (part, blanks.after, blanks.crossed)
termination_by marks.length
decreasing_by exact _shorter.2

/-! ## Quoted scalars -/

/-- Further line breaks in quotes and the blanks around them. No line may look like the border of
a document. -/
def quotedBreaks (marks : List Mark) :
    Except Fault { r : List CodePoint × List Mark // r.2.length ≤ marks.length } :=
  if isBorderAt marks then malformed
  else
    match h : marks.dropWhile fun m => isSpaceOrTab m.point with
    | [] => .ok ⟨([], []), by simp⟩
    | m :: rest =>
      have shorter : rest.length + 1 ≤ marks.length := by
        have := length_dropWhile_le (fun m => isSpaceOrTab m.point) marks
        rw [h] at this
        exact this
      if isBreak m.point then do
        let ⟨(breaks, after), notLonger⟩ ← quotedBreaks rest
        return ⟨(m.point :: breaks, after), Nat.le_trans notLonger (Nat.le_of_succ_le shorter)⟩
      else .ok ⟨([], m :: rest), shorter⟩
termination_by marks.length
decreasing_by exact shorter

/-- The blanks in front of what follows within quotes. At the end of a line the blanks go, and so
do those at the start of the next one. -/
def quotedBlanks (m : Mark) (rest : List Mark) : Reading (List CodePoint) (m :: rest) :=
  if isBreak m.point then do
    let ⟨(breaks, after), notLonger⟩ ← quotedBreaks rest
    return ⟨(foldBreaks m.point breaks, after), Nat.lt_succ_of_le notLonger⟩
  else
    match h : rest.dropWhile fun m => isSpaceOrTab m.point with
    | [] => malformed
    | n :: next =>
      have shorter : next.length + 1 ≤ rest.length := by
        have := length_dropWhile_le (fun m => isSpaceOrTab m.point) rest
        rw [h] at this
        exact this
      if isBreak n.point then do
        let ⟨(breaks, after), notLonger⟩ ← quotedBreaks next
        return ⟨(foldBreaks n.point breaks, after),
          Nat.lt_succ_of_le (Nat.le_trans notLonger (Nat.le_of_succ_le shorter))⟩
      else
        .ok ⟨(m.point :: textOf (rest.takeWhile fun m => isSpaceOrTab m.point), n :: next),
          Nat.lt_succ_of_le shorter⟩

def singleQuoted (marks : List Mark) : Reading (List CodePoint) marks :=
  match marks with
  | [] => malformed
  | m :: rest =>
    if m.point = singleQuote then
      match rest with
      | [] => .ok ⟨([], []), by simp⟩
      | n :: next =>
        if n.point = singleQuote then do
          let ⟨(text, after), shorter⟩ ← singleQuoted next
          return ⟨(singleQuote :: text, after), by simp at *; omega⟩
        else .ok ⟨([], n :: next), by simp⟩
    else if isBlankAt (m :: rest) then do
      let ⟨(blanks, next), shorter⟩ ← quotedBlanks m rest
      let ⟨(text, after), shorter'⟩ ← singleQuoted next
      return ⟨(blanks ++ text, after), Nat.lt_trans shorter' shorter⟩
    else do
      let ⟨(text, after), shorter⟩ ← singleQuoted rest
      return ⟨(m.point :: text, after), Nat.lt_succ_of_lt shorter⟩
termination_by marks.length
decreasing_by all_goals (simp at *; try omega)

/-- The code points that a backslash and one more code point stand for. -/
def simpleEscapes : List (CodePoint × CodePoint) := [
  (48, 0), (97, 7), (98, 8), (116, 9), (tab, 9), (110, 10), (118, 11), (102, 12), (114, 13),
  (101, 27), (32, 32), (doubleQuote, doubleQuote), (backslash, backslash), (47, 47),
  (78, 0x85), (95, 0xA0), (76, 0x2028), (80, 0x2029)]

/-- How many hexadecimal digits follow `x`, `u` and `U`. -/
def escapeWidths : List (CodePoint × Nat) := [(120, 2), (117, 4), (85, 8)]

/-- The code point of this number; a larger number is none. -/
def escapedPoint (n : Nat) : Except Fault CodePoint :=
  if n ≤ 0x10FFFF then .ok n
  else if n < Nat.pow 2 31 then .error .notACodePoint
  else .error .beyondWord

/-- What an escape stands for, and the marks after it; the backslash is already read. A line break
that is escaped goes, and so do the blanks after it. -/
def escape (marks : List Mark) : Reading (List CodePoint) marks :=
  match marks with
  | [] => malformed
  | m :: rest =>
    if isBreak m.point then do
      let ⟨(breaks, after), notLonger⟩ ← quotedBreaks rest
      return ⟨(breaks, after), Nat.lt_succ_of_le notLonger⟩
    else
      match simpleEscapes.lookup m.point, escapeWidths.lookup m.point with
      | some c, _ => .ok ⟨([c], rest), Nat.lt_succ_self _⟩
      | none, some width =>
        match Text.hexNumber? width (textOf (rest.take width)) with
        | none => malformed
        | some n => do
          let c ← escapedPoint n
          return ⟨([c], rest.drop width), Nat.lt_succ_of_le (List.drop_suffix width rest).length_le⟩
      | none, none => malformed

def doubleQuoted (marks : List Mark) : Reading (List CodePoint) marks :=
  match marks with
  | [] => malformed
  | m :: rest =>
    if m.point = doubleQuote then .ok ⟨([], rest), Nat.lt_succ_self _⟩
    else do
      let ⟨(part, next), shorter⟩ ← quotedPart m rest
      let ⟨(text, after), shorter'⟩ ← doubleQuoted next
      return ⟨(part ++ text, after), Nat.lt_trans shorter' shorter⟩
termination_by marks.length
decreasing_by exact shorter
where
  /-- An escape, blanks, or a code point that stands for itself. -/
  quotedPart (m : Mark) (rest : List Mark) : Reading (List CodePoint) (m :: rest) :=
    if m.point = backslash then do
      let ⟨(part, next), shorter⟩ ← escape rest
      return ⟨(part, next), Nat.lt_succ_of_lt shorter⟩
    else if isBlankAt (m :: rest) then quotedBlanks m rest
    else .ok ⟨([m.point], rest), Nat.lt_succ_self _⟩

/-! ## Block scalars -/

/-- What becomes of the line breaks at the end of a block: all but the last go, all stay, or all
go. -/
inductive Chomping where
  | clip | keep | strip

/-- The header of a block scalar: its chomping, and how much further than what it belongs to its
lines are indented, if the header says so. -/
structure BlockHeader where
  chomping : Chomping
  indentation : Option Nat

def chompingOf? (c : CodePoint) : Option Chomping :=
  if c = 43 then some .keep else if c = hyphen then some .strip else none

def takeChomping : List Mark → Option Chomping × List Mark
  | [] => (none, [])
  | m :: rest =>
    match chompingOf? m.point with
    | some chomping => (some chomping, rest)
    | none => (none, m :: rest)

def takeIndentation : List Mark → Option Nat × List Mark
  | [] => (none, [])
  | m :: rest => if Text.isAsciiDigit m.point then (some (m.point - 48), rest) else (none, m :: rest)

/-- The header of a block scalar and the marks after its line; chomping and indentation may stand
in either order. -/
def blockHeader (marks : List Mark) : Except Fault (BlockHeader × List Mark) :=
  let (early, rest) := takeChomping marks
  let (indentation, rest) := takeIndentation rest
  let (late, rest) := if early.isNone && indentation.isSome then takeChomping rest else (none, rest)
  if indentation = some 0 ∨ !isGapAt rest then malformed
  else
    match afterLine? rest with
    | some after => .ok (⟨(early.orElse fun _ => late).getD .clip, indentation⟩, after)
    | none => malformed

def afterIndentation (column : Nat) (marks : List Mark) : List Mark :=
  marks.dropWhile fun m => isSpace m.point && m.column < column

/-- The breaks of empty lines, with spaces before a column in them, and the marks after them and
the spaces before that column. -/
def emptyLines (column : Nat) (marks : List Mark) : List CodePoint × List Mark :=
  match _h : afterIndentation column marks with
  | [] => ([], [])
  | m :: rest =>
    if isBreak m.point then
      let (breaks, after) := emptyLines column rest
      (m.point :: breaks, after)
    else ([], m :: rest)
termination_by marks.length
decreasing_by
  have := length_dropWhile_le (fun m => isSpace m.point && decide (m.column < column)) marks
  unfold afterIndentation at _h
  rw [_h] at this
  exact this

/-- The column of the first line of a block whose header does not give it: that of the longest run
of spaces before the line. With it, the breaks before the line and the marks after them. -/
def firstLine (least : Nat) (marks : List Mark) : Nat × List CodePoint × List Mark :=
  let inRun (m : Mark) : Bool := isSpace m.point || isBreak m.point
  let run := marks.takeWhile inRun
  let longest := (run.filter fun m => isSpace m.point).foldl (fun n m => max n (m.column + 1)) 0
  (max least longest, (textOf run).filter isBreak, marks.dropWhile inRun)

def isLineAt (column : Nat) : List Mark → Bool
  | [] => false
  | m :: _ => m.column = column

/-- The text between two lines of a block with empty lines between them. Folding leaves a break
alone next to a line that starts with a blank. -/
def lineJoint (folded : Bool) (lineBreak : List CodePoint) (breaks : List CodePoint)
    (line next : List Mark) : List CodePoint :=
  if folded && lineBreak == [lineFeed] && !nextIs isSpaceOrTab line && !nextIs isSpaceOrTab next then
    if breaks.isEmpty then [space] else []
  else lineBreak

/-- The lines of a block at a column, the last break and the breaks of the empty lines after it,
and the marks after the block. -/
def blockLines (folded : Bool) (column : Nat) (marks : List Mark) :
    List CodePoint × List CodePoint × List CodePoint × List Mark :=
  let line := textOf (marks.takeWhile fun m => !isBreak m.point)
  let rest := marks.dropWhile fun m => !isBreak m.point
  let lineBreak := textOf (rest.take 1)
  let (breaks, next) := emptyLines column (rest.drop 1)
  if _shorter : isLineAt column next ∧ next.length < marks.length then
    let (lines, last) := blockLines folded column next
    (line ++ lineJoint folded lineBreak breaks marks next ++ breaks ++ lines, last)
  else (line, lineBreak, breaks, next)
termination_by marks.length
decreasing_by exact _shorter.2

/-- The text of a block after its header, and the marks after it. Its lines start at the column
`least` at the earliest. -/
def block (folded : Bool) (header : BlockHeader) (least : Nat) (marks : List Mark) :
    List CodePoint × List Mark :=
  let (column, first, marks) := match header.indentation with
    | none => firstLine least marks
    | some n => (least + n - 1, emptyLines (least + n - 1) marks)
  let (lines, lineBreak, breaks, after) :=
    if isLineAt column marks then
      let (lines, last) := blockLines folded column marks
      (first ++ lines, last)
    else ([], [], first, marks)
  match header.chomping with
  | .clip => (lines ++ lineBreak, after)
  | .keep => (lines ++ lineBreak ++ breaks, after)
  | .strip => (lines, after)

end Vetting.Document
