import Vetting.Text.CaseTable

/-!
# Upper, lower and title case

The full case mappings of Unicode. A capital sigma becomes a final sigma at the end of a word,
which is the one rule that looks at the neighbours of a code point.
-/

namespace Vetting

namespace CodePoint

def isCased (c : CodePoint) : Bool := inRanges casedRanges c

def isCaseIgnorable (c : CodePoint) : Bool := inRanges caseIgnorableRanges c

def capitalSigma : CodePoint := 0x3A3
def smallSigma : CodePoint := 0x3C3
def finalSigma : CodePoint := 0x3C2
def capitalDottedI : CodePoint := 0x130

/-- The lower case form of a code point other than a capital sigma. -/
def toLower (c : CodePoint) : List CodePoint :=
  if c = capitalDottedI then [0x69, 0x307] else [shifted lowerShifts c]

def toUpper (c : CodePoint) : List CodePoint :=
  match upperExpansions.lookup c with
  | some points => points
  | none => [shifted upperShifts c]

def toTitle (c : CodePoint) : List CodePoint :=
  match titleExceptions.lookup c with
  | some points => points
  | none => toUpper c

/-- Whether the first code point that case rules do not look through is cased. -/
def nextIsCased (points : List CodePoint) : Bool :=
  match points.dropWhile isCaseIgnorable with
  | [] => false
  | c :: _ => isCased c

/-- The lower case form of `c` between the reversed text before it and the text after it. -/
def lowerBetween (before : List CodePoint) (c : CodePoint) (after : List CodePoint) : List CodePoint :=
  if c = capitalSigma then
    [if nextIsCased before && !nextIsCased after then finalSigma else smallSigma]
  else toLower c

end CodePoint

namespace Text

def lowerPoints (before : List CodePoint) : List CodePoint → List CodePoint
  | [] => []
  | c :: rest => CodePoint.lowerBetween before c rest ++ lowerPoints (c :: before) rest

def toLower (t : Text) : Text := ⟨lowerPoints [] t.points⟩

def toUpper (t : Text) : Text := ⟨t.points.flatMap CodePoint.toUpper⟩

def titlePoints (before : List CodePoint) : List CodePoint → List CodePoint
  | [] => []
  | c :: rest =>
    (if (before.head?.map CodePoint.isCased).getD false then CodePoint.lowerBetween before c rest
      else CodePoint.toTitle c) ++ titlePoints (c :: before) rest

/-- Each word begins with a title case letter and goes on in lower case. -/
def toTitle (t : Text) : Text := ⟨titlePoints [] t.points⟩

end Text
end Vetting
