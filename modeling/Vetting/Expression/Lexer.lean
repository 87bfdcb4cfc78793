import Vetting.Expression.Problem
import Vetting.Expression.Token
import Vetting.Text.Blank
import Vetting.Text.Letter

/-!
# From text to tokens

The lexer skips blanks and takes one token after the other. Each reader looks at the rest of the
text and says how many code points its token spells; it always spells at least one.
-/

namespace Vetting.Lexer

open CodePoint Text

/-- A token read from the front of a text: its kind, its value, and the number of code points
after the first that it spells. -/
structure Reading where
  kind : TokenKind
  value : Value
  extra : Nat

/-- The rest of the text from `position` on, as a failure of this problem. -/
def failAt {α : Type} (problem : ParseProblem) (position : Nat) : Except ParseFailure α :=
  .error ⟨problem, some position⟩

def startsWithDigit (points : List CodePoint) : Bool := (points.head?.map isAsciiDigit).getD false

/-! ## Numbers -/

/-- The digits of a numeral: before the point, after it, and the exponent if it is written. -/
structure NumeralParts where
  whole : List CodePoint
  fraction : Option (List CodePoint)
  exponent : Option (Bool × List CodePoint)

/-- The fraction at the front of a text: a point with a digit after it. -/
def readFraction (points : List CodePoint) : Option (List CodePoint) × List CodePoint :=
  match points with
  | 46 :: rest =>
    if startsWithDigit rest then (some (rest.takeWhile isAsciiDigit), rest.dropWhile isAsciiDigit)
    else (none, points)
  | _ => (none, points)

/-- The exponent at the front of a text, with its sign; `none` where an exponent has no digits. -/
def readExponent (points : List CodePoint) :
    Option (Option (Bool × List CodePoint) × List CodePoint) :=
  match points with
  | c :: rest =>
    if c = 101 || c = 69 then
      let (negative, digits) := match rest with
        | 43 :: digits => (false, digits)
        | 45 :: digits => (true, digits)
        | digits => (false, digits)
      if startsWithDigit digits then
        some (some (negative, digits.takeWhile isAsciiDigit), digits.dropWhile isAsciiDigit)
      else none
    else some (none, points)
  | [] => some (none, points)

/-- The number that a numeral denotes; an integer may have too many digits. -/
def NumeralParts.number? (parts : NumeralParts) : Option Number :=
  match parts.fraction, parts.exponent with
  | none, none =>
    if Fault.digitLimit < parts.whole.length then none
    else some (.integer (natOfDigits parts.whole))
  | fraction, exponent =>
    let fraction := fraction.getD []
    let power : Int := match exponent with
      | none => 0
      | some (negative, digits) =>
        if negative then -(natOfDigits digits : Int) else natOfDigits digits
    some (.float (Binary64.ofDecimal false (natOfDigits (parts.whole ++ fraction))
      (power - fraction.length)))

def readNumber (points : List CodePoint) (position : Nat) : Except ParseFailure Reading :=
  let whole := points.takeWhile isAsciiDigit
  let (fraction, rest) := readFraction (points.dropWhile isAsciiDigit)
  match readExponent rest with
  | none => failAt .malformedExponent (position + (points.length - rest.length))
  | some (exponent, rest) =>
    let spelled := points.length - rest.length
    if (rest.head?.map fun c => isLetter c || c = 95).getD false then
      failAt .letterInNumber (position + spelled)
    else match NumeralParts.number? ⟨whole, fraction, exponent⟩ with
      | some n => .ok ⟨.number, .number n, spelled - 1⟩
      | none => failAt .numberTooLarge position

/-! ## Strings -/

def isHexDigit (c : CodePoint) : Bool :=
  isAsciiDigit c || (97 ≤ c && c ≤ 102) || (65 ≤ c && c ≤ 70)

def hexValue (c : CodePoint) : Nat :=
  if isAsciiDigit c then c - 48 else if 97 ≤ c then c - 87 else c - 55

/-- What a backslash and this code point stand for; an unknown escape stands for its code point. -/
def escaped (c : CodePoint) : CodePoint :=
  if c = 110 then 10
  else if c = 116 then 9
  else if c = 114 then 13
  else if c = 98 then 8
  else if c = 102 then 12
  else if c = 48 then 0
  else c

/-- The content of a string after its opening quote, and the number of code points up to and
with the closing quote. `position` is that of the first of the given code points. -/
def readContent (quote start : Nat) (position : Nat) :
    List CodePoint → Except ParseFailure (List CodePoint × Nat)
  | [] => failAt .unterminatedString start
  | c :: rest =>
    if c = quote then .ok ([], 1)
    else if c = 92 then
      match rest with
      | [] => failAt .unterminatedString position
      | 117 :: a :: b :: c :: d :: rest =>
        if [a, b, c, d].all isHexDigit then do
          let (content, length) ← readContent quote start (position + 6) rest
          let point := ((hexValue a * 16 + hexValue b) * 16 + hexValue c) * 16 + hexValue d
          return (point :: content, length + 6)
        else failAt .invalidUnicodeEscape position
      | 117 :: _ => failAt .invalidUnicodeEscape position
      | e :: rest => do
        let (content, length) ← readContent quote start (position + 2) rest
        return (escaped e :: content, length + 2)
    else do
      let (content, length) ← readContent quote start (position + 1) rest
      return (c :: content, length + 1)

def readString (quote : CodePoint) (rest : List CodePoint) (position : Nat) :
    Except ParseFailure Reading := do
  let (content, length) ← readContent quote position (position + 1) rest
  return ⟨.string, .text ⟨content⟩, length⟩

/-! ## Words and symbols -/

def startsWord (c : CodePoint) : Bool := isLetter c || c = 95 || c = 36

def continuesWord (c : CodePoint) : Bool := isLetterOrNumeral c || c = 95 || c = 36

def readWord (first : CodePoint) (rest : List CodePoint) : Reading :=
  let tail := rest.takeWhile continuesWord
  let word : Text := ⟨first :: tail⟩
  match Token.keyword? word with
  | some (kind, value) => ⟨kind, value, tail.length⟩
  | none => ⟨.identifier, .text word, tail.length⟩

def readSymbol (first : CodePoint) (rest : List CodePoint) (position : Nat) :
    Except ParseFailure Reading :=
  match Token.symbols.find? fun symbol => symbol.1.points.isPrefixOf (first :: rest) with
  | some (symbol, kind) => .ok ⟨kind, .text symbol, symbol.length - 1⟩
  | none => failAt (.unexpectedCharacter first) position

def read (first : CodePoint) (rest : List CodePoint) (position : Nat) :
    Except ParseFailure Reading :=
  if isAsciiDigit first || (first = 46 && startsWithDigit rest) then
    readNumber (first :: rest) position
  else if first = 39 || first = 34 then readString first rest position
  else if startsWord first then .ok (readWord first rest)
  else readSymbol first rest position

/-! ## The token list -/

/-- The tokens of the code points from `position` on, with the token that marks the end. -/
def scan (position : Nat) (points : List CodePoint) : Except ParseFailure (List Token) :=
  match points with
  | [] => .ok [⟨.ending, .null, position, ""⟩]
  | c :: rest =>
    if isBlank c then scan (position + 1) rest
    else do
      let reading ← read c rest position
      let tokens ← scan (position + reading.extra + 1) (rest.drop reading.extra)
      return ⟨reading.kind, reading.value, position, ⟨c :: rest.take reading.extra⟩⟩ :: tokens
termination_by points.length
decreasing_by all_goals (simp; try omega)

def tokenize (text : Text) : Except ParseFailure (List Token) := scan 0 text.points

end Vetting.Lexer
