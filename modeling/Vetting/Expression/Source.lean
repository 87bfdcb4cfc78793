import Vetting.Error
import Vetting.Expression.Lexer
import Vetting.Expression.Parser

/-!
# Parsing a text

The length is checked first, then the text is split into tokens, then the tree is built. Every
error of these steps carries the text.
-/

namespace Vetting.Expression

def parseError (source : Text) (failure : ParseFailure) : Failure :=
  .engine (.expression (.ofParse failure (some source)))

/-- The tree of a text within these limits, by a parser that nests up to `capacity` levels. A limit is
looked at when it is first needed. -/
def parseText (capacity : Nat) (limits : Limits) (text : Text) : Except Failure Node := do
  let length ← ofFault (Limit.ofValue limits.length)
  if length.exceededBy text.length then
    throw (parseError text ⟨.tooLong length.label, none⟩)
  let tokens ← (Lexer.tokenize text).mapError (parseError text)
  if Parser.kindAt tokens = .ending then
    throw (parseError text ⟨.atEnd .empty, some (Parser.positionAt tokens)⟩)
  let depth ← ofFault (Limit.ofValue limits.depth)
  (Parser.parse ⟨depth, capacity⟩ tokens).mapError (parseError text)

/-- The tree of a value, which must be a text. -/
def parse (capacity : Nat) (limits : Limits) (source : Value) : Except Failure Node :=
  match source with
  | .text text => parseText capacity limits text
  | v => .error (.engine (.expression (.ofParse ⟨.notText v.typeName, none⟩ none)))

end Vetting.Expression
