import Vetting.Document.Mark

/-!
# Tokens of documents

A document is a sequence of tokens. Some of them are not written: where block collections begin
and end follows from the columns of what is in them.
-/

namespace Vetting.Document

/-- A line that says how a document is to be read. -/
inductive Directive where
  /-- The version of the language, of which only the first number counts. -/
  | version (major : Nat)
  /-- What the handle of a tag stands for. -/
  | handle (name stem : List CodePoint)
  | other

inductive Token where
  | directive (d : Directive)
  /-- The border in front of a document. -/
  | documentStart
  /-- The border after a document. -/
  | documentEnd
  /-- A block sequence begins. -/
  | sequenceStart
  /-- A block mapping begins. -/
  | mappingStart
  /-- A block collection ends. -/
  | blockEnd
  | openBracket
  | closeBracket
  | openBrace
  | closeBrace
  | comma
  /-- The hyphen in front of an entry of a block sequence. -/
  | entry
  /-- A key follows. -/
  | key
  /-- The value of a key follows. -/
  | value
  /-- The node of an anchor once more. -/
  | alias (name : List CodePoint)
  /-- A name for the node that follows. -/
  | anchor (name : List CodePoint)
  /-- The tag of the node that follows, with the handle in front of it if there is one. -/
  | tag (handle : Option (List CodePoint)) (name : List CodePoint)
  | scalar (isBare : Bool) (text : List CodePoint)
  /-- Nothing can be read from here on. -/
  | broken (fault : Fault)

end Vetting.Document
