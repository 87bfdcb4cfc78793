import Vetting.Value.Basic

/-!
# Tokens

A token has a kind, the value it stands for, the position at which it starts and the slice of
source text that spells it.
-/

namespace Vetting

inductive TokenKind where
  | number | string | identifier | true | false | null
  | or | and | not | equal | notEqual | greater | greaterOrEqual | less | lessOrEqual
  | plus | minus | star | slash
  | openParen | closeParen | openBracket | closeBracket | comma | arrow | spread
  | ending
deriving DecidableEq

structure Token where
  kind : TokenKind
  value : Value
  position : Nat
  spelling : Text

namespace TokenKind

/-- The name of a kind; operators are named by their usual spelling. -/
def name : TokenKind → Text
  | number => "number" | string => "string" | identifier => "identifier"
  | true => "true" | false => "false" | null => "null"
  | or => "||" | and => "&&" | not => "!" | equal => "==" | notEqual => "!="
  | greater => ">" | greaterOrEqual => ">=" | less => "<" | lessOrEqual => "<="
  | plus => "+" | minus => "-" | star => "*" | slash => "/"
  | openParen => "(" | closeParen => ")" | openBracket => "[" | closeBracket => "]"
  | comma => "," | arrow => "=>" | spread => "..." | ending => "eof"

end TokenKind

namespace Token

/-- The symbols of operators and punctuation; a longer symbol stands before those it begins
with. -/
def symbols : List (Text × TokenKind) := [
  ("...", .spread), ("===", .equal), ("!==", .notEqual),
  ("||", .or), ("&&", .and), ("==", .equal), ("!=", .notEqual),
  (">=", .greaterOrEqual), ("<=", .lessOrEqual), ("=>", .arrow),
  (">", .greater), ("<", .less), ("!", .not), ("+", .plus), ("-", .minus), ("*", .star),
  ("/", .slash), ("(", .openParen), (")", .closeParen), ("[", .openBracket),
  ("]", .closeBracket), (",", .comma)]

/-- The words that are not identifiers. -/
def keyword? (word : Text) : Option (TokenKind × Value) :=
  if word = "true" then some (.true, .boolean Bool.true)
  else if word = "false" then some (.false, .boolean Bool.false)
  else if word = "null" then some (.null, .null)
  else if word = "AND" then some (.and, .text word)
  else if word = "OR" then some (.or, .text word)
  else if word = "NOT" then some (.not, .text word)
  else none

end Token
end Vetting
