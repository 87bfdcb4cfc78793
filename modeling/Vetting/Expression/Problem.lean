import Vetting.Value.Display

/-!
# What can be wrong with an expression

A problem has a reason and may point to a position of the text. Parsing and evaluation have
their own problems; the wording of both is here.
-/

namespace Vetting

/-- Why a text is not an expression. -/
inductive ParseProblem where
  | notText (typeName : Text)
  | tooLong (limit : Text)
  | malformedExponent
  | letterInNumber
  | numberTooLarge
  | unterminatedString
  | invalidUnicodeEscape
  | unexpectedCharacter (c : CodePoint)
  | empty
  | tooDeep (limit : Text)
  | exhausted
  | unexpectedToken (found : Value)
  | unexpectedEnd
  | expected (what : Text)
  | arrowOutsideArguments
  | spreadOutsideArguments
  /-- A problem found where the text ends. -/
  | atEnd (problem : ParseProblem)

namespace ParseProblem

/-- The text of a value inside a message; a number with too many digits is left out. -/
def shown (v : Value) : Text := v.inspect.toOption.getD ""

def reason : ParseProblem → Text
  | notText typeName => "expression must be a string, got " ++ typeName
  | tooLong limit => "expression longer than " ++ limit ++ " characters"
  | malformedExponent => "Malformed number exponent"
  | letterInNumber => "Invalid character in number"
  | numberTooLarge => "Number literal too large"
  | unterminatedString => "Unterminated string literal"
  | invalidUnicodeEscape => "Invalid unicode escape"
  | unexpectedCharacter c => "Unexpected character " ++ (Text.singleton c).quoted
  | empty => "Empty expression"
  | tooDeep limit => "Expression nested deeper than " ++ limit ++ " levels"
  | exhausted => "Expression is nested too deeply"
  | unexpectedToken found => "Unexpected token " ++ shown found
  | unexpectedEnd => "Unexpected end of expression"
  | expected what => "Expected " ++ what
  | arrowOutsideArguments => "Arrow functions are only allowed as function arguments"
  | spreadOutsideArguments => "Spread is only allowed in function arguments"
  | atEnd problem => problem.reason ++ ", reached end of expression"

end ParseProblem

/-- Why a well-formed expression has no value. -/
inductive EvaluationProblem where
  | unsupportedNode (form : Text)
  | unknownIdentifier (name : Text)
  | cannotSpread (name found : Text)
  | notAFunction (name : Text)
  | functionFailed (name message : Text)
  | unsupportedResult (name found : Text)
  | lambdaArity (parameter : Text) (given : Nat)
  | negationOperand (found : Text)
  | comparison (operator message : Text)
  | operands (operator left right : Text)
  | concatenation (left right : Text)
  | unwritableOperand (message : Text)
  | divisionByZero
  | outOfRange (operator message : Text)
  | producedNaN (operator : Text)
  | exhausted
  | unsupportedValue (found : Text)
  | unwritablePlaceholder (name message : Text)
deriving DecidableEq

namespace EvaluationProblem

def reason : EvaluationProblem → Text
  | unsupportedNode form => "unsupported node " ++ form
  | unknownIdentifier name => "Unknown identifier '" ++ name ++ "'"
  | cannotSpread name found => "cannot spread '" ++ name ++ "': expected array, got " ++ found
  | notAFunction name => "'" ++ name ++ "' is not a function"
  | functionFailed name message => "function '" ++ name ++ "' failed: " ++ message
  | unsupportedResult name found => "function '" ++ name ++ "' returned unsupported " ++ found
  | lambdaArity parameter given =>
    "lambda '" ++ parameter ++ " => ...' expects exactly 1 argument, got " ++ Text.ofNat given
  | negationOperand found => "unary '-' expects a number, got " ++ found
  | comparison operator message => "'" ++ operator ++ "': " ++ message
  | operands operator left right =>
    "'" ++ operator ++ "' expects numbers, got " ++ left ++ " and " ++ right
  | concatenation left right => "'+' expects numbers or strings, got " ++ left ++ " and " ++ right
  | unwritableOperand message => "'+' cannot convert number to text: " ++ message
  | divisionByZero => "division by zero"
  | outOfRange operator message => "'" ++ operator ++ "' out of range: " ++ message
  | producedNaN operator => "'" ++ operator ++ "' produced NaN"
  | exhausted => "expression is nested too deeply"
  | unsupportedValue found => "expression evaluated to unsupported " ++ found
  | unwritablePlaceholder name message => "cannot substitute '" ++ name ++ "': " ++ message

end EvaluationProblem

/-- A parse problem at a position. -/
structure ParseFailure where
  problem : ParseProblem
  position : Option Nat

end Vetting
