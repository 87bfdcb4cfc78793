import Vetting.Expression.Limit
import Vetting.Expression.Problem
import Vetting.Expression.Token

/-!
# From tokens to a tree

A recursive descent over the token list. Operators have six tiers, from `* /` up to `||`, all
associating to the left; tier zero is a prefix operator or a primary. A reader returns the tokens
that it leaves, which are fewer than it was given, so the descent ends.

The depth counts the expressions and prefix operators around a token; a lambda body counts twice.
-/

namespace Vetting.Parser

/-- How deep an expression may nest: the limit set for it, and the capacity of the parser. -/
structure Bounds where
  limit : Limit
  capacity : Nat

/-- What a reader makes of the tokens: a result, and the tokens after it. -/
abbrev Reading (α : Type) (tokens : List Token) :=
  Except ParseFailure { r : α × List Token // r.2.length < tokens.length }

/-- As `Reading`, where a reader may also leave all tokens. -/
abbrev Continuing (α : Type) (tokens : List Token) :=
  Except ParseFailure { r : α × List Token // r.2.length ≤ tokens.length }

def kindAt : List Token → TokenKind
  | [] => .ending
  | t :: _ => t.kind

def positionAt : List Token → Nat
  | [] => 0
  | t :: _ => t.position

/-- A problem with the next token; where the text ends, the message says so. -/
def fail {α : Type} (problem : ParseProblem) (tokens : List Token) : Except ParseFailure α :=
  .error ⟨if kindAt tokens = .ending then .atEnd problem else problem, some (positionAt tokens)⟩

def failUnexpected {α : Type} : List Token → Except ParseFailure α
  | [] => .error ⟨.unexpectedEnd, some 0⟩
  | t :: _ =>
    .error ⟨if t.kind = .ending then .unexpectedEnd else .unexpectedToken t.value, some t.position⟩

def expect (kind : TokenKind) (what : Text) :
    (tokens : List Token) → Except ParseFailure { r : List Token // r.length < tokens.length }
  | [] => fail (.expected what) []
  | t :: rest => if t.kind = kind then .ok ⟨rest, by simp⟩ else fail (.expected what) (t :: rest)

/-- Whether the tokens may be nested this deep. -/
def enter (bounds : Bounds) (depth : Nat) (tokens : List Token) : Except ParseFailure Unit :=
  if bounds.limit.exceededBy depth then fail (.tooDeep bounds.limit.label) tokens
  else if bounds.capacity < depth then .error ⟨.exhausted, none⟩
  else .ok ()

/-- The operators of the tiers above the prefix operators. -/
def operator? : Nat → TokenKind → Option Text
  | 1, .star => some "*"
  | 1, .slash => some "/"
  | 2, .plus => some "+"
  | 2, .minus => some "-"
  | 3, .greater => some ">"
  | 3, .greaterOrEqual => some ">="
  | 3, .less => some "<"
  | 3, .lessOrEqual => some "<="
  | 4, .equal => some "=="
  | 4, .notEqual => some "!="
  | 5, .and => some "&&"
  | 6, .or => some "||"
  | _, _ => none

def topTier : Nat := 6

/-- The node of an operator; the operators of the two loosest tiers are logical. -/
def operation (tier position : Nat) (operator : Text) (left right : Node) : Node :=
  if tier = 5 ∨ tier = 6 then .logical position operator left right
  else .binary position operator left right

def prefixOperator? : TokenKind → Option Text
  | .not => some "!"
  | .minus => some "-"
  | _ => none

def nameOf (t : Token) : Text :=
  match t.value with
  | .text name => name
  | _ => t.spelling

def isLiteral : TokenKind → Bool
  | .number | .string | .true | .false | .null => true
  | _ => false

mutual

def expression (bounds : Bounds) (depth : Nat) (tokens : List Token) : Reading Node tokens := do
  enter bounds (depth + 1) tokens
  tier bounds (depth + 1) topTier tokens
termination_by 16 * tokens.length + 12
decreasing_by simp [topTier]

def tier (bounds : Bounds) (depth : Nat) (n : Nat) (tokens : List Token) : Reading Node tokens :=
  match n with
  | 0 => unary bounds depth tokens
  | n + 1 => do
    let ⟨(left, rest), shorter⟩ ← tier bounds depth n tokens
    let ⟨(node, rest'), notLonger⟩ ← chain bounds depth n left rest
    return ⟨(node, rest'), by simp at *; omega⟩
termination_by 16 * tokens.length + 2 + n
decreasing_by all_goals (simp at *; try omega)

/-- The operators of tier `n + 1` that follow a left operand, each with its right operand. -/
def chain (bounds : Bounds) (depth : Nat) (n : Nat) (left : Node) (tokens : List Token) :
    Continuing Node tokens :=
  match tokens with
  | [] => .ok ⟨(left, []), by simp⟩
  | t :: rest =>
    match operator? (n + 1) t.kind with
    | none => .ok ⟨(left, t :: rest), by simp⟩
    | some operator => do
      let ⟨(right, rest'), shorter⟩ ← tier bounds depth n rest
      let ⟨(node, rest''), notLonger⟩ ←
        chain bounds depth n (operation (n + 1) t.position operator left right) rest'
      return ⟨(node, rest''), by simp at *; omega⟩
termination_by 16 * tokens.length + 3 + n
decreasing_by all_goals (simp at *; try omega)

def unary (bounds : Bounds) (depth : Nat) (tokens : List Token) : Reading Node tokens :=
  match tokens with
  | [] => failUnexpected []
  | t :: rest =>
    match prefixOperator? t.kind with
    | some operator => do
      enter bounds (depth + 1) rest
      let ⟨(operand, rest'), shorter⟩ ← unary bounds (depth + 1) rest
      return ⟨(.unary t.position operator operand, rest'), Nat.lt_succ_of_lt shorter⟩
    | none => primary bounds depth (t :: rest)
termination_by 16 * tokens.length + 1
decreasing_by all_goals (simp at *; try omega)

def primary (bounds : Bounds) (depth : Nat) (tokens : List Token) : Reading Node tokens :=
  match tokens with
  | [] => failUnexpected []
  | t :: rest =>
    if isLiteral t.kind then .ok ⟨(.literal t.position t.value, rest), by simp⟩
    else if t.kind = .identifier then
      if kindAt rest = .arrow then fail .arrowOutsideArguments (t :: rest)
      else match rest with
        | [] => .ok ⟨(.identifier t.position (nameOf t), []), by simp⟩
        | u :: inner =>
          if u.kind = .openParen then do
            let ⟨(arguments, rest'), shorter⟩ ←
              list bounds depth .closeParen "')' after function arguments" true inner
            return ⟨(.call t.position (nameOf t) arguments, rest'), by simp at *; omega⟩
          else .ok ⟨(.identifier t.position (nameOf t), u :: inner), by simp⟩
    else if t.kind = .openParen then do
      let ⟨(node, rest'), shorter⟩ ← expression bounds depth rest
      let ⟨rest'', shorter'⟩ ← expect .closeParen "')'" rest'
      return ⟨(node, rest''), by simp at *; omega⟩
    else if t.kind = .openBracket then do
      let ⟨(items, rest'), shorter⟩ ← list bounds depth .closeBracket "']'" false rest
      return ⟨(.array t.position items, rest'), by simp at *; omega⟩
    else if t.kind = .spread then fail .spreadOutsideArguments (t :: rest)
    else failUnexpected (t :: rest)
termination_by 16 * tokens.length
decreasing_by all_goals (simp at *; try omega)

def list (bounds : Bounds) (depth : Nat) (closing : TokenKind) (what : Text) (ofCall : Bool)
    (tokens : List Token) : Reading (List Node) tokens :=
  match tokens with
  | [] => do
    let ⟨(_, rest), shorter⟩ ← item bounds depth ofCall []
    return ⟨([], rest), shorter⟩
  | t :: rest =>
    if t.kind = closing then .ok ⟨([], rest), by simp⟩
    else do
      let ⟨(first, rest'), shorter⟩ ← item bounds depth ofCall (t :: rest)
      let ⟨(others, rest''), shorter'⟩ ← items bounds depth closing what ofCall rest'
      return ⟨(first :: others, rest''), by simp at *; omega⟩
termination_by 16 * tokens.length + 14
decreasing_by all_goals (simp at *; try omega)

def items (bounds : Bounds) (depth : Nat) (closing : TokenKind) (what : Text) (ofCall : Bool)
    (tokens : List Token) : Reading (List Node) tokens :=
  match tokens with
  | [] => fail (.expected what) []
  | t :: rest =>
    if t.kind = .comma then do
      let ⟨(first, rest'), shorter⟩ ← item bounds depth ofCall rest
      let ⟨(others, rest''), shorter'⟩ ← items bounds depth closing what ofCall rest'
      return ⟨(first :: others, rest''), by simp at *; omega⟩
    else do
      let ⟨rest', shorter⟩ ← expect closing what (t :: rest)
      return ⟨([], rest'), shorter⟩
termination_by 16 * tokens.length
decreasing_by all_goals (simp at *; try omega)

/-- An item of a list; among the arguments of a call it may be a spread or a lambda. -/
def item (bounds : Bounds) (depth : Nat) (ofCall : Bool) (tokens : List Token) :
    Reading Node tokens :=
  match tokens with
  | t :: rest =>
    if ofCall ∧ t.kind = .spread then
      match rest with
      | u :: rest' =>
        if u.kind = .identifier then .ok ⟨(.spread t.position (nameOf u), rest'), by simp only [List.length_cons]; omega⟩
        else fail (.expected "identifier after '...'") (u :: rest')
      | [] => fail (.expected "identifier after '...'") []
    else
      match rest with
      | u :: inner =>
        if ofCall ∧ t.kind = .identifier ∧ u.kind = .arrow then do
          enter bounds (depth + 1) inner
          let ⟨(body, rest'), shorter⟩ ← expression bounds (depth + 1) inner
          return ⟨(.lambda t.position (nameOf t) body, rest'), by simp at *; omega⟩
        else expression bounds depth (t :: u :: inner)
      | [] => expression bounds depth [t]
  | [] => expression bounds depth []
termination_by 16 * tokens.length + 13
decreasing_by all_goals (simp at *; try omega)

end

/-- The tree of a whole token list, which ends with the token that marks the end. -/
def parse (bounds : Bounds) (tokens : List Token) : Except ParseFailure Node := do
  let ⟨(node, rest), _⟩ ← expression bounds 0 tokens
  if kindAt rest = .ending then return node
  failUnexpected rest

end Vetting.Parser
