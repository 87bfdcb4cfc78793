import Vetting.Expression.Parser

/-!
# The grammar of expressions

A derivation is a concrete syntax tree: it keeps every token, the parentheses included. The types
of derivations are the syntactic classes, so a derivation that breaks the grammar cannot be built.

Tier zero is a prefix operator or a primary. Tier `n + 1` is a chain of operands of tier `n` joined
by operators of tier `n + 1`, which associate to the left. A spread and a lambda are items of calls
only.
-/

namespace Vetting.Grammar

open Vetting.Parser (operator? prefixOperator? isLiteral nameOf operation)

/-- A token of one kind. -/
abbrev TokenOf (kind : TokenKind) := { t : Token // t.kind = kind }

@[simp] theorem TokenOf.kind_eq {kind : TokenKind} (t : TokenOf kind) : t.1.kind = kind := t.2

mutual

inductive Tier : Nat → Type where
  | primary (p : Primary) : Tier 0
  | prefixed (t : Token) (operator : Text) (known : prefixOperator? t.kind = some operator)
      (operand : Tier 0) : Tier 0
  | chain {n : Nat} (first : Tier n) (rest : Chain n) : Tier (n + 1)

/-- The operators of tier `n + 1` after a first operand, each with its right operand. -/
inductive Chain : Nat → Type where
  | done {n : Nat} : Chain n
  | next {n : Nat} (t : Token) (operator : Text) (known : operator? (n + 1) t.kind = some operator)
      (operand : Tier n) (rest : Chain n) : Chain n

inductive Primary where
  | literal (t : Token) (known : isLiteral t.kind = true)
  | identifier (t : TokenOf .identifier)
  | call (name : TokenOf .identifier) (opening : TokenOf .openParen) (arguments : Listing true)
      (closing : TokenOf .closeParen)
  | group (opening : TokenOf .openParen) (inner : Tier 6) (closing : TokenOf .closeParen)
  | array (opening : TokenOf .openBracket) (items : Listing false) (closing : TokenOf .closeBracket)

/-- What stands between two brackets; the flag tells the arguments of a call. -/
inductive Listing : Bool → Type where
  | empty {ofCall : Bool} : Listing ofCall
  | items {ofCall : Bool} (first : Item ofCall) (rest : Items ofCall) : Listing ofCall

/-- The items after the first. -/
inductive Items : Bool → Type where
  | done {ofCall : Bool} : Items ofCall
  | next {ofCall : Bool} (comma : TokenOf .comma) (item : Item ofCall) (rest : Items ofCall) :
      Items ofCall

inductive Item : Bool → Type where
  | expression {ofCall : Bool} (e : Tier 6) : Item ofCall
  | spread (dots : TokenOf .spread) (name : TokenOf .identifier) : Item true
  | lambda (parameter : TokenOf .identifier) (arrow : TokenOf .arrow) (body : Tier 6) : Item true

end

/-- A derivation of a whole expression. -/
abbrev Phrase := Tier 6

def Tier.phrase (e : Tier 0) : Phrase :=
  .chain (.chain (.chain (.chain (.chain (.chain e .done) .done) .done) .done) .done) .done

/-! ## The tokens of a derivation -/

mutual

def Tier.tokens {n : Nat} : Tier n → List Token
  | .primary p => p.tokens
  | .prefixed t _ _ operand => t :: operand.tokens
  | .chain first rest => first.tokens ++ rest.tokens

def Chain.tokens {n : Nat} : Chain n → List Token
  | .done => []
  | .next t _ _ operand rest => t :: (operand.tokens ++ rest.tokens)

def Primary.tokens : Primary → List Token
  | .literal t _ => [t]
  | .identifier t => [t.1]
  | .call name opening arguments closing => name.1 :: opening.1 :: (arguments.tokens ++ [closing.1])
  | .group opening inner closing => opening.1 :: (inner.tokens ++ [closing.1])
  | .array opening items closing => opening.1 :: (items.tokens ++ [closing.1])

def Listing.tokens {ofCall : Bool} : Listing ofCall → List Token
  | .empty => []
  | .items first rest => first.tokens ++ rest.tokens

def Items.tokens {ofCall : Bool} : Items ofCall → List Token
  | .done => []
  | .next comma item rest => comma.1 :: (item.tokens ++ rest.tokens)

def Item.tokens {ofCall : Bool} : Item ofCall → List Token
  | .expression e => e.tokens
  | .spread dots name => [dots.1, name.1]
  | .lambda parameter arrow body => parameter.1 :: arrow.1 :: body.tokens

end

/-! ## The tree of a derivation -/

mutual

def Tier.node {n : Nat} : Tier n → Node
  | .primary p => p.node
  | .prefixed t operator _ operand => .unary t.position operator operand.node
  | .chain first rest => rest.node first.node

def Chain.node {n : Nat} : Chain n → Node → Node
  | .done, left => left
  | .next t operator _ operand rest, left =>
    rest.node (operation (n + 1) t.position operator left operand.node)

def Primary.node : Primary → Node
  | .literal t _ => .literal t.position t.value
  | .identifier t => .identifier t.1.position (nameOf t)
  | .call name _ arguments _ => .call name.1.position (nameOf name) arguments.nodes
  | .group _ inner _ => inner.node
  | .array opening items _ => .array opening.1.position items.nodes

def Listing.nodes {ofCall : Bool} : Listing ofCall → List Node
  | .empty => []
  | .items first rest => first.node :: rest.nodes

def Items.nodes {ofCall : Bool} : Items ofCall → List Node
  | .done => []
  | .next _ item rest => item.node :: rest.nodes

def Item.node {ofCall : Bool} : Item ofCall → Node
  | .expression e => e.node
  | .spread dots name => .spread dots.1.position (nameOf name)
  | .lambda parameter _ body => .lambda parameter.1.position (nameOf parameter) body.node

end

/-! ## Nesting

A parenthesised expression, an item that is an expression and a prefix operator count one level,
a lambda body counts two. The operands of a chain stand side by side. -/

mutual

def Tier.nesting {n : Nat} : Tier n → Nat
  | .primary p => p.nesting
  | .prefixed _ _ _ operand => operand.nesting + 1
  | .chain first rest => max first.nesting rest.nesting

def Chain.nesting {n : Nat} : Chain n → Nat
  | .done => 0
  | .next _ _ _ operand rest => max operand.nesting rest.nesting

def Primary.nesting : Primary → Nat
  | .literal .. => 0
  | .identifier _ => 0
  | .call _ _ arguments _ => arguments.nesting
  | .group _ inner _ => inner.nesting + 1
  | .array _ items _ => items.nesting

def Listing.nesting {ofCall : Bool} : Listing ofCall → Nat
  | .empty => 0
  | .items first rest => max first.nesting rest.nesting

def Items.nesting {ofCall : Bool} : Items ofCall → Nat
  | .done => 0
  | .next _ item rest => max item.nesting rest.nesting

def Item.nesting {ofCall : Bool} : Item ofCall → Nat
  | .expression e => e.nesting + 1
  | .spread .. => 0
  | .lambda _ _ body => body.nesting + 2

end

def Chain.operands {n : Nat} : Chain n → List (Tier n)
  | .done => []
  | .next _ _ _ operand rest => operand :: rest.operands

/-- A chain nests as deep as its deepest operand, however long it is. -/
theorem Chain.nesting_le_iff {n limit : Nat} (c : Chain n) :
    c.nesting ≤ limit ↔ ∀ operand ∈ c.operands, operand.nesting ≤ limit := by
  match c with
  | .done => simp [Chain.nesting, Chain.operands]
  | .next t operator known operand rest =>
    simp only [Chain.nesting, Chain.operands, Nat.max_le, List.forall_mem_cons]
    rw [rest.nesting_le_iff]

@[simp] theorem Tier.phrase_tokens (e : Tier 0) : e.phrase.tokens = e.tokens := by
  simp [Tier.phrase, Tier.tokens, Chain.tokens]

@[simp] theorem Tier.phrase_node (e : Tier 0) : e.phrase.node = e.node := by
  simp [Tier.phrase, Tier.node, Chain.node]

@[simp] theorem Tier.phrase_nesting (e : Tier 0) : e.phrase.nesting = e.nesting := by
  simp [Tier.phrase, Tier.nesting, Chain.nesting]

/-- The levels of a whole expression, which is itself one. -/
def levels (e : Phrase) : Nat := e.nesting + 1

end Vetting.Grammar
