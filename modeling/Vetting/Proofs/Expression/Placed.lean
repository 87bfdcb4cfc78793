import Vetting.Proofs.Expression.Derived
import Vetting.Proofs.Function.Ground

/-!
# Where lambdas stand

In the trees of the parser a lambda is an argument of a call, and so is a spread. How deep lambdas
stand within lambdas, and how deep the evaluation of a tree can nest, are measures of the tree.
-/

namespace Vetting

mutual

/-- Trees whose lambdas and spreads are arguments of calls, and whose literals are ground. -/
inductive Node.Placed : Node → Prop
  | literal {position : Nat} {v : Value} (h : v.isGround = true) : Placed (.literal position v)
  | identifier {position : Nat} {name : Text} : Placed (.identifier position name)
  | array {position : Nat} {items : List Node} (h : ∀ node ∈ items, Placed node) :
      Placed (.array position items)
  | call {position : Nat} {name : Text} {arguments : List Node}
      (h : ∀ node ∈ arguments, PlacedArgument node) : Placed (.call position name arguments)
  | unary {position : Nat} {operator : Text} {operand : Node} (h : Placed operand) :
      Placed (.unary position operator operand)
  | binary {position : Nat} {operator : Text} {left right : Node} (hl : Placed left)
      (hr : Placed right) : Placed (.binary position operator left right)
  | logical {position : Nat} {operator : Text} {left right : Node} (hl : Placed left)
      (hr : Placed right) : Placed (.logical position operator left right)

/-- The arguments of calls in such trees. -/
inductive Node.PlacedArgument : Node → Prop
  | ofPlaced {node : Node} (h : Placed node) : PlacedArgument node
  | spread {position : Nat} {name : Text} : PlacedArgument (.spread position name)
  | lambda {position : Nat} {parameter : Text} {body : Node} (h : Placed body) :
      PlacedArgument (.lambda position parameter body)

end

namespace Node

/-! ## Measures of trees -/

mutual

def lambdaDepth : Node → Nat
  | literal .. | identifier .. | spread .. | bare _ => 0
  | array _ nodes | call _ _ nodes => lambdaDepthList nodes
  | lambda _ _ body => body.lambdaDepth + 1
  | unary _ _ operand => operand.lambdaDepth
  | binary _ _ left right | logical _ _ left right => max left.lambdaDepth right.lambdaDepth

def lambdaDepthList : List Node → Nat
  | [] => 0
  | node :: rest => max node.lambdaDepth (lambdaDepthList rest)

end

mutual

/-- How deep the evaluation of a tree nests, in nodes and calls. A call reaches two levels below its
node, for the function and for what it calls; there the body of a lambda is evaluated. -/
def evaluationDepth : Node → Nat
  | literal .. | identifier .. | spread .. | bare _ => 1
  | array _ nodes => evaluationDepthList nodes + 1
  | call _ _ nodes => max 2 (evaluationDepthList nodes) + 1
  | lambda _ _ body => body.evaluationDepth + 2
  | unary _ _ operand => operand.evaluationDepth + 1
  | binary _ _ left right | logical _ _ left right =>
    max left.evaluationDepth right.evaluationDepth + 1

def evaluationDepthList : List Node → Nat
  | [] => 0
  | node :: rest => max node.evaluationDepth (evaluationDepthList rest)

end

/-- A measure of lists that is the greatest of the measures of the nodes. -/
theorem le_of_mem_of_cons {f : Node → Nat} {g : List Node → Nat}
    (hg : ∀ node rest, g (node :: rest) = max (f node) (g rest)) {node : Node} {nodes : List Node}
    (h : node ∈ nodes) : f node ≤ g nodes := by
  induction nodes with
  | nil => cases h
  | cons first rest ih =>
    rw [hg]
    rcases List.mem_cons.mp h with rfl | h
    · exact Nat.le_max_left ..
    · exact Nat.le_trans (ih h) (Nat.le_max_right ..)

theorem lambdaDepth_le_of_mem {node : Node} {nodes : List Node} (h : node ∈ nodes) :
    node.lambdaDepth ≤ lambdaDepthList nodes :=
  le_of_mem_of_cons (fun _ _ => rfl) h

theorem evaluationDepth_le_of_mem {node : Node} {nodes : List Node} (h : node ∈ nodes) :
    node.evaluationDepth ≤ evaluationDepthList nodes :=
  le_of_mem_of_cons (fun _ _ => rfl) h

theorem evaluationDepth_pos (node : Node) : 0 < node.evaluationDepth := by
  cases node <;> simp only [evaluationDepth] <;> omega

end Node

/-! ## The values of tokens -/

namespace Lexer

theorem isGround_of_readNumber {points : List CodePoint} {position : Nat} {reading : Reading}
    (h : readNumber points position = .ok reading) : reading.value.isGround = true := by
  simp only [readNumber, failAt] at h
  repeat' split at h
  all_goals first | cases h; rfl | cases h

theorem isGround_of_readString {quote : CodePoint} {rest : List CodePoint} {position : Nat}
    {reading : Reading} (h : readString quote rest position = .ok reading) :
    reading.value.isGround = true := by
  unfold readString at h
  obtain ⟨content, _, h⟩ := bind_eq_ok_iff.mp h
  cases h
  rfl

theorem isGround_of_keyword {word : Text} {kind : TokenKind} {v : Value}
    (h : Token.keyword? word = some (kind, v)) : v.isGround = true := by
  unfold Token.keyword? at h
  repeat' split at h
  all_goals first | cases h; rfl | cases h

theorem isGround_readWord (first : CodePoint) (rest : List CodePoint) :
    (readWord first rest).value.isGround = true := by
  unfold readWord
  dsimp only
  split
  · rename_i h
    exact isGround_of_keyword h
  · rfl

theorem isGround_of_readSymbol {first : CodePoint} {rest : List CodePoint} {position : Nat}
    {reading : Reading} (h : readSymbol first rest position = .ok reading) :
    reading.value.isGround = true := by
  unfold readSymbol at h
  split at h
  · cases h
    rfl
  · cases h

theorem isGround_of_read {first : CodePoint} {rest : List CodePoint} {position : Nat}
    {reading : Reading} (h : read first rest position = .ok reading) :
    reading.value.isGround = true := by
  unfold read at h
  repeat' split at h
  · exact isGround_of_readNumber h
  · exact isGround_of_readString h
  · cases h
    exact isGround_readWord first rest
  · exact isGround_of_readSymbol h

/-- Tokens stand for numbers, texts, booleans and null. -/
theorem isGround_of_scan {position : Nat} {points : List CodePoint} {tokens : List Token}
    (h : scan position points = .ok tokens) : ∀ t ∈ tokens, t.value.isGround = true := by
  induction position, points using scan.induct generalizing tokens with
  | case1 position =>
    rw [scan] at h
    cases h
    exact List.forall_mem_singleton.mpr rfl
  | case2 position c rest hb ih =>
    rw [scan, if_pos hb] at h
    exact ih h
  | case3 position c rest hb ih =>
    rw [scan, if_neg hb] at h
    obtain ⟨reading, hr, h⟩ := bind_eq_ok_iff.mp h
    obtain ⟨others, ht, h⟩ := bind_eq_ok_iff.mp h
    cases h
    exact List.forall_mem_cons.mpr ⟨isGround_of_read hr, ih reading ht⟩

end Lexer

/-! ## Derivations -/

namespace Grammar

open Vetting.Parser

theorem operation_placed (n position : Nat) (operator : Text) {left right : Node}
    (hl : left.Placed) (hr : right.Placed) : (operation n position operator left right).Placed := by
  unfold operation
  split
  · exact .logical hl hr
  · exact .binary hl hr

mutual

theorem Tier.node_placed {n : Nat} (e : Tier n) (h : ∀ t ∈ e.tokens, t.value.isGround = true) :
    e.node.Placed := by
  match e with
  | .primary p => exact p.node_placed h
  | .prefixed t operator known operand =>
    exact .unary (operand.node_placed (List.forall_mem_cons.mp h).2)
  | .chain first rest =>
    obtain ⟨hf, hr⟩ := List.forall_mem_append.mp h
    exact rest.node_placed hr (first.node_placed hf)

theorem Chain.node_placed {n : Nat} (c : Chain n) (h : ∀ t ∈ c.tokens, t.value.isGround = true)
    {left : Node} (hl : left.Placed) : (c.node left).Placed := by
  match c with
  | .done => exact hl
  | .next t operator known operand rest =>
    obtain ⟨ho, hr⟩ := List.forall_mem_append.mp (List.forall_mem_cons.mp h).2
    exact rest.node_placed hr (operation_placed _ _ _ hl (operand.node_placed ho))

theorem Primary.node_placed (p : Primary) (h : ∀ t ∈ p.tokens, t.value.isGround = true) :
    p.node.Placed := by
  match p with
  | .literal t known => exact .literal (h t List.mem_cons_self)
  | .identifier t => exact .identifier
  | .call name opening arguments closing =>
    obtain ⟨_, _, h⟩ : _ ∧ _ ∧ _ := by simpa only [Primary.tokens, List.forall_mem_cons] using h
    exact .call (arguments.nodes_placedArgument (List.forall_mem_append.mp h).1)
  | .group opening inner closing =>
    exact inner.node_placed (List.forall_mem_append.mp (List.forall_mem_cons.mp h).2).1
  | .array opening items closing =>
    exact .array (items.nodes_placed (List.forall_mem_append.mp (List.forall_mem_cons.mp h).2).1)

theorem Listing.nodes_placed (l : Listing false) (h : ∀ t ∈ l.tokens, t.value.isGround = true) :
    ∀ node ∈ l.nodes, node.Placed := by
  match l with
  | .empty => exact List.forall_mem_nil _
  | .items (.expression e) rest =>
    obtain ⟨he, hr⟩ := List.forall_mem_append.mp h
    exact List.forall_mem_cons.mpr ⟨e.node_placed he, rest.nodes_placed hr⟩

theorem Items.nodes_placed (r : Items false) (h : ∀ t ∈ r.tokens, t.value.isGround = true) :
    ∀ node ∈ r.nodes, node.Placed := by
  match r with
  | .done => exact List.forall_mem_nil _
  | .next comma (.expression e) rest =>
    obtain ⟨he, hr⟩ := List.forall_mem_append.mp (List.forall_mem_cons.mp h).2
    exact List.forall_mem_cons.mpr ⟨e.node_placed he, rest.nodes_placed hr⟩

theorem Listing.nodes_placedArgument (l : Listing true)
    (h : ∀ t ∈ l.tokens, t.value.isGround = true) : ∀ node ∈ l.nodes, node.PlacedArgument := by
  match l with
  | .empty => exact List.forall_mem_nil _
  | .items first rest =>
    obtain ⟨hf, hr⟩ := List.forall_mem_append.mp h
    exact List.forall_mem_cons.mpr ⟨first.node_placedArgument hf, rest.nodes_placedArgument hr⟩

theorem Items.nodes_placedArgument (r : Items true) (h : ∀ t ∈ r.tokens, t.value.isGround = true) :
    ∀ node ∈ r.nodes, node.PlacedArgument := by
  match r with
  | .done => exact List.forall_mem_nil _
  | .next comma item rest =>
    obtain ⟨hi, hr⟩ := List.forall_mem_append.mp (List.forall_mem_cons.mp h).2
    exact List.forall_mem_cons.mpr ⟨item.node_placedArgument hi, rest.nodes_placedArgument hr⟩

theorem Item.node_placedArgument (i : Item true) (h : ∀ t ∈ i.tokens, t.value.isGround = true) :
    i.node.PlacedArgument := by
  match i with
  | .expression e => exact .ofPlaced (e.node_placed h)
  | .spread dots name => exact .spread
  | .lambda parameter arrow body =>
    obtain ⟨_, _, h⟩ : _ ∧ _ ∧ _ := by simpa only [Item.tokens, List.forall_mem_cons] using h
    exact .lambda (body.node_placed h)

end

end Grammar

namespace Expression

/-- In the tree of a text, lambdas and spreads are arguments of calls. -/
theorem placed_of_parseText {capacity : Nat} {limits : Limits} {text : Text} {tree : Node}
    (h : parseText capacity limits text = .ok tree) : tree.Placed := by
  obtain ⟨e, ⟨ending, _, ht⟩, rfl⟩ := exists_derives_of_parseText h
  exact e.node_placed (List.forall_mem_append.mp (Lexer.isGround_of_scan ht)).1

end Expression
end Vetting
