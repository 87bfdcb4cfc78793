import Vetting.Proofs.Expression.Failure
import Vetting.Proofs.Expression.Placed

/-!
# Where the nodes of a tree stand

Every node of a parsed tree stands where a token of the text starts: its first one, or the operator
between its operands. The mark of the end is the start of no node.
-/

namespace Vetting

namespace Node

mutual

def positions : Node → List Nat
  | literal p _ | identifier p _ | spread p _ | bare p => [p]
  | array p nodes | call p _ nodes => p :: positionsIn nodes
  | lambda p _ body => p :: body.positions
  | unary p _ operand => p :: operand.positions
  | binary p _ left right | logical p _ left right => p :: (left.positions ++ right.positions)

def positionsIn : List Node → List Nat
  | [] => []
  | node :: rest => node.positions ++ positionsIn rest

end

def StandsIn (starts : Nat → Prop) (node : Node) : Prop := ∀ p ∈ node.positions, starts p

section StandsIn
variable {starts : Nat → Prop} {p : Nat}

theorem StandsIn.position {node : Node} (h : node.StandsIn starts) : starts node.position := by
  cases node <;> exact h _ List.mem_cons_self

theorem standsIn_leaf {node : Node} (hn : node.positions = [p]) (h : starts p) :
    node.StandsIn starts := by
  rw [StandsIn, hn]
  exact List.forall_mem_singleton.mpr h

theorem positionsIn_iff {nodes : List Node} :
    (∀ p ∈ positionsIn nodes, starts p) ↔ ∀ node ∈ nodes, node.StandsIn starts := by
  induction nodes with
  | nil => simp [positionsIn]
  | cons node rest ih =>
    rw [positionsIn, List.forall_mem_append, ih, List.forall_mem_cons]
    rfl

theorem standsIn_array_iff {nodes : List Node} :
    (array p nodes).StandsIn starts ↔ starts p ∧ ∀ node ∈ nodes, node.StandsIn starts := by
  rw [StandsIn, positions, List.forall_mem_cons, positionsIn_iff]

theorem standsIn_call_iff {name : Text} {nodes : List Node} :
    (call p name nodes).StandsIn starts ↔ starts p ∧ ∀ node ∈ nodes, node.StandsIn starts := by
  rw [StandsIn, positions, List.forall_mem_cons, positionsIn_iff]

theorem standsIn_lambda_iff {parameter : Text} {body : Node} :
    (lambda p parameter body).StandsIn starts ↔ starts p ∧ body.StandsIn starts := by
  rw [StandsIn, positions, List.forall_mem_cons]
  rfl

theorem standsIn_unary_iff {operator : Text} {operand : Node} :
    (unary p operator operand).StandsIn starts ↔ starts p ∧ operand.StandsIn starts := by
  rw [StandsIn, positions, List.forall_mem_cons]
  rfl

theorem standsIn_binary_iff {operator : Text} {left right : Node} :
    (binary p operator left right).StandsIn starts ↔
      starts p ∧ left.StandsIn starts ∧ right.StandsIn starts := by
  rw [StandsIn, positions, List.forall_mem_cons, List.forall_mem_append]
  rfl

theorem standsIn_logical_iff {operator : Text} {left right : Node} :
    (logical p operator left right).StandsIn starts ↔
      starts p ∧ left.StandsIn starts ∧ right.StandsIn starts := by
  rw [StandsIn, positions, List.forall_mem_cons, List.forall_mem_append]
  rfl

end StandsIn

end Node

/-! ## Derivations -/

namespace Grammar

open Vetting.Parser

variable {starts : Nat → Prop}

def Standing (starts : Nat → Prop) (tokens : List Token) : Prop := ∀ t ∈ tokens, starts t.position

theorem operation_standsIn {position : Nat} (h : starts position) (n : Nat) (operator : Text)
    {left right : Node} (hl : left.StandsIn starts) (hr : right.StandsIn starts) :
    (operation n position operator left right).StandsIn starts := by
  unfold operation
  split
  · exact Node.standsIn_logical_iff.mpr ⟨h, hl, hr⟩
  · exact Node.standsIn_binary_iff.mpr ⟨h, hl, hr⟩

mutual

theorem Tier.node_standsIn {n : Nat} (e : Tier n) (h : Standing starts e.tokens) :
    e.node.StandsIn starts := by
  match e with
  | .primary p => exact p.node_standsIn h
  | .prefixed t operator known operand =>
    obtain ⟨ht, ho⟩ := List.forall_mem_cons.mp h
    exact Node.standsIn_unary_iff.mpr ⟨ht, operand.node_standsIn ho⟩
  | .chain first rest =>
    obtain ⟨hf, hr⟩ := List.forall_mem_append.mp h
    exact rest.node_standsIn hr (first.node_standsIn hf)

theorem Chain.node_standsIn {n : Nat} (c : Chain n) (h : Standing starts c.tokens) {left : Node}
    (hl : left.StandsIn starts) : (c.node left).StandsIn starts := by
  match c with
  | .done => exact hl
  | .next t operator known operand rest =>
    obtain ⟨ht, h⟩ := List.forall_mem_cons.mp h
    obtain ⟨ho, hr⟩ := List.forall_mem_append.mp h
    exact rest.node_standsIn hr (operation_standsIn ht _ _ hl (operand.node_standsIn ho))

theorem Primary.node_standsIn (p : Primary) (h : Standing starts p.tokens) :
    p.node.StandsIn starts := by
  match p with
  | .literal t known => exact Node.standsIn_leaf rfl (h t List.mem_cons_self)
  | .identifier t => exact Node.standsIn_leaf rfl (h t.1 List.mem_cons_self)
  | .call name opening arguments closing =>
    obtain ⟨hn, _, h⟩ : _ ∧ _ ∧ _ := by
      simpa only [Standing, Primary.tokens, List.forall_mem_cons] using h
    exact Node.standsIn_call_iff.mpr ⟨hn, arguments.nodes_standsIn (List.forall_mem_append.mp h).1⟩
  | .group opening inner closing =>
    exact inner.node_standsIn (List.forall_mem_append.mp (List.forall_mem_cons.mp h).2).1
  | .array opening items closing =>
    obtain ⟨ho, h⟩ := List.forall_mem_cons.mp h
    exact Node.standsIn_array_iff.mpr ⟨ho, items.nodes_standsIn (List.forall_mem_append.mp h).1⟩

theorem Listing.nodes_standsIn {ofCall : Bool} (l : Listing ofCall) (h : Standing starts l.tokens) :
    ∀ node ∈ l.nodes, node.StandsIn starts := by
  match l with
  | .empty => exact List.forall_mem_nil _
  | .items first rest =>
    obtain ⟨hf, hr⟩ := List.forall_mem_append.mp h
    exact List.forall_mem_cons.mpr ⟨first.node_standsIn hf, rest.nodes_standsIn hr⟩

theorem Items.nodes_standsIn {ofCall : Bool} (r : Items ofCall) (h : Standing starts r.tokens) :
    ∀ node ∈ r.nodes, node.StandsIn starts := by
  match r with
  | .done => exact List.forall_mem_nil _
  | .next comma item rest =>
    obtain ⟨hi, hr⟩ := List.forall_mem_append.mp (List.forall_mem_cons.mp h).2
    exact List.forall_mem_cons.mpr ⟨item.node_standsIn hi, rest.nodes_standsIn hr⟩

theorem Item.node_standsIn {ofCall : Bool} (i : Item ofCall) (h : Standing starts i.tokens) :
    i.node.StandsIn starts := by
  match i with
  | .expression e => exact e.node_standsIn h
  | .spread dots name => exact Node.standsIn_leaf rfl (h dots.1 List.mem_cons_self)
  | .lambda parameter arrow body =>
    obtain ⟨hp, _, h⟩ : _ ∧ _ ∧ _ := by
      simpa only [Standing, Item.tokens, List.forall_mem_cons] using h
    exact Node.standsIn_lambda_iff.mpr ⟨hp, body.node_standsIn h⟩

end

end Grammar

/-! ## Texts -/

/-- Whether a token of a text starts at a position. The mark of the end is not meant. -/
def Text.HasTokenAt (text : Text) (p : Nat) : Prop :=
  ∃ tokens, Lexer.tokenize text = .ok tokens ∧ ∃ t ∈ tokens, t.kind ≠ .ending ∧ t.position = p

theorem Text.HasTokenAt.lt {text : Text} {p : Nat} (h : text.HasTokenAt p) : p < text.length := by
  obtain ⟨tokens, ht, t, hmem, hk, rfl⟩ := h
  exact Lexer.position_lt_of_tokenize ht hmem hk

namespace Expression

/-- Every node of the tree of a text stands at a token of the text. -/
theorem standsIn_of_parseText {capacity : Nat} {limits : Limits} {text : Text} {tree : Node}
    (h : parseText capacity limits text = .ok tree) : tree.StandsIn text.HasTokenAt := by
  obtain ⟨e, ⟨ending, _, ht⟩, rfl⟩ := exists_derives_of_parseText h
  refine e.node_standsIn fun t hmem => ?_
  exact ⟨_, ht, t, List.mem_append_left _ hmem, e.kind_ne_ending t hmem, rfl⟩

end Expression
end Vetting
