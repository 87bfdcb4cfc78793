import Vetting.Proofs.Grammar.Placement

/-!
# Substitution of operands

An identifier that is an operand stands for an expression of tier zero. Substituting derivations
for identifiers in a derivation replaces their tokens, and substitutes their trees in its tree;
calls, spreads and lambdas keep their names.
-/

namespace Vetting

/-! ## Trees -/

namespace Node

mutual

/-- The names that are no operands: those of calls and spreads, and parameters of lambdas. -/
def heads : Node → List Text
  | literal .. | identifier .. | bare _ => []
  | array _ items => headsList items
  | spread _ name => [name]
  | lambda _ parameter body => parameter :: body.heads
  | call _ name arguments => name :: headsList arguments
  | unary _ _ operand => operand.heads
  | binary _ _ left right | logical _ _ left right => left.heads ++ right.heads

def headsList : List Node → List Text
  | [] => []
  | node :: rest => node.heads ++ headsList rest

end

mutual

/-- A tree with trees in the place of operands. -/
def substitute (trees : Text → Option Node) : Node → Node
  | literal position v => literal position v
  | identifier position name => (trees name).getD (identifier position name)
  | array position items => array position (substituteList trees items)
  | spread position name => spread position name
  | lambda position parameter body => lambda position parameter (body.substitute trees)
  | call position name arguments => call position name (substituteList trees arguments)
  | unary position operator operand => unary position operator (operand.substitute trees)
  | binary position operator left right =>
    binary position operator (left.substitute trees) (right.substitute trees)
  | logical position operator left right =>
    logical position operator (left.substitute trees) (right.substitute trees)
  | bare position => bare position

def substituteList (trees : Text → Option Node) : List Node → List Node
  | [] => []
  | node :: rest => node.substitute trees :: substituteList trees rest

end

@[simp] theorem substituteList_eq (trees : Text → Option Node) (nodes : List Node) :
    substituteList trees nodes = nodes.map (substitute trees) := by
  induction nodes with
  | nil => rfl
  | cons node rest ih => rw [substituteList, ih, List.map_cons]

end Node

namespace Grammar

open Vetting.Parser (operator? prefixOperator? isLiteral nameOf operation)

/-! ## Derivations -/

section Substitute
variable (operands : Text → Option (Tier 0))

mutual

def Tier.substitute {n : Nat} : Tier n → Tier n
  | .primary p => p.substitute
  | .prefixed t operator known operand => .prefixed t operator known operand.substitute
  | .chain first rest => .chain first.substitute rest.substitute

def Chain.substitute {n : Nat} : Chain n → Chain n
  | .done => .done
  | .next t operator known operand rest => .next t operator known operand.substitute rest.substitute

def Primary.substitute : Primary → Tier 0
  | .literal t known => .primary (.literal t known)
  | .identifier t => (operands (nameOf t)).getD (.primary (.identifier t))
  | .call name opening arguments closing => .primary (.call name opening arguments.substitute closing)
  | .group opening inner closing => .primary (.group opening inner.substitute closing)
  | .array opening items closing => .primary (.array opening items.substitute closing)

def Listing.substitute {ofCall : Bool} : Listing ofCall → Listing ofCall
  | .empty => .empty
  | .items first rest => .items first.substitute rest.substitute

def Items.substitute {ofCall : Bool} : Items ofCall → Items ofCall
  | .done => .done
  | .next comma item rest => .next comma item.substitute rest.substitute

def Item.substitute {ofCall : Bool} : Item ofCall → Item ofCall
  | .expression e => .expression e.substitute
  | .spread dots name => .spread dots name
  | .lambda parameter arrow body => .lambda parameter arrow body.substitute

end

def replaced (t : Token) : List Token :=
  if t.kind = .identifier then ((operands (nameOf t)).map Tier.tokens).getD [t] else [t]

end Substitute

variable {operands : Text → Option (Tier 0)}

theorem replaced_of_ne {t : Token} (h : t.kind ≠ .identifier) : replaced operands t = [t] :=
  if_neg h

theorem replaced_of_none {t : Token} (h : operands (nameOf t) = none) : replaced operands t = [t] := by
  rw [replaced, h]
  split <;> rfl

theorem replaced_tokenOf {kind : TokenKind} (t : TokenOf kind) (h : kind ≠ .identifier) :
    replaced operands t.1 = [t.1] := replaced_of_ne (by rwa [t.kind_eq])

theorem mem_heads_operation {n position : Nat} {operator : Text} {left right : Node} {x : Text} :
    x ∈ (operation n position operator left right).heads ↔ x ∈ left.heads ∨ x ∈ right.heads := by
  unfold operation
  split <;> exact List.mem_append

theorem Chain.mem_heads_of_left {n : Nat} (c : Chain n) {left : Node} {x : Text}
    (h : x ∈ left.heads) : x ∈ (c.node left).heads := by
  match c with
  | .done => exact h
  | .next t operator known operand rest =>
    exact rest.mem_heads_of_left (mem_heads_operation.mpr (.inl h))

/-- Whether these names are left alone by a substitution. -/
def Keeps (operands : Text → Option (Tier 0)) (names : List Text) : Prop :=
  ∀ x ∈ names, operands x = none

theorem Keeps.append {a b : List Text} (h : Keeps operands (a ++ b)) :
    Keeps operands a ∧ Keeps operands b := List.forall_mem_append.mp h

theorem Keeps.cons {x : Text} {names : List Text} (h : Keeps operands (x :: names)) :
    operands x = none ∧ Keeps operands names := List.forall_mem_cons.mp h

mutual

theorem Tier.substitute_tokens {n : Nat} (e : Tier n) (h : Keeps operands e.node.heads) :
    (e.substitute operands).tokens = e.tokens.flatMap (replaced operands) := by
  match e with
  | .primary p => exact p.substitute_tokens h
  | .prefixed t operator known operand =>
    have ht : t.kind ≠ .identifier := by
      intro hk
      rw [hk] at known
      cases known
    rw [Tier.substitute, Tier.tokens, Tier.tokens, List.flatMap_cons, replaced_of_ne ht,
      operand.substitute_tokens h]
    rfl
  | .chain first rest =>
    have hfirst : Keeps operands first.node.heads := fun x hx => h x (rest.mem_heads_of_left hx)
    rw [Tier.substitute, Tier.tokens, Tier.tokens, List.flatMap_append,
      first.substitute_tokens hfirst, rest.substitute_tokens h]

theorem Chain.substitute_tokens {n : Nat} (c : Chain n) {left : Node}
    (h : Keeps operands (c.node left).heads) :
    (c.substitute operands).tokens = c.tokens.flatMap (replaced operands) := by
  match c with
  | .done => rfl
  | .next t operator known operand rest =>
    have ht : t.kind ≠ .identifier := by
      intro hk
      rw [hk] at known
      simp [operator?] at known
    have hoperand : Keeps operands operand.node.heads := fun x hx =>
      h x (rest.mem_heads_of_left (mem_heads_operation.mpr (.inr hx)))
    rw [Chain.substitute, Chain.tokens, Chain.tokens, List.flatMap_cons, List.flatMap_append,
      replaced_of_ne ht, operand.substitute_tokens hoperand, rest.substitute_tokens h]
    rfl

theorem Primary.substitute_tokens (p : Primary) (h : Keeps operands p.node.heads) :
    (p.substitute operands).tokens = p.tokens.flatMap (replaced operands) := by
  match p with
  | .literal t known =>
    have ht : t.kind ≠ .identifier := by
      intro hk
      rw [hk] at known
      cases known
    rw [Primary.substitute, Primary.tokens, List.flatMap_singleton, replaced_of_ne ht]
    rfl
  | .identifier t =>
    rw [Primary.substitute, Primary.tokens, List.flatMap_singleton, replaced, if_pos t.kind_eq]
    cases operands (nameOf t) <;> rfl
  | .call name opening arguments closing =>
    obtain ⟨hname, harguments⟩ := Keeps.cons h
    rw [Primary.substitute, Tier.tokens, Primary.tokens, Primary.tokens, List.flatMap_cons,
      List.flatMap_cons, List.flatMap_append, List.flatMap_singleton, replaced_of_none hname,
      replaced_tokenOf opening (by decide), replaced_tokenOf closing (by decide),
      arguments.substitute_tokens harguments]
    rfl
  | .group opening inner closing =>
    rw [Primary.substitute, Tier.tokens, Primary.tokens, Primary.tokens, List.flatMap_cons,
      List.flatMap_append, List.flatMap_singleton, replaced_tokenOf opening (by decide),
      replaced_tokenOf closing (by decide), inner.substitute_tokens h]
    rfl
  | .array opening items closing =>
    rw [Primary.substitute, Tier.tokens, Primary.tokens, Primary.tokens, List.flatMap_cons,
      List.flatMap_append, List.flatMap_singleton, replaced_tokenOf opening (by decide),
      replaced_tokenOf closing (by decide), items.substitute_tokens h]
    rfl

theorem Listing.substitute_tokens {ofCall : Bool} (l : Listing ofCall)
    (h : Keeps operands (Node.headsList l.nodes)) :
    (l.substitute operands).tokens = l.tokens.flatMap (replaced operands) := by
  match l with
  | .empty => rfl
  | .items first rest =>
    obtain ⟨hfirst, hrest⟩ := Keeps.append h
    rw [Listing.substitute, Listing.tokens, Listing.tokens, List.flatMap_append,
      first.substitute_tokens hfirst, rest.substitute_tokens hrest]

theorem Items.substitute_tokens {ofCall : Bool} (r : Items ofCall)
    (h : Keeps operands (Node.headsList r.nodes)) :
    (r.substitute operands).tokens = r.tokens.flatMap (replaced operands) := by
  match r with
  | .done => rfl
  | .next comma item rest =>
    obtain ⟨hitem, hrest⟩ := Keeps.append h
    rw [Items.substitute, Items.tokens, Items.tokens, List.flatMap_cons, List.flatMap_append,
      replaced_tokenOf comma (by decide), item.substitute_tokens hitem, rest.substitute_tokens hrest]
    rfl

theorem Item.substitute_tokens {ofCall : Bool} (i : Item ofCall) (h : Keeps operands i.node.heads) :
    (i.substitute operands).tokens = i.tokens.flatMap (replaced operands) := by
  match i with
  | .expression e => exact e.substitute_tokens h
  | .spread dots name =>
    obtain ⟨hname, _⟩ := Keeps.cons h
    rw [Item.substitute, Item.tokens, List.flatMap_cons, List.flatMap_singleton,
      replaced_tokenOf dots (by decide), replaced_of_none hname]
    rfl
  | .lambda parameter arrow body =>
    obtain ⟨hparameter, hbody⟩ := Keeps.cons h
    rw [Item.substitute, Item.tokens, Item.tokens, List.flatMap_cons, List.flatMap_cons,
      replaced_of_none hparameter, replaced_tokenOf arrow (by decide), body.substitute_tokens hbody]
    rfl

end

/-! ## The tree of a substitution -/

theorem unplaced_substitute_operation {trees : Text → Option Node} {n position : Nat} {operator : Text}
    {left left' right right' : Node} (hl : left'.unplaced = (left.substitute trees).unplaced)
    (hr : right'.unplaced = (right.substitute trees).unplaced) :
    (operation n position operator left' right').unplaced =
      ((operation n position operator left right).substitute trees).unplaced := by
  unfold operation
  split <;> simp only [Node.substitute, Node.unplaced, hl, hr]

/-- Whether trees are those of the derivations substituted, positions aside. -/
def TreesOf (operands : Text → Option (Tier 0)) (trees : Text → Option Node) : Prop :=
  ∀ x, (trees x).map Node.unplaced = (operands x).map fun e => e.node.unplaced

section Nodes
variable {trees : Text → Option Node}

mutual

theorem Tier.substitute_node {n : Nat} (e : Tier n) (ht : TreesOf operands trees) :
    (e.substitute operands).node.unplaced = (e.node.substitute trees).unplaced := by
  match e with
  | .primary p => exact p.substitute_node ht
  | .prefixed t operator known operand =>
    simp only [Tier.substitute, Tier.node, Node.substitute, Node.unplaced, operand.substitute_node ht]
  | .chain first rest => exact rest.substitute_node ht (first.substitute_node ht)

theorem Chain.substitute_node {n : Nat} (c : Chain n) (ht : TreesOf operands trees)
    {left left' : Node} (hl : left'.unplaced = (left.substitute trees).unplaced) :
    ((c.substitute operands).node left').unplaced = ((c.node left).substitute trees).unplaced := by
  match c with
  | .done => exact hl
  | .next t operator known operand rest =>
    exact rest.substitute_node ht (unplaced_substitute_operation hl (operand.substitute_node ht))

theorem Primary.substitute_node (p : Primary) (ht : TreesOf operands trees) :
    (p.substitute operands).node.unplaced = (p.node.substitute trees).unplaced := by
  match p with
  | .literal t known => rfl
  | .identifier t =>
    have hx := ht (nameOf t)
    rw [Primary.substitute, Primary.node, Node.substitute]
    cases ho : operands (nameOf t) with
    | none =>
      rw [ho] at hx
      rw [Option.map_eq_none_iff.mp hx]
      rfl
    | some e =>
      rw [ho] at hx
      obtain ⟨tree, htree, he⟩ := Option.map_eq_some_iff.mp hx
      rw [htree]
      exact he.symm
  | .call name opening arguments closing =>
    simp only [Primary.substitute, Tier.node, Primary.node, Node.substitute, Node.unplaced,
      Node.unplacedList_eq, Node.substituteList_eq, arguments.substitute_nodes ht]
  | .group opening inner closing => exact inner.substitute_node ht
  | .array opening items closing =>
    simp only [Primary.substitute, Tier.node, Primary.node, Node.substitute, Node.unplaced,
      Node.unplacedList_eq, Node.substituteList_eq, items.substitute_nodes ht]

theorem Listing.substitute_nodes {ofCall : Bool} (l : Listing ofCall)
    (ht : TreesOf operands trees) :
    (l.substitute operands).nodes.map Node.unplaced =
      (l.nodes.map (Node.substitute trees)).map Node.unplaced := by
  match l with
  | .empty => rfl
  | .items first rest =>
    simp only [Listing.substitute, Listing.nodes, List.map_cons, first.substitute_node ht,
      rest.substitute_nodes ht]

theorem Items.substitute_nodes {ofCall : Bool} (r : Items ofCall) (ht : TreesOf operands trees) :
    (r.substitute operands).nodes.map Node.unplaced =
      (r.nodes.map (Node.substitute trees)).map Node.unplaced := by
  match r with
  | .done => rfl
  | .next comma item rest =>
    simp only [Items.substitute, Items.nodes, List.map_cons, item.substitute_node ht,
      rest.substitute_nodes ht]

theorem Item.substitute_node {ofCall : Bool} (i : Item ofCall) (ht : TreesOf operands trees) :
    (i.substitute operands).node.unplaced = (i.node.substitute trees).unplaced := by
  match i with
  | .expression e => exact e.substitute_node ht
  | .spread dots name => rfl
  | .lambda parameter arrow body =>
    simp only [Item.substitute, Item.node, Node.substitute, Node.unplaced, body.substitute_node ht]

end

end Nodes

end Grammar
end Vetting
