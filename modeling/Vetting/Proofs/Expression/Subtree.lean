import Mathlib.Data.List.Nodup
import Vetting.Proofs.Expression.Layout
import Vetting.Proofs.Expression.Position

/-!
# Subtrees

The trees within a tree. In the tree of a text no two of them stand at one position, so that a position
tells a node.
-/

namespace Vetting

namespace Node

mutual

def subtrees : Node → List Node
  | literal p v => [literal p v]
  | identifier p name => [identifier p name]
  | array p nodes => array p nodes :: subtreesIn nodes
  | spread p name => [spread p name]
  | lambda p parameter body => lambda p parameter body :: body.subtrees
  | call p name nodes => call p name nodes :: subtreesIn nodes
  | unary p operator operand => unary p operator operand :: operand.subtrees
  | binary p operator left right => binary p operator left right :: (left.subtrees ++ right.subtrees)
  | logical p operator left right => logical p operator left right :: (left.subtrees ++ right.subtrees)
  | bare p => [bare p]

def subtreesIn : List Node → List Node
  | [] => []
  | node :: rest => node.subtrees ++ subtreesIn rest

end

theorem mem_subtrees_self (node : Node) : node ∈ node.subtrees := by
  cases node <;> exact List.mem_cons_self

mutual

theorem map_position_subtrees (node : Node) : node.subtrees.map position = node.positions := by
  match node with
  | literal .. | identifier .. | spread .. | bare _ => rfl
  | array _ nodes | call _ _ nodes => exact congrArg _ (map_position_subtreesIn nodes)
  | lambda _ _ body => exact congrArg _ body.map_position_subtrees
  | unary _ _ operand => exact congrArg _ operand.map_position_subtrees
  | binary _ _ left right | logical _ _ left right =>
    rw [subtrees, positions, List.map_cons, List.map_append, left.map_position_subtrees,
      right.map_position_subtrees]
    rfl

theorem map_position_subtreesIn (nodes : List Node) :
    (subtreesIn nodes).map position = positionsIn nodes := by
  match nodes with
  | [] => rfl
  | node :: rest =>
    rw [subtreesIn, positionsIn, List.map_append, node.map_position_subtrees,
      map_position_subtreesIn rest]

end

/-- Whether no two nodes of a tree stand at one position. -/
def Spaced (tree : Node) : Prop := tree.positions.Nodup

theorem Spaced.eq_of_position_eq {tree node node' : Node} (h : tree.Spaced)
    (hn : node ∈ tree.subtrees) (hn' : node' ∈ tree.subtrees) (hp : node.position = node'.position) :
    node = node' := by
  rw [Spaced, ← map_position_subtrees] at h
  exact List.inj_on_of_nodup_map h hn hn' hp

end Node

/-! ## Derivations -/

namespace Grammar

open Vetting.Parser

def crowd (p : Nat) (tokens : List Token) : Nat := (tokens.map Token.position).count p

section Crowd
variable {p : Nat}

theorem crowd_cons (t : Token) (tokens : List Token) :
    crowd p (t :: tokens) = crowd p tokens + [t.position].count p := by
  rw [crowd, List.map_cons, List.count_cons, List.count_singleton, crowd]

theorem crowd_append (tokens others : List Token) :
    crowd p (tokens ++ others) = crowd p tokens + crowd p others := by
  rw [crowd, List.map_append, List.count_append, crowd, crowd]

theorem count_position_cons (q : Nat) (positions : List Nat) :
    (q :: positions).count p = positions.count p + [q].count p := by
  rw [List.count_cons, List.count_singleton]

theorem count_operation (n position : Nat) (operator : Text) (left right : Node) :
    (operation n position operator left right).positions.count p =
      left.positions.count p + right.positions.count p + [position].count p := by
  unfold operation
  split
  all_goals rw [Node.positions, count_position_cons, List.count_append]

end Crowd

mutual

theorem Tier.count_positions_le {n : Nat} (e : Tier n) (p : Nat) :
    e.node.positions.count p ≤ crowd p e.tokens := by
  match e with
  | .primary primary => exact primary.count_positions_le p
  | .prefixed t operator known operand =>
    have ho := operand.count_positions_le p
    rw [Tier.node, Node.positions, count_position_cons, Tier.tokens, crowd_cons]
    omega
  | .chain first rest =>
    have hf := first.count_positions_le p
    have hr := rest.count_positions_le p first.node
    rw [Tier.node, Tier.tokens, crowd_append]
    omega

theorem Chain.count_positions_le {n : Nat} (c : Chain n) (p : Nat) (left : Node) :
    (c.node left).positions.count p ≤ left.positions.count p + crowd p c.tokens := by
  match c with
  | .done => exact Nat.le_add_right _ _
  | .next t operator known operand rest =>
    have ho := operand.count_positions_le p
    have hr := rest.count_positions_le p (operation (n + 1) t.position operator left operand.node)
    rw [count_operation] at hr
    rw [Chain.node, Chain.tokens, crowd_cons, crowd_append]
    omega

theorem Primary.count_positions_le (primary : Primary) (p : Nat) :
    primary.node.positions.count p ≤ crowd p primary.tokens := by
  match primary with
  | .literal t known => exact Nat.le_refl _
  | .identifier t => exact Nat.le_refl _
  | .call name opening arguments closing =>
    have ha := arguments.count_positions_le p
    rw [Primary.node, Node.positions, count_position_cons, Primary.tokens, crowd_cons, crowd_cons,
      crowd_append]
    omega
  | .group opening inner closing =>
    have hi := inner.count_positions_le p
    rw [Primary.node, Primary.tokens, crowd_cons, crowd_append]
    omega
  | .array opening items closing =>
    have hi := items.count_positions_le p
    rw [Primary.node, Node.positions, count_position_cons, Primary.tokens, crowd_cons, crowd_append]
    omega

theorem Listing.count_positions_le {ofCall : Bool} (l : Listing ofCall) (p : Nat) :
    (Node.positionsIn l.nodes).count p ≤ crowd p l.tokens := by
  match l with
  | .empty => exact Nat.zero_le _
  | .items first rest =>
    have hf := first.count_positions_le p
    have hr := rest.count_positions_le p
    rw [Listing.nodes, Node.positionsIn, List.count_append, Listing.tokens, crowd_append]
    omega

theorem Items.count_positions_le {ofCall : Bool} (r : Items ofCall) (p : Nat) :
    (Node.positionsIn r.nodes).count p ≤ crowd p r.tokens := by
  match r with
  | .done => exact Nat.zero_le _
  | .next comma item rest =>
    have hi := item.count_positions_le p
    have hr := rest.count_positions_le p
    rw [Items.nodes, Node.positionsIn, List.count_append, Items.tokens, crowd_cons, crowd_append]
    omega

theorem Item.count_positions_le {ofCall : Bool} (i : Item ofCall) (p : Nat) :
    i.node.positions.count p ≤ crowd p i.tokens := by
  match i with
  | .expression e => exact e.count_positions_le p
  | .spread dots name =>
    rw [Item.node, Node.positions, Item.tokens, crowd_cons]
    omega
  | .lambda parameter arrow body =>
    have hb := body.count_positions_le p
    rw [Item.node, Node.positions, count_position_cons, Item.tokens, crowd_cons, crowd_cons]
    omega

end

end Grammar

namespace Expression

open Grammar (crowd crowd_append)

/-- No two nodes of the tree of a text stand at one position. -/
theorem spaced_of_parseText {capacity : Nat} {limits : Limits} {text : Text} {tree : Node}
    (h : parseText capacity limits text = .ok tree) : tree.Spaced := by
  obtain ⟨e, ⟨ending, _, ht⟩, rfl⟩ := exists_derives_of_parseText h
  have hpairwise := (Lexer.scans_of_scan ht).pairwise_position.1
  have hnodup : ((e.tokens ++ [ending]).map Token.position).Nodup :=
    List.pairwise_map.mpr (hpairwise.imp Nat.ne_of_lt)
  refine List.nodup_iff_count_le_one.mpr fun p => ?_
  have hcount := List.nodup_iff_count_le_one.mp hnodup p
  have hle := e.count_positions_le p
  rw [← crowd, crowd_append] at hcount
  omega

end Expression
end Vetting
