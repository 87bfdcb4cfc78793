import Vetting.Proofs.Grammar.Derivation

/-!
# Derivations without places

Positions play no part in the grammar: tokens that differ from those of a derivation by their
positions alone have a derivation of their own, with the same tree up to positions and the same
nesting.
-/

namespace Vetting

def Token.unplaced (t : Token) : Token := { t with position := 0 }

namespace Token

@[simp] theorem unplaced_kind (t : Token) : t.unplaced.kind = t.kind := rfl
@[simp] theorem unplaced_value (t : Token) : t.unplaced.value = t.value := rfl
@[simp] theorem nameOf_unplaced (t : Token) : Parser.nameOf t.unplaced = Parser.nameOf t := rfl

theorem kind_eq_of_unplaced {t u : Token} (h : t.unplaced = u.unplaced) : t.kind = u.kind := by
  rw [← unplaced_kind t, h, unplaced_kind]

theorem value_eq_of_unplaced {t u : Token} (h : t.unplaced = u.unplaced) : t.value = u.value := by
  rw [← unplaced_value t, h, unplaced_value]

theorem nameOf_eq_of_unplaced {t u : Token} (h : t.unplaced = u.unplaced) :
    Parser.nameOf t = Parser.nameOf u := by
  rw [← nameOf_unplaced t, h, nameOf_unplaced]

end Token

namespace Node

mutual

def unplaced : Node → Node
  | literal _ v => literal 0 v
  | identifier _ name => identifier 0 name
  | array _ items => array 0 (unplacedList items)
  | spread _ name => spread 0 name
  | lambda _ parameter body => lambda 0 parameter body.unplaced
  | call _ name arguments => call 0 name (unplacedList arguments)
  | unary _ operator operand => unary 0 operator operand.unplaced
  | binary _ operator left right => binary 0 operator left.unplaced right.unplaced
  | logical _ operator left right => logical 0 operator left.unplaced right.unplaced
  | bare _ => bare 0

def unplacedList : List Node → List Node
  | [] => []
  | node :: rest => node.unplaced :: unplacedList rest

end

@[simp] theorem unplacedList_eq (nodes : List Node) : unplacedList nodes = nodes.map unplaced := by
  induction nodes with
  | nil => rfl
  | cons node rest ih => rw [unplacedList, ih, List.map_cons]

theorem exists_literal_of_unplaced {node : Node} {v : Value} (h : node.unplaced = literal 0 v) :
    ∃ position, node = literal position v := by
  cases node with
  | literal position w =>
    rw [unplaced, literal.injEq] at h
    exact ⟨position, h.2 ▸ rfl⟩
  | _ => cases h

theorem exists_unary_of_unplaced {node operand : Node} {operator : Text}
    (h : node.unplaced = unary 0 operator operand) :
    ∃ position inner, node = unary position operator inner ∧ inner.unplaced = operand := by
  cases node with
  | unary position own inner =>
    rw [unplaced, unary.injEq] at h
    exact ⟨position, inner, h.2.1 ▸ rfl, h.2.2⟩
  | _ => cases h

theorem exists_array_of_unplaced {node : Node} {items : List Node}
    (h : node.unplaced = array 0 items) :
    ∃ position nodes, node = array position nodes ∧ nodes.map unplaced = items := by
  cases node with
  | array position nodes =>
    rw [unplaced, unplacedList_eq, array.injEq] at h
    exact ⟨position, nodes, rfl, h.2⟩
  | _ => cases h

end Node

namespace Grammar

open Vetting.Parser (operator? prefixOperator? isLiteral nameOf operation)

/-- Tokens that differ by their positions alone. -/
def SameTokens (tokens tokens' : List Token) : Prop :=
  tokens.map Token.unplaced = tokens'.map Token.unplaced

theorem sameTokens_unplaced {tokens unplaced : List Token} (h : tokens.map Token.unplaced = unplaced) :
    SameTokens tokens unplaced := by
  rw [SameTokens, ← h, List.map_map]
  rfl

theorem SameTokens.append {a b a' b' : List Token} (ha : SameTokens a a') (hb : SameTokens b b') :
    SameTokens (a ++ b) (a' ++ b') := by
  rw [SameTokens, List.map_append, List.map_append, ha, hb]

theorem SameTokens.eq_nil {tokens : List Token} (h : SameTokens tokens []) : tokens = [] :=
  List.map_eq_nil_iff.mp h

theorem SameTokens.exists_cons {tokens : List Token} {t : Token} {rest : List Token}
    (h : SameTokens tokens (t :: rest)) : ∃ t' rest', tokens = t' :: rest' ∧
      t'.unplaced = t.unplaced ∧ SameTokens rest' rest :=
  List.map_eq_cons_iff.mp h

theorem SameTokens.exists_append {tokens a b : List Token} (h : SameTokens tokens (a ++ b)) :
    ∃ a' b', tokens = a' ++ b' ∧ SameTokens a' a ∧ SameTokens b' b :=
  List.map_eq_append_iff.mp (h.trans List.map_append)

theorem SameTokens.exists_tokenOf {kind : TokenKind} {tokens : List Token} {t : TokenOf kind}
    {rest : List Token} (h : SameTokens tokens (t.1 :: rest)) :
    ∃ (t' : TokenOf kind) (rest' : List Token), tokens = t'.1 :: rest' ∧
      t'.1.unplaced = t.1.unplaced ∧ SameTokens rest' rest := by
  obtain ⟨t', rest', rfl, ht, hr⟩ := h.exists_cons
  exact ⟨⟨t', (Token.kind_eq_of_unplaced ht).trans t.2⟩, rest', rfl, ht, hr⟩

theorem unplaced_operation {n position position' : Nat} {operator : Text}
    {left left' right right' : Node} (hl : left.unplaced = left'.unplaced)
    (hr : right.unplaced = right'.unplaced) :
    (operation n position operator left right).unplaced =
      (operation n position' operator left' right').unplaced := by
  unfold operation
  split <;> simp only [Node.unplaced, hl, hr]

mutual

theorem Tier.exists_of_sameTokens {n : Nat} (e : Tier n) {tokens : List Token}
    (h : SameTokens tokens e.tokens) :
    ∃ e' : Tier n, e'.tokens = tokens ∧ e'.node.unplaced = e.node.unplaced ∧
      e'.nesting = e.nesting := by
  match e with
  | .primary p =>
    obtain ⟨p', rfl, hn, hd⟩ := p.exists_of_sameTokens h
    exact ⟨.primary p', rfl, hn, hd⟩
  | .prefixed t operator known operand =>
    obtain ⟨t', rest, rfl, ht, hr⟩ := h.exists_cons
    obtain ⟨operand', rfl, hn, hd⟩ := operand.exists_of_sameTokens hr
    refine ⟨.prefixed t' operator (Token.kind_eq_of_unplaced ht ▸ known) operand', rfl, ?_, ?_⟩
    · simp only [Tier.node, Node.unplaced, hn]
    · simp only [Tier.nesting, hd]
  | .chain first rest =>
    obtain ⟨a, b, rfl, ha, hb⟩ := h.exists_append
    obtain ⟨first', rfl, hn, hd⟩ := first.exists_of_sameTokens ha
    obtain ⟨rest', rfl, hrn, hrd⟩ := rest.exists_of_sameTokens hb
    exact ⟨.chain first' rest', rfl, hrn hn, by simp only [Tier.nesting, hd, hrd]⟩

theorem Chain.exists_of_sameTokens {n : Nat} (c : Chain n) {tokens : List Token}
    (h : SameTokens tokens c.tokens) :
    ∃ c' : Chain n, c'.tokens = tokens ∧
      (∀ {left left' : Node}, left'.unplaced = left.unplaced →
        (c'.node left').unplaced = (c.node left).unplaced) ∧ c'.nesting = c.nesting := by
  match c with
  | .done => exact ⟨.done, h.eq_nil.symm, fun hl => hl, rfl⟩
  | .next t operator known operand rest =>
    obtain ⟨t', tail, rfl, ht, htail⟩ := h.exists_cons
    obtain ⟨a, b, rfl, ha, hb⟩ := htail.exists_append
    obtain ⟨operand', rfl, hn, hd⟩ := operand.exists_of_sameTokens ha
    obtain ⟨rest', rfl, hrn, hrd⟩ := rest.exists_of_sameTokens hb
    refine ⟨.next t' operator (Token.kind_eq_of_unplaced ht ▸ known) operand' rest', rfl, ?_, ?_⟩
    · exact fun hl => hrn (unplaced_operation hl hn)
    · simp only [Chain.nesting, hd, hrd]

theorem Primary.exists_of_sameTokens (p : Primary) {tokens : List Token}
    (h : SameTokens tokens p.tokens) :
    ∃ p' : Primary, p'.tokens = tokens ∧ p'.node.unplaced = p.node.unplaced ∧
      p'.nesting = p.nesting := by
  match p with
  | .literal t known =>
    obtain ⟨t', rest, rfl, ht, hr⟩ := h.exists_cons
    obtain rfl := hr.eq_nil
    refine ⟨.literal t' (Token.kind_eq_of_unplaced ht ▸ known), rfl, ?_, rfl⟩
    simp only [Primary.node, Node.unplaced, Token.value_eq_of_unplaced ht]
  | .identifier t =>
    obtain ⟨t', rest, rfl, ht, hr⟩ := h.exists_tokenOf
    obtain rfl := hr.eq_nil
    refine ⟨.identifier t', rfl, ?_, rfl⟩
    simp only [Primary.node, Node.unplaced, Token.nameOf_eq_of_unplaced ht]
  | .call name opening arguments closing =>
    obtain ⟨name', _, rfl, hn, hr⟩ := h.exists_tokenOf
    obtain ⟨opening', _, rfl, _, hr⟩ := hr.exists_tokenOf
    obtain ⟨_, _, rfl, ha, hc⟩ := hr.exists_append
    obtain ⟨arguments', rfl, hnodes, hd⟩ := arguments.exists_of_sameTokens ha
    obtain ⟨closing', _, rfl, _, hc⟩ := hc.exists_tokenOf
    obtain rfl := hc.eq_nil
    refine ⟨.call name' opening' arguments' closing', rfl, ?_, hd⟩
    simp only [Primary.node, Node.unplaced, Node.unplacedList_eq, hnodes, Token.nameOf_eq_of_unplaced hn]
  | .group opening inner closing =>
    obtain ⟨opening', _, rfl, _, hr⟩ := h.exists_tokenOf
    obtain ⟨_, _, rfl, hi, hc⟩ := hr.exists_append
    obtain ⟨inner', rfl, hn, hd⟩ := inner.exists_of_sameTokens hi
    obtain ⟨closing', _, rfl, _, hc⟩ := hc.exists_tokenOf
    obtain rfl := hc.eq_nil
    exact ⟨.group opening' inner' closing', rfl, hn, by simp only [Primary.nesting, hd]⟩
  | .array opening items closing =>
    obtain ⟨opening', _, rfl, _, hr⟩ := h.exists_tokenOf
    obtain ⟨_, _, rfl, hi, hc⟩ := hr.exists_append
    obtain ⟨items', rfl, hnodes, hd⟩ := items.exists_of_sameTokens hi
    obtain ⟨closing', _, rfl, _, hc⟩ := hc.exists_tokenOf
    obtain rfl := hc.eq_nil
    refine ⟨.array opening' items' closing', rfl, ?_, hd⟩
    simp only [Primary.node, Node.unplaced, Node.unplacedList_eq, hnodes]

theorem Listing.exists_of_sameTokens {ofCall : Bool} (l : Listing ofCall) {tokens : List Token}
    (h : SameTokens tokens l.tokens) :
    ∃ l' : Listing ofCall, l'.tokens = tokens ∧
      l'.nodes.map Node.unplaced = l.nodes.map Node.unplaced ∧ l'.nesting = l.nesting := by
  match l with
  | .empty => exact ⟨.empty, h.eq_nil.symm, rfl, rfl⟩
  | .items first rest =>
    obtain ⟨a, b, rfl, ha, hb⟩ := h.exists_append
    obtain ⟨first', rfl, hn, hd⟩ := first.exists_of_sameTokens ha
    obtain ⟨rest', rfl, hrn, hrd⟩ := rest.exists_of_sameTokens hb
    refine ⟨.items first' rest', rfl, ?_, ?_⟩
    · simp only [Listing.nodes, List.map_cons, hn, hrn]
    · simp only [Listing.nesting, hd, hrd]

theorem Items.exists_of_sameTokens {ofCall : Bool} (r : Items ofCall) {tokens : List Token}
    (h : SameTokens tokens r.tokens) :
    ∃ r' : Items ofCall, r'.tokens = tokens ∧
      r'.nodes.map Node.unplaced = r.nodes.map Node.unplaced ∧ r'.nesting = r.nesting := by
  match r with
  | .done => exact ⟨.done, h.eq_nil.symm, rfl, rfl⟩
  | .next comma item rest =>
    obtain ⟨comma', _, rfl, _, hr⟩ := h.exists_tokenOf
    obtain ⟨a, b, rfl, ha, hb⟩ := hr.exists_append
    obtain ⟨item', rfl, hn, hd⟩ := item.exists_of_sameTokens ha
    obtain ⟨rest', rfl, hrn, hrd⟩ := rest.exists_of_sameTokens hb
    refine ⟨.next comma' item' rest', rfl, ?_, ?_⟩
    · simp only [Items.nodes, List.map_cons, hn, hrn]
    · simp only [Items.nesting, hd, hrd]

theorem Item.exists_of_sameTokens {ofCall : Bool} (i : Item ofCall) {tokens : List Token}
    (h : SameTokens tokens i.tokens) :
    ∃ i' : Item ofCall, i'.tokens = tokens ∧ i'.node.unplaced = i.node.unplaced ∧
      i'.nesting = i.nesting := by
  match i with
  | .expression e =>
    obtain ⟨e', rfl, hn, hd⟩ := e.exists_of_sameTokens h
    exact ⟨.expression e', rfl, hn, by simp only [Item.nesting, hd]⟩
  | .spread dots name =>
    obtain ⟨dots', _, rfl, _, hr⟩ := h.exists_tokenOf
    obtain ⟨name', _, rfl, hn, hr⟩ := hr.exists_tokenOf
    obtain rfl := hr.eq_nil
    refine ⟨.spread dots' name', rfl, ?_, rfl⟩
    simp only [Item.node, Node.unplaced, Token.nameOf_eq_of_unplaced hn]
  | .lambda parameter arrow body =>
    obtain ⟨parameter', _, rfl, hp, hr⟩ := h.exists_tokenOf
    obtain ⟨arrow', _, rfl, _, hr⟩ := hr.exists_tokenOf
    obtain ⟨body', rfl, hn, hd⟩ := body.exists_of_sameTokens hr
    refine ⟨.lambda parameter' arrow' body', rfl, ?_, by simp only [Item.nesting, hd]⟩
    simp only [Item.node, Node.unplaced, hn, Token.nameOf_eq_of_unplaced hp]

end

end Grammar
end Vetting
