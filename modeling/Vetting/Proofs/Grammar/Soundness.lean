import Vetting.Proofs.Grammar.Derivation
import Vetting.Proofs.Grammar.Reading

/-!
# What the parser reads has a derivation

A reader that returns a tree has taken the tokens of a derivation of that tree from the front of
its tokens, and it has checked the bounds as deep as the derivation nests. The proofs follow the
descent of the parser, so they end for the same reason.
-/

namespace Vetting.Grammar

open Vetting.Parser

section Soundness
variable {bounds : Bounds}

mutual

theorem exists_tier {depth n : Nat} {tokens rest : List Token} {node : Node}
    (hd : bounds.Admits depth) (h : Reads (tier bounds depth n tokens) node rest) :
    ∃ e : Tier n, tokens = e.tokens ++ rest ∧ e.node = node ∧ bounds.Admits (depth + e.nesting) := by
  match n with
  | 0 => exact exists_unary hd (reads_tier_zero_iff.mp h)
  | n + 1 =>
    obtain ⟨left, inner, hl, hc⟩ := reads_tier_succ_iff.mp h
    have := hl.length_lt
    obtain ⟨first, ht, rfl, hf⟩ := exists_tier hd hl
    obtain ⟨more, rfl, hn, hm⟩ := exists_chain hd hc
    refine ⟨.chain first more, ?_, hn, Bounds.admits_add_max_iff.mpr ⟨hf, hm⟩⟩
    rw [ht, Tier.tokens, List.append_assoc]
termination_by 16 * tokens.length + 2 + n

theorem exists_chain {depth n : Nat} {left : Node} {tokens rest : List Token} {node : Node}
    (hd : bounds.Admits depth) (h : Reads (chain bounds depth n left tokens) node rest) :
    ∃ c : Chain n, tokens = c.tokens ++ rest ∧ c.node left = node ∧
      bounds.Admits (depth + c.nesting) := by
  match tokens with
  | [] =>
    obtain ⟨rfl, rfl⟩ := reads_chain_nil_iff.mp h
    exact ⟨.done, rfl, rfl, hd⟩
  | t :: tokens =>
    cases ho : operator? (n + 1) t.kind with
    | none =>
      obtain ⟨rfl, rfl⟩ := (reads_chain_done_iff ho).mp h
      exact ⟨.done, rfl, rfl, hd⟩
    | some operator =>
      obtain ⟨right, inner, hr, hc⟩ := (reads_chain_next_iff ho).mp h
      have : inner.length < tokens.length := hr.length_lt
      obtain ⟨operand, rfl, rfl, hf⟩ := exists_tier hd hr
      obtain ⟨more, rfl, hn, hm⟩ := exists_chain hd hc
      refine ⟨.next t operator ho operand more, ?_, hn, Bounds.admits_add_max_iff.mpr ⟨hf, hm⟩⟩
      rw [Chain.tokens, List.cons_append, List.append_assoc]
termination_by 16 * tokens.length + 3 + n

theorem exists_unary {depth : Nat} {tokens rest : List Token} {node : Node}
    (hd : bounds.Admits depth) (h : Reads (unary bounds depth tokens) node rest) :
    ∃ e : Tier 0, tokens = e.tokens ++ rest ∧ e.node = node ∧ bounds.Admits (depth + e.nesting) := by
  match tokens with
  | [] => exact absurd h not_reads_nil
  | t :: tokens =>
    cases ho : prefixOperator? t.kind with
    | none =>
      obtain ⟨p, ht, hn, hp⟩ := exists_primary hd ((reads_unary_primary_iff ho).mp h)
      exact ⟨.primary p, ht, hn, hp⟩
    | some operator =>
      obtain ⟨hb, operand, hr, rfl⟩ := (reads_unary_prefixed_iff ho).mp h
      obtain ⟨e, rfl, rfl, he⟩ := exists_unary hb hr
      exact ⟨.prefixed t operator ho e, rfl, rfl, he.mono (by simp only [Tier.nesting]; omega)⟩
termination_by 16 * tokens.length + 1

theorem exists_primary {depth : Nat} {t : Token} {tokens rest : List Token} {node : Node}
    (hd : bounds.Admits depth) (h : Reads (primary bounds depth (t :: tokens)) node rest) :
    ∃ p : Primary, t :: tokens = p.tokens ++ rest ∧ p.node = node ∧
      bounds.Admits (depth + p.nesting) := by
  rcases beginsPrimary_of_reads h with hl | hi | hp | ha
  · obtain ⟨rfl, rfl⟩ := (reads_literal_iff hl).mp h
    exact ⟨.literal t hl, rfl, rfl, hd⟩
  · by_cases ho : kindAt tokens = .openParen
    · match tokens, ho with
      | u :: inner, ho =>
        obtain ⟨nodes, hl, rfl⟩ := (reads_call_iff hi ho).mp h
        obtain ⟨l, closing, rfl, rfl, hb⟩ := exists_listing hd hl
        refine ⟨.call ⟨t, hi⟩ ⟨u, ho⟩ l closing, ?_, rfl, hb⟩
        simp [Primary.tokens]
    · obtain ⟨_, rfl, rfl⟩ := (reads_identifier_iff hi ho).mp h
      exact ⟨.identifier ⟨t, hi⟩, rfl, rfl, hd⟩
  · obtain ⟨closing, hc, he⟩ := (reads_group_iff hp).mp h
    obtain ⟨e, rfl, rfl, hb⟩ := exists_expression he
    refine ⟨.group ⟨t, hp⟩ e ⟨closing, hc⟩, ?_, rfl, hb⟩
    simp [Primary.tokens]
  · obtain ⟨nodes, hl, rfl⟩ := (reads_array_iff ha).mp h
    obtain ⟨l, closing, rfl, rfl, hb⟩ := exists_listing hd hl
    refine ⟨.array ⟨t, ha⟩ l closing, ?_, rfl, hb⟩
    simp [Primary.tokens]
termination_by 16 * (tokens.length + 1)

theorem exists_expression {depth : Nat} {tokens rest : List Token} {node : Node}
    (h : Reads (expression bounds depth tokens) node rest) :
    ∃ e : Phrase, tokens = e.tokens ++ rest ∧ e.node = node ∧
      bounds.Admits (depth + e.nesting + 1) := by
  obtain ⟨hd, ht⟩ := reads_expression_iff.mp h
  obtain ⟨e, he, hn, hb⟩ := exists_tier (n := 6) hd ht
  exact ⟨e, he, hn, hb.mono (by omega)⟩
termination_by 16 * tokens.length + 12

theorem exists_listing {depth : Nat} {closing : TokenKind} {what : Text} {ofCall : Bool}
    {tokens rest : List Token} {nodes : List Node} (hd : bounds.Admits depth)
    (h : Reads (list bounds depth closing what ofCall tokens) nodes rest) :
    ∃ (l : Listing ofCall) (c : TokenOf closing), tokens = l.tokens ++ c.1 :: rest ∧
      l.nodes = nodes ∧ bounds.Admits (depth + l.nesting) := by
  match tokens with
  | [] => exact absurd h not_reads_nil
  | t :: tokens =>
    by_cases hc : t.kind = closing
    · obtain ⟨rfl, rfl⟩ := (reads_list_closed_iff hc).mp h
      exact ⟨.empty, ⟨t, hc⟩, rfl, rfl, hd⟩
    · obtain ⟨first, inner, others, hf, ho, rfl⟩ := (reads_list_open_iff hc).mp h
      have : inner.length < tokens.length + 1 := hf.length_lt
      obtain ⟨i, hi, rfl, hb⟩ := exists_item hd hf
      obtain ⟨more, c, rfl, rfl, hm⟩ := exists_items hd ho
      refine ⟨.items i more, c, ?_, rfl, Bounds.admits_add_max_iff.mpr ⟨hb, hm⟩⟩
      rw [hi, Listing.tokens, List.append_assoc]
termination_by 16 * tokens.length + 14

theorem exists_items {depth : Nat} {closing : TokenKind} {what : Text} {ofCall : Bool}
    {tokens rest : List Token} {nodes : List Node} (hd : bounds.Admits depth)
    (h : Reads (items bounds depth closing what ofCall tokens) nodes rest) :
    ∃ (r : Items ofCall) (c : TokenOf closing), tokens = r.tokens ++ c.1 :: rest ∧
      r.nodes = nodes ∧ bounds.Admits (depth + r.nesting) := by
  match tokens with
  | [] => exact absurd h not_reads_nil
  | t :: tokens =>
    by_cases hc : t.kind = .comma
    · obtain ⟨first, inner, others, hf, ho, rfl⟩ := (reads_items_next_iff hc).mp h
      have : inner.length < tokens.length := hf.length_lt
      obtain ⟨i, rfl, rfl, hb⟩ := exists_item hd hf
      obtain ⟨more, c, rfl, rfl, hm⟩ := exists_items hd ho
      refine ⟨.next ⟨t, hc⟩ i more, c, ?_, rfl, Bounds.admits_add_max_iff.mpr ⟨hb, hm⟩⟩
      rw [Items.tokens, List.cons_append, List.append_assoc]
    · obtain ⟨hk, rfl, rfl⟩ := (reads_items_done_iff hc).mp h
      exact ⟨.done, ⟨t, hk⟩, rfl, rfl, hd⟩
termination_by 16 * tokens.length

theorem exists_item {depth : Nat} {ofCall : Bool} {tokens rest : List Token} {node : Node}
    (hd : bounds.Admits depth) (h : Reads (item bounds depth ofCall tokens) node rest) :
    ∃ i : Item ofCall, tokens = i.tokens ++ rest ∧ i.node = node ∧
      bounds.Admits (depth + i.nesting) := by
  by_cases ha : ofCall = true ∧ beginsArgument tokens
  · match ofCall, tokens, ha with
    | true, [t], ⟨_, .inl hs⟩ => exact absurd h (not_reads_item_spread hs)
    | true, t :: u :: inner, ⟨_, .inl hs⟩ =>
      obtain ⟨hu, rfl, rfl⟩ := (reads_item_spread_iff hs).mp h
      exact ⟨.spread ⟨t, hs⟩ ⟨u, hu⟩, rfl, rfl, hd⟩
    | true, t :: u :: inner, ⟨_, .inr ⟨hi, hu⟩⟩ =>
      obtain ⟨hd', body, hb, rfl⟩ := (reads_item_lambda_iff hi hu).mp h
      obtain ⟨e, rfl, rfl, he⟩ := exists_expression hb
      exact ⟨.lambda ⟨t, hi⟩ ⟨u, hu⟩ e, rfl, rfl, he.mono (by simp only [Item.nesting]; omega)⟩
  · have he := (reads_item_expression_iff fun hc hb => ha ⟨hc, hb⟩).mp h
    obtain ⟨e, ht, hn, hb⟩ := exists_expression he
    exact ⟨.expression e, ht, hn, hb⟩
termination_by 16 * tokens.length + 13

end

end Soundness

end Vetting.Grammar
