import Vetting.Proofs.Grammar.Derivation
import Vetting.Proofs.Grammar.Reading

/-!
# The parser reads every derivation

A reader stops only where its syntactic class ends, so it reads back a derivation when the token
after it cannot go on: no operator of its tiers, no parenthesis that would make an identifier a
call, no arrow that would make it a lambda.
-/

namespace Vetting.Grammar

open Vetting.Parser

/-- Whether a phrase of tier `n` ends before these tokens. -/
structure Ends (n : Nat) (rest : List Token) : Prop where
  operator : ∀ k, k ≤ n → operator? k (kindAt rest) = none
  openParen : kindAt rest ≠ .openParen
  arrow : kindAt rest ≠ .arrow

/-- The kinds of tokens after which an item or a whole expression ends. -/
def closes (kind : TokenKind) : Prop :=
  kind = .closeParen ∨ kind = .closeBracket ∨ kind = .comma ∨ kind = .ending

theorem operator?_eq_none_of_closes {kind : TokenKind} (h : closes kind) (n : Nat) :
    operator? n kind = none := by
  rcases h with rfl | rfl | rfl | rfl <;> unfold operator? <;> split <;> simp_all

theorem Ends.of_closes {n : Nat} {rest : List Token} (h : closes (kindAt rest)) : Ends n rest := by
  refine ⟨fun k _ => operator?_eq_none_of_closes h k, ?_, ?_⟩ <;>
    rcases h with h | h | h | h <;> simp [h]

theorem Ends.mono {n m : Nat} {rest : List Token} (h : n ≤ m) (hr : Ends m rest) : Ends n rest :=
  ⟨fun k hk => hr.operator k (Nat.le_trans hk h), hr.openParen, hr.arrow⟩

/-- The tier that an operator belongs to; zero for all else. -/
def tierOf : TokenKind → Nat
  | .star | .slash => 1
  | .plus | .minus => 2
  | .greater | .greaterOrEqual | .less | .lessOrEqual => 3
  | .equal | .notEqual => 4
  | .and => 5
  | .or => 6
  | _ => 0

theorem eq_tierOf {n : Nat} {kind : TokenKind} {operator : Text}
    (h : operator? n kind = some operator) : n = tierOf kind := by
  unfold operator? at h
  split at h <;> first | rfl | cases h

theorem Ends.of_operator {n : Nat} {t : Token} {operator : Text} {tokens : List Token}
    (h : operator? (n + 1) t.kind = some operator) : Ends n (t :: tokens) := by
  refine ⟨fun k hk => ?_, ?_, ?_⟩
  · cases hk' : operator? k t.kind with
    | none => exact hk'
    | some a =>
      have hk := eq_tierOf hk'
      have hn := eq_tierOf h
      omega
  · intro hp
    simp only [kindAt] at hp
    simp [hp, operator?] at h
  · intro ha
    simp only [kindAt] at ha
    simp [ha, operator?] at h

theorem Chain.ends {n : Nat} (c : Chain n) {rest : List Token} (h : Ends (n + 1) rest) :
    Ends n (c.tokens ++ rest) := by
  cases c with
  | done => exact h.mono (Nat.le_succ n)
  | next t operator known operand more => exact .of_operator known

/-! ## First tokens -/

def begins (kind : TokenKind) : Prop := beginsPrimary kind ∨ ∃ operator, prefixOperator? kind = some operator

theorem not_closes_of_begins {kind : TokenKind} (h : begins kind) : ¬ closes kind := by
  intro hc
  rcases hc with rfl | rfl | rfl | rfl <;> simp [begins, beginsPrimary, isLiteral, prefixOperator?] at h

theorem Primary.exists_head (p : Primary) : ∃ t tokens, p.tokens = t :: tokens ∧ beginsPrimary t.kind := by
  cases p with
  | literal t known => exact ⟨t, [], rfl, .inl known⟩
  | identifier t => exact ⟨t.1, [], rfl, .inr (.inl t.2)⟩
  | call name opening arguments closing => exact ⟨name.1, _, rfl, .inr (.inl name.2)⟩
  | group opening inner closing => exact ⟨opening.1, _, rfl, .inr (.inr (.inl opening.2))⟩
  | array opening items closing => exact ⟨opening.1, _, rfl, .inr (.inr (.inr opening.2))⟩

theorem Tier.exists_head {n : Nat} (e : Tier n) : ∃ t tokens, e.tokens = t :: tokens ∧ begins t.kind := by
  match e with
  | .primary p =>
    obtain ⟨t, tokens, h, hb⟩ := p.exists_head
    exact ⟨t, tokens, h, .inl hb⟩
  | .prefixed t operator known operand => exact ⟨t, operand.tokens, rfl, .inr ⟨operator, known⟩⟩
  | .chain first rest =>
    obtain ⟨t, tokens, h, hb⟩ := first.exists_head
    exact ⟨t, tokens ++ rest.tokens, by simp [Tier.tokens, h], hb⟩

theorem not_spread_of_begins {kind : TokenKind} (h : begins kind) : kind ≠ .spread := by
  rintro rfl
  simp [begins, beginsPrimary, isLiteral, prefixOperator?] at h

theorem Primary.not_beginsArgument (p : Primary) {rest : List Token} (h : kindAt rest ≠ .arrow) :
    ¬ beginsArgument (p.tokens ++ rest) := by
  obtain ⟨t, tokens, ht, hb⟩ := p.exists_head
  rw [ht]
  rintro (hs | ⟨hi, ha⟩)
  · exact not_spread_of_begins (.inl hb) hs
  · cases p with
    | literal t known => cases ht; simp [hi, isLiteral] at known
    | identifier t => cases ht; exact h ha
    | call name opening arguments closing => cases ht; simp [kindAt] at ha
    | group opening inner closing => cases ht; simp at hi
    | array opening items closing => cases ht; simp at hi

theorem Item.exists_head {ofCall : Bool} (i : Item ofCall) :
    ∃ t tokens, i.tokens = t :: tokens ∧ ¬ closes t.kind := by
  cases i with
  | expression e =>
    obtain ⟨t, tokens, h, hb⟩ := e.exists_head
    exact ⟨t, tokens, h, not_closes_of_begins hb⟩
  | spread dots name => exact ⟨dots.1, _, rfl, by simp [closes]⟩
  | lambda parameter arrow body => exact ⟨parameter.1, _, rfl, by simp [closes]⟩

/-- A phrase is no spread and no lambda. -/
theorem Tier.not_beginsArgument {n : Nat} (e : Tier n) {rest : List Token} (h : Ends n rest) :
    ¬ beginsArgument (e.tokens ++ rest) := by
  match e with
  | .primary p => exact p.not_beginsArgument h.arrow
  | .prefixed t operator known operand =>
    rintro (hs | ⟨hi, _⟩)
    · simp [hs, prefixOperator?] at known
    · simp [hi, prefixOperator?] at known
  | .chain first more =>
    rw [Tier.tokens, List.append_assoc]
    exact first.not_beginsArgument (more.ends h)

/-! ## Reading back -/

section Completeness
variable {bounds : Bounds}

theorem prefixOperator?_eq_none {kind : TokenKind} (h : beginsPrimary kind) :
    prefixOperator? kind = none := by
  cases kind <;> simp_all [beginsPrimary, isLiteral, prefixOperator?]

theorem Items.closes {ofCall : Bool} (r : Items ofCall) {kind : TokenKind} (closing : TokenOf kind)
    (rest : List Token) (h : Grammar.closes kind) :
    Grammar.closes (kindAt (r.tokens ++ closing.1 :: rest)) := by
  cases r with
  | done => rwa [← closing.2] at h
  | next comma item more => exact .inr (.inr (.inl comma.2))

mutual

theorem Tier.reads {n : Nat} (e : Tier n) {depth : Nat} {rest : List Token}
    (hb : bounds.Admits (depth + e.nesting)) (hr : Ends n rest) :
    Reads (tier bounds depth n (e.tokens ++ rest)) e.node rest := by
  match e with
  | .primary p =>
    obtain ⟨t, tokens, ht, hk⟩ := p.exists_head
    have h := p.reads hb hr
    rw [Tier.tokens, ht] at *
    rw [List.cons_append] at *
    exact reads_tier_zero_iff.mpr ((reads_unary_primary_iff (prefixOperator?_eq_none hk)).mpr h)
  | .prefixed t operator known operand =>
    simp only [Tier.nesting] at hb
    have hd : bounds.Admits (depth + 1 + operand.nesting) := hb.mono (by omega)
    have h := reads_tier_zero_iff.mp (operand.reads hd hr)
    refine reads_tier_zero_iff.mpr ((reads_unary_prefixed_iff known).mpr ?_)
    exact ⟨hb.mono (by omega), operand.node, h, rfl⟩
  | .chain first more =>
    obtain ⟨hfirst, hmore⟩ := Bounds.admits_add_max_iff.mp hb
    have hf := first.reads hfirst (more.ends hr)
    have hm := more.reads first.node hmore hr
    rw [Tier.tokens, List.append_assoc]
    exact reads_tier_succ_iff.mpr ⟨first.node, more.tokens ++ rest, hf, hm⟩

theorem Chain.reads {n : Nat} (c : Chain n) (left : Node) {depth : Nat} {rest : List Token}
    (hb : bounds.Admits (depth + c.nesting)) (hr : Ends (n + 1) rest) :
    Reads (chain bounds depth n left (c.tokens ++ rest)) (c.node left) rest := by
  match c with
  | .done =>
    cases rest with
    | nil => exact reads_chain_nil_iff.mpr ⟨rfl, rfl⟩
    | cons t tokens =>
      exact (reads_chain_done_iff (hr.operator (n + 1) (Nat.le_refl _))).mpr ⟨rfl, rfl⟩
  | .next t operator known operand more =>
    obtain ⟨hoperand, hmore⟩ := Bounds.admits_add_max_iff.mp hb
    have ho := operand.reads hoperand (more.ends hr)
    have hm := more.reads (operation (n + 1) t.position operator left operand.node) hmore hr
    rw [Chain.tokens, List.cons_append, List.append_assoc]
    exact (reads_chain_next_iff known).mpr ⟨operand.node, more.tokens ++ rest, ho, hm⟩

theorem Primary.reads (p : Primary) {depth : Nat} {rest : List Token}
    (hb : bounds.Admits (depth + p.nesting)) (hr : Ends 0 rest) :
    Reads (primary bounds depth (p.tokens ++ rest)) p.node rest := by
  match p with
  | .literal t known => exact (reads_literal_iff known).mpr ⟨rfl, rfl⟩
  | .identifier t => exact (reads_identifier_iff t.2 hr.openParen).mpr ⟨hr.arrow, rfl, rfl⟩
  | .call name opening arguments closing =>
    have h := arguments.reads "')' after function arguments" rest closing (.inl rfl) (by simp) hb
    rw [Primary.tokens, List.cons_append, List.cons_append, List.append_assoc]
    exact (reads_call_iff name.2 opening.2).mpr ⟨arguments.nodes, h, rfl⟩
  | .group opening inner closing =>
    simp only [Primary.nesting] at hb
    have hd : bounds.Admits (depth + 1 + inner.nesting) := hb.mono (by omega)
    have hc : Ends 6 (closing.1 :: rest) := .of_closes (.inl closing.2)
    have h := inner.reads hd hc
    rw [Primary.tokens, List.cons_append, List.append_assoc]
    refine (reads_group_iff opening.2).mpr ⟨closing.1, closing.2, ?_⟩
    exact reads_expression_iff.mpr ⟨hb.mono (by omega), h⟩
  | .array opening items closing =>
    have h := items.reads "']'" rest closing (.inr (.inl rfl)) (by simp) hb
    rw [Primary.tokens, List.cons_append, List.append_assoc]
    exact (reads_array_iff opening.2).mpr ⟨items.nodes, h, rfl⟩

theorem Listing.reads {ofCall : Bool} (l : Listing ofCall) {depth : Nat} (what : Text)
    (rest : List Token) {kind : TokenKind} (closing : TokenOf kind) (hc : Grammar.closes kind)
    (hn : kind ≠ .comma) (hb : bounds.Admits (depth + l.nesting)) :
    Reads (list bounds depth kind what ofCall (l.tokens ++ closing.1 :: rest)) l.nodes rest := by
  match l with
  | .empty => exact (reads_list_closed_iff closing.2).mpr ⟨rfl, rfl⟩
  | .items first more =>
    obtain ⟨hfirst, hmore⟩ := Bounds.admits_add_max_iff.mp hb
    have hf := first.reads hfirst (more.closes closing rest hc)
    have hm := more.reads what rest closing hc hn hmore
    obtain ⟨t, tokens, ht, hk⟩ := first.exists_head
    rw [Listing.tokens, List.append_assoc]
    rw [ht, List.cons_append] at hf ⊢
    have hne : t.kind ≠ kind := fun he => hk (he ▸ hc)
    exact (reads_list_open_iff hne).mpr ⟨first.node, _, more.nodes, hf, hm, rfl⟩

theorem Items.reads {ofCall : Bool} (r : Items ofCall) {depth : Nat} (what : Text)
    (rest : List Token) {kind : TokenKind} (closing : TokenOf kind) (hc : Grammar.closes kind)
    (hn : kind ≠ .comma) (hb : bounds.Admits (depth + r.nesting)) :
    Reads (items bounds depth kind what ofCall (r.tokens ++ closing.1 :: rest)) r.nodes rest := by
  match r with
  | .done =>
    exact (reads_items_done_iff (by rwa [closing.2])).mpr ⟨closing.2, rfl, rfl⟩
  | .next comma item more =>
    obtain ⟨hitem, hmore⟩ := Bounds.admits_add_max_iff.mp hb
    have hf := item.reads hitem (more.closes closing rest hc)
    have hm := more.reads what rest closing hc hn hmore
    rw [Items.tokens, List.cons_append, List.append_assoc]
    exact (reads_items_next_iff comma.2).mpr ⟨item.node, _, more.nodes, hf, hm, rfl⟩

theorem Item.reads {ofCall : Bool} (i : Item ofCall) {depth : Nat} {rest : List Token}
    (hb : bounds.Admits (depth + i.nesting)) (hr : Grammar.closes (kindAt rest)) :
    Reads (item bounds depth ofCall (i.tokens ++ rest)) i.node rest := by
  match i with
  | .expression e =>
    simp only [Item.nesting] at hb
    have hd : bounds.Admits (depth + 1 + e.nesting) := hb.mono (by omega)
    have h := e.reads hd (.of_closes hr)
    refine (reads_item_expression_iff fun _ => e.not_beginsArgument (.of_closes hr)).mpr ?_
    exact reads_expression_iff.mpr ⟨hb.mono (by omega), h⟩
  | .spread dots name => exact (reads_item_spread_iff dots.2).mpr ⟨name.2, rfl, rfl⟩
  | .lambda parameter arrow body =>
    simp only [Item.nesting] at hb
    have hd : bounds.Admits (depth + 1 + 1 + body.nesting) := hb.mono (by omega)
    have h := body.reads hd (.of_closes hr)
    refine (reads_item_lambda_iff parameter.2 arrow.2).mpr ⟨hb.mono (by omega), body.node, ?_, rfl⟩
    exact reads_expression_iff.mpr ⟨hb.mono (by omega), h⟩

end

end Completeness

end Vetting.Grammar
