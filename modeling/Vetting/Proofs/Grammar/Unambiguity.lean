import Vetting.Proofs.Grammar.Completeness

/-!
# The grammar is unambiguous

Two derivations of one class that begin the same tokens, each ending where its class ends, are the
same derivation.
-/

namespace Vetting.Grammar

open Vetting.Parser

theorem Item.ne_of_closes {ofCall : Bool} (i : Item ofCall) {t : Token} {tokens rest : List Token}
    (ht : closes t.kind) : i.tokens ++ rest ≠ t :: tokens := by
  obtain ⟨u, inner, hu, hk⟩ := i.exists_head
  rw [hu]
  intro h
  cases h
  exact hk ht

theorem Primary.tokens_ne_prefixed (p : Primary) {t : Token} {operator : Text}
    {tokens rest : List Token} (known : prefixOperator? t.kind = some operator) :
    p.tokens ++ rest ≠ t :: tokens := by
  obtain ⟨u, inner, hu, hk⟩ := p.exists_head
  rw [hu]
  intro h
  obtain ⟨rfl, _⟩ := List.cons.inj h
  rw [prefixOperator?_eq_none hk] at known
  cases known

/-- An item that is no expression begins otherwise than one. -/
theorem Item.expression_tokens_ne {e : Phrase} {i : Item true} {rest rest' : List Token}
    (hr : Ends 6 rest) (hi : beginsArgument (i.tokens ++ rest')) :
    e.tokens ++ rest ≠ i.tokens ++ rest' := by
  intro h
  exact e.not_beginsArgument hr (h ▸ hi)

mutual

theorem Tier.append_inj {n : Nat} (e e' : Tier n) {rest rest' : List Token} (hr : Ends n rest)
    (hr' : Ends n rest') (h : e.tokens ++ rest = e'.tokens ++ rest') : e = e' ∧ rest = rest' := by
  match e, e' with
  | .primary p, .primary p' =>
    obtain ⟨rfl, rfl⟩ := p.append_inj p' hr hr' h
    exact ⟨rfl, rfl⟩
  | .primary p, .prefixed t operator known operand =>
    exact absurd h (p.tokens_ne_prefixed known)
  | .prefixed t operator known operand, .primary p =>
    exact absurd h.symm (p.tokens_ne_prefixed known)
  | .prefixed t operator known operand, .prefixed t' operator' known' operand' =>
    obtain ⟨rfl, ht⟩ := List.cons.inj h
    obtain rfl : operator = operator' := Option.some.inj (known.symm.trans known')
    obtain ⟨rfl, rfl⟩ := operand.append_inj operand' hr hr' ht
    exact ⟨rfl, rfl⟩
  | .chain first more, .chain first' more' =>
    simp only [Tier.tokens, List.append_assoc] at h
    obtain ⟨rfl, hm⟩ := first.append_inj first' (more.ends hr) (more'.ends hr') h
    obtain ⟨rfl, rfl⟩ := more.append_inj more' hr hr' hm
    exact ⟨rfl, rfl⟩
termination_by structural e

theorem Chain.append_inj {n : Nat} (c c' : Chain n) {rest rest' : List Token}
    (hr : Ends (n + 1) rest) (hr' : Ends (n + 1) rest')
    (h : c.tokens ++ rest = c'.tokens ++ rest') : c = c' ∧ rest = rest' := by
  match c, c' with
  | .done, .done => exact ⟨rfl, h⟩
  | .done, .next t operator known operand more =>
    have hk := hr.operator (n + 1) (Nat.le_refl _)
    rw [show rest = _ from h] at hk
    rw [show kindAt _ = t.kind from rfl, known] at hk
    cases hk
  | .next t operator known operand more, .done =>
    have hk := hr'.operator (n + 1) (Nat.le_refl _)
    rw [show rest' = _ from h.symm] at hk
    rw [show kindAt _ = t.kind from rfl, known] at hk
    cases hk
  | .next t operator known operand more, .next t' operator' known' operand' more' =>
    obtain ⟨rfl, ht⟩ := List.cons.inj h
    obtain rfl : operator = operator' := Option.some.inj (known.symm.trans known')
    simp only [List.append_eq, List.append_assoc] at ht
    obtain ⟨rfl, hm⟩ := operand.append_inj operand' (more.ends hr) (more'.ends hr') ht
    obtain ⟨rfl, rfl⟩ := more.append_inj more' hr hr' hm
    exact ⟨rfl, rfl⟩
termination_by structural c

theorem Primary.append_inj (p p' : Primary) {rest rest' : List Token} (hr : Ends 0 rest)
    (hr' : Ends 0 rest') (h : p.tokens ++ rest = p'.tokens ++ rest') : p = p' ∧ rest = rest' := by
  cases p <;> cases p'
  case literal.literal t known t' known' =>
    cases h
    exact ⟨rfl, rfl⟩
  case identifier.identifier t t' =>
    obtain ⟨ht, rfl⟩ := List.cons.inj h
    obtain rfl := Subtype.ext ht
    exact ⟨rfl, rfl⟩
  case call.call name opening arguments closing name' opening' arguments' closing' =>
    simp only [Primary.tokens, List.cons_append, List.append_assoc, List.nil_append] at h
    obtain ⟨hn, hl⟩ := List.cons.inj h
    obtain ⟨ho, ha⟩ := List.cons.inj hl
    obtain rfl := Subtype.ext hn
    obtain rfl := Subtype.ext ho
    obtain ⟨rfl, rfl, rfl⟩ := arguments.append_inj arguments' closing closing' (.inl rfl) (by simp) ha
    exact ⟨rfl, rfl⟩
  case group.group opening inner closing opening' inner' closing' =>
    simp only [Primary.tokens, List.cons_append, List.append_assoc, List.nil_append] at h
    obtain ⟨ho, hi⟩ := List.cons.inj h
    obtain rfl := Subtype.ext ho
    have hc : Ends 6 (closing.1 :: rest) := .of_closes (.inl closing.2)
    have hc' : Ends 6 (closing'.1 :: rest') := .of_closes (.inl closing'.2)
    obtain ⟨rfl, ht⟩ := inner.append_inj inner' hc hc' hi
    obtain ⟨hl, rfl⟩ := List.cons.inj ht
    obtain rfl := Subtype.ext hl
    exact ⟨rfl, rfl⟩
  case array.array opening items closing opening' items' closing' =>
    simp only [Primary.tokens, List.cons_append, List.append_assoc, List.nil_append] at h
    obtain ⟨ho, hi⟩ := List.cons.inj h
    obtain rfl := Subtype.ext ho
    obtain ⟨rfl, rfl, rfl⟩ := items.append_inj items' closing closing' (.inr (.inl rfl)) (by simp) hi
    exact ⟨rfl, rfl⟩
  case identifier.call t name opening arguments closing =>
    obtain ⟨_, rfl⟩ := List.cons.inj h
    exact absurd opening.2 hr.openParen
  case call.identifier name opening arguments closing t =>
    obtain ⟨_, rfl⟩ := List.cons.inj h
    exact absurd opening.2 hr'.openParen
  -- the other pairs differ in the kind of their first token
  all_goals
    have hk := congrArg Token.kind (List.cons.inj h).1
    grind [isLiteral, TokenOf.kind_eq]
termination_by structural p

theorem Listing.append_inj {ofCall : Bool} (l l' : Listing ofCall) {kind : TokenKind}
    (closing closing' : TokenOf kind) (hc : closes kind) (hn : kind ≠ .comma)
    {rest rest' : List Token}
    (h : l.tokens ++ closing.1 :: rest = l'.tokens ++ closing'.1 :: rest') :
    l = l' ∧ closing = closing' ∧ rest = rest' := by
  match l, l' with
  | .empty, .empty =>
    obtain ⟨ht, rfl⟩ := List.cons.inj h
    exact ⟨rfl, Subtype.ext ht, rfl⟩
  | .empty, .items first more =>
    simp only [Listing.tokens, List.append_assoc, List.nil_append] at h
    exact absurd h.symm (first.ne_of_closes (by rwa [closing.2]))
  | .items first more, .empty =>
    simp only [Listing.tokens, List.append_assoc, List.nil_append] at h
    exact absurd h (first.ne_of_closes (by rwa [closing'.2]))
  | .items first more, .items first' more' =>
    simp only [Listing.tokens, List.append_assoc] at h
    obtain ⟨rfl, hm⟩ := first.append_inj first' (more.closes closing rest hc)
      (more'.closes closing' rest' hc) h
    obtain ⟨rfl, hr⟩ := more.append_inj more' closing closing' hc hn hm
    exact ⟨rfl, hr⟩
termination_by structural l

theorem Items.append_inj {ofCall : Bool} (r r' : Items ofCall) {kind : TokenKind}
    (closing closing' : TokenOf kind) (hc : closes kind) (hn : kind ≠ .comma)
    {rest rest' : List Token}
    (h : r.tokens ++ closing.1 :: rest = r'.tokens ++ closing'.1 :: rest') :
    r = r' ∧ closing = closing' ∧ rest = rest' := by
  match r, r' with
  | .done, .done =>
    obtain ⟨ht, rfl⟩ := List.cons.inj h
    exact ⟨rfl, Subtype.ext ht, rfl⟩
  | .done, .next comma item more =>
    obtain ⟨ht, _⟩ := List.cons.inj h
    exact absurd (closing.2.symm.trans ((congrArg Token.kind ht).trans comma.2)) hn
  | .next comma item more, .done =>
    obtain ⟨ht, _⟩ := List.cons.inj h
    exact absurd (closing'.2.symm.trans ((congrArg Token.kind ht.symm).trans comma.2)) hn
  | .next comma item more, .next comma' item' more' =>
    obtain ⟨ht, hi⟩ := List.cons.inj h
    obtain rfl := Subtype.ext ht
    simp only [List.append_eq, List.append_assoc] at hi
    obtain ⟨rfl, hm⟩ := item.append_inj item' (more.closes closing rest hc)
      (more'.closes closing' rest' hc) hi
    obtain ⟨rfl, hr⟩ := more.append_inj more' closing closing' hc hn hm
    exact ⟨rfl, hr⟩
termination_by structural r

theorem Item.append_inj {ofCall : Bool} (i i' : Item ofCall) {rest rest' : List Token}
    (hr : closes (kindAt rest)) (hr' : closes (kindAt rest'))
    (h : i.tokens ++ rest = i'.tokens ++ rest') : i = i' ∧ rest = rest' := by
  match i, i' with
  | .expression e, .expression e' =>
    obtain ⟨rfl, rfl⟩ := e.append_inj e' (.of_closes hr) (.of_closes hr') h
    exact ⟨rfl, rfl⟩
  | .spread dots name, .spread dots' name' =>
    obtain ⟨hd, hl⟩ := List.cons.inj h
    obtain ⟨hn, rfl⟩ := List.cons.inj hl
    obtain rfl := Subtype.ext hd
    obtain rfl := Subtype.ext hn
    exact ⟨rfl, rfl⟩
  | .lambda parameter arrow body, .lambda parameter' arrow' body' =>
    obtain ⟨hp, hl⟩ := List.cons.inj h
    obtain ⟨ha, hb⟩ := List.cons.inj hl
    obtain rfl := Subtype.ext hp
    obtain rfl := Subtype.ext ha
    obtain ⟨rfl, rfl⟩ := body.append_inj body' (.of_closes hr) (.of_closes hr') hb
    exact ⟨rfl, rfl⟩
  | .expression e, .spread dots name =>
    exact absurd h (Item.expression_tokens_ne (.of_closes hr) (.inl dots.2))
  | .expression e, .lambda parameter arrow body =>
    exact absurd h (Item.expression_tokens_ne (.of_closes hr) (.inr ⟨parameter.2, arrow.2⟩))
  | .spread dots name, .expression e =>
    exact absurd h.symm (Item.expression_tokens_ne (.of_closes hr') (.inl dots.2))
  | .lambda parameter arrow body, .expression e =>
    exact absurd h.symm (Item.expression_tokens_ne (.of_closes hr') (.inr ⟨parameter.2, arrow.2⟩))
  | .spread dots name, .lambda parameter arrow body =>
    obtain ⟨ht, _⟩ := List.cons.inj h
    exact absurd (dots.2.symm.trans ((congrArg Token.kind ht).trans parameter.2)) (by simp)
  | .lambda parameter arrow body, .spread dots name =>
    obtain ⟨ht, _⟩ := List.cons.inj h
    exact absurd (dots.2.symm.trans ((congrArg Token.kind ht.symm).trans parameter.2)) (by simp)
termination_by structural i

end

/-- A token list has at most one derivation. -/
theorem Phrase.eq_of_tokens_eq {e e' : Phrase} (h : e.tokens = e'.tokens) : e = e' := by
  have hr : Ends 6 [] := .of_closes (.inr (.inr (.inr rfl)))
  exact (e.append_inj e' hr hr (by rw [h])).1

end Vetting.Grammar
