import Vetting.Expression.Parser

/-!
# What the readers of the parser accept

`Reads r a rest` says that a reader returns `a` and leaves `rest`. For each reader there is one
lemma that says when it does; everything else about the parser follows from these lemmas.
-/

namespace Vetting

theorem Limit.exceededBy_mono {limit : Limit} {n m : Nat} (h : n ≤ m)
    (hm : limit.exceededBy m = false) : limit.exceededBy n = false := by
  cases hb : limit.bound with
  | none => simp [Limit.exceededBy, hb]
  | some b =>
    simp only [Limit.exceededBy, hb, decide_eq_false_iff_not] at hm ⊢
    omega

namespace Parser

/-- The result of a reader: what it has read, and the tokens that it leaves. -/
def Reads {α : Type} {P : α × List Token → Prop} (r : Except ParseFailure { r // P r }) (a : α)
    (rest : List Token) : Prop :=
  ∃ h, r = .ok ⟨(a, rest), h⟩

/-- Whether expressions may stand this deep. -/
structure Bounds.Admits (bounds : Bounds) (depth : Nat) : Prop where
  limit : bounds.limit.exceededBy depth = false
  capacity : depth ≤ bounds.capacity

theorem Bounds.Admits.mono {bounds : Bounds} {n m : Nat} (h : n ≤ m) (hm : bounds.Admits m) :
    bounds.Admits n :=
  ⟨Limit.exceededBy_mono h hm.limit, Nat.le_trans h hm.capacity⟩

theorem Bounds.admits_add_max_iff {bounds : Bounds} {depth n m : Nat} :
    bounds.Admits (depth + max n m) ↔ bounds.Admits (depth + n) ∧ bounds.Admits (depth + m) := by
  constructor
  · intro h
    exact ⟨h.mono (by omega), h.mono (by omega)⟩
  · rintro ⟨hn, hm⟩
    rcases Nat.le_total n m with h | h
    · rwa [Nat.max_eq_right h]
    · rwa [Nat.max_eq_left h]

section Results
variable {α β : Type} {P : α × List Token → Prop} {Q : β × List Token → Prop}

theorem Reads.length_lt {tokens : List Token} {r : Reading α tokens} {a : α} {rest : List Token}
    (h : Reads r a rest) : rest.length < tokens.length := h.1

theorem not_reads_nil {r : Reading α []} {a : α} {rest : List Token} : ¬ Reads r a rest := by
  intro h
  exact Nat.not_lt_zero _ h.length_lt

theorem reads_ok_iff {r : { r // P r }} {a : α} {rest : List Token} :
    Reads (.ok r) a rest ↔ r.1 = (a, rest) := by
  constructor
  · rintro ⟨h, he⟩
    injection he with he
    rw [he]
  · intro h
    obtain ⟨r, hr⟩ := r
    subst h
    exact ⟨hr, rfl⟩

theorem reads_pure_iff {r : { r // P r }} {a : α} {rest : List Token} :
    Reads (pure r) a rest ↔ r.1 = (a, rest) := reads_ok_iff

theorem not_reads_error {e : ParseFailure} {a : α} {rest : List Token} :
    ¬ Reads (.error e : Except ParseFailure { r // P r }) a rest := by
  rintro ⟨_, he⟩
  cases he

theorem reads_bind_iff {r : Except ParseFailure { r // P r }}
    {f : { r // P r } → Except ParseFailure { r // Q r }} {b : β} {rest : List Token} :
    Reads (r >>= f) b rest ↔ ∃ a inner h, r = .ok ⟨(a, inner), h⟩ ∧ Reads (f ⟨(a, inner), h⟩) b rest := by
  cases r with
  | error e => simp [bind, Except.bind, not_reads_error]
  | ok x =>
    obtain ⟨⟨a, inner⟩, h⟩ := x
    constructor
    · intro hf
      exact ⟨a, inner, h, rfl, hf⟩
    · rintro ⟨a', inner', h', he, hf⟩
      cases he
      exact hf

theorem reads_enter_iff {bounds : Bounds} {depth : Nat} {tokens : List Token}
    {f : Unit → Except ParseFailure { r // Q r }} {b : β} {rest : List Token} :
    Reads (enter bounds depth tokens >>= f) b rest ↔ bounds.Admits depth ∧ Reads (f ()) b rest := by
  unfold enter
  split
  · rename_i h
    simp [fail, bind, Except.bind, not_reads_error]
    intro ha
    simp [ha.limit] at h
  · split
    · rename_i h
      simp [bind, Except.bind, not_reads_error]
      intro ha
      exact absurd ha.capacity (by omega)
    · rename_i hl hc
      constructor
      · intro hf
        exact ⟨⟨by simpa using hl, by omega⟩, hf⟩
      · exact fun hf => hf.2

end Results

section Readers
variable {bounds : Bounds} {depth : Nat} {t : Token} {tokens rest : List Token} {node : Node}

theorem reads_expression_iff :
    Reads (expression bounds depth tokens) node rest ↔
      bounds.Admits (depth + 1) ∧ Reads (tier bounds (depth + 1) topTier tokens) node rest := by
  rw [expression]
  exact reads_enter_iff

theorem reads_tier_zero_iff :
    Reads (tier bounds depth 0 tokens) node rest ↔ Reads (unary bounds depth tokens) node rest := by
  rw [tier]

theorem reads_tier_succ_iff {n : Nat} :
    Reads (tier bounds depth (n + 1) tokens) node rest ↔
      ∃ left inner, Reads (tier bounds depth n tokens) left inner ∧
        Reads (chain bounds depth n left inner) node rest := by
  rw [tier]
  simp only [reads_bind_iff, reads_pure_iff]
  constructor
  · rintro ⟨left, inner, h, hl, node', rest', h', hc, he⟩
    cases he
    exact ⟨left, inner, ⟨h, hl⟩, ⟨h', hc⟩⟩
  · rintro ⟨left, inner, ⟨h, hl⟩, ⟨h', hc⟩⟩
    exact ⟨left, inner, h, hl, node, rest, h', hc, rfl⟩

theorem reads_chain_nil_iff {n : Nat} {left : Node} :
    Reads (chain bounds depth n left []) node rest ↔ node = left ∧ rest = [] := by
  rw [chain, reads_ok_iff, Prod.mk.injEq, eq_comm, eq_comm (a := [])]

theorem reads_chain_done_iff {n : Nat} {left : Node} (h : operator? (n + 1) t.kind = none) :
    Reads (chain bounds depth n left (t :: tokens)) node rest ↔ node = left ∧ rest = t :: tokens := by
  rw [chain]
  split
  · rw [reads_ok_iff, Prod.mk.injEq, eq_comm, eq_comm (a := t :: tokens)]
  · simp_all

theorem reads_chain_next_iff {n : Nat} {left : Node} {operator : Text}
    (h : operator? (n + 1) t.kind = some operator) :
    Reads (chain bounds depth n left (t :: tokens)) node rest ↔
      ∃ right inner, Reads (tier bounds depth n tokens) right inner ∧
        Reads (chain bounds depth n (operation (n + 1) t.position operator left right) inner)
          node rest := by
  rw [chain]
  split
  · simp_all
  · rename_i operator' h'
    obtain rfl : operator' = operator := by simp_all
    simp only [reads_bind_iff, reads_pure_iff]
    constructor
    · rintro ⟨right, inner, h, hr, node', rest', h', hc, he⟩
      cases he
      exact ⟨right, inner, ⟨h, hr⟩, ⟨h', hc⟩⟩
    · rintro ⟨right, inner, ⟨h, hr⟩, ⟨h', hc⟩⟩
      exact ⟨right, inner, h, hr, node, rest, h', hc, rfl⟩

theorem reads_unary_prefixed_iff {operator : Text} (h : prefixOperator? t.kind = some operator) :
    Reads (unary bounds depth (t :: tokens)) node rest ↔
      bounds.Admits (depth + 1) ∧ ∃ operand, Reads (unary bounds (depth + 1) tokens) operand rest ∧
        node = .unary t.position operator operand := by
  rw [unary]
  split
  · rename_i operator' h'
    obtain rfl : operator' = operator := by simp_all
    rw [reads_enter_iff]
    simp only [reads_bind_iff, reads_pure_iff]
    refine and_congr_right fun _ => ?_
    constructor
    · rintro ⟨operand, inner, h, ho, he⟩
      cases he
      exact ⟨operand, ⟨h, ho⟩, rfl⟩
    · rintro ⟨operand, ⟨h, ho⟩, rfl⟩
      exact ⟨operand, rest, h, ho, rfl⟩
  · simp_all

theorem reads_unary_primary_iff (h : prefixOperator? t.kind = none) :
    Reads (unary bounds depth (t :: tokens)) node rest ↔
      Reads (primary bounds depth (t :: tokens)) node rest := by
  rw [unary]
  split
  · simp_all
  · rfl

end Readers

section Primaries
variable {bounds : Bounds} {depth : Nat} {t : Token} {tokens rest : List Token} {node : Node}

theorem reads_literal_iff (h : isLiteral t.kind = true) :
    Reads (primary bounds depth (t :: tokens)) node rest ↔
      node = .literal t.position t.value ∧ rest = tokens := by
  rw [primary.eq_def]
  simp only [h, ↓reduceIte]
  rw [reads_ok_iff, Prod.mk.injEq, eq_comm, eq_comm (a := tokens)]

theorem reads_identifier_iff (h : t.kind = .identifier) (hl : kindAt tokens ≠ .openParen) :
    Reads (primary bounds depth (t :: tokens)) node rest ↔
      kindAt tokens ≠ .arrow ∧ node = .identifier t.position (nameOf t) ∧ rest = tokens := by
  rw [primary.eq_def]
  simp only [h, isLiteral, Bool.false_eq_true, ↓reduceIte]
  split
  · rename_i ha
    simp [fail, not_reads_error, ha]
  · rename_i ha
    cases tokens with
    | nil => simp [reads_ok_iff, eq_comm, kindAt]
    | cons u inner =>
      simp only [kindAt] at hl
      simp only [hl, ↓reduceIte, reads_ok_iff, Prod.mk.injEq, ne_eq, ha, not_false_eq_true, true_and]
      rw [eq_comm, eq_comm (a := u :: inner)]

theorem reads_call_iff {u : Token} (h : t.kind = .identifier) (hu : u.kind = .openParen) :
    Reads (primary bounds depth (t :: u :: tokens)) node rest ↔
      ∃ arguments, Reads (list bounds depth .closeParen "')' after function arguments" true tokens)
          arguments rest ∧ node = .call t.position (nameOf t) arguments := by
  rw [primary.eq_def]
  simp only [h, hu, isLiteral, kindAt, Bool.false_eq_true, reduceCtorEq, ↓reduceIte, reads_bind_iff,
    reads_pure_iff]
  constructor
  · rintro ⟨arguments, inner, hi, ha, he⟩
    cases he
    exact ⟨arguments, ⟨hi, ha⟩, rfl⟩
  · rintro ⟨arguments, ⟨hi, ha⟩, rfl⟩
    exact ⟨arguments, rest, hi, ha, rfl⟩

theorem reads_expect_iff {α : Type} {Q : α × List Token → Prop} {kind : TokenKind} {what : Text}
    {f : { r : List Token // r.length < tokens.length } → Except ParseFailure { r // Q r }} {a : α} :
    Reads (expect kind what tokens >>= f) a rest ↔
      ∃ closing inner h, closing.kind = kind ∧ tokens = closing :: inner ∧
        Reads (f ⟨inner, h⟩) a rest := by
  cases tokens with
  | nil => simp [expect, fail, bind, Except.bind, not_reads_error]
  | cons c inner =>
    by_cases hc : c.kind = kind
    · simp only [expect, hc, ↓reduceIte, bind, Except.bind, List.cons.injEq]
      constructor
      · exact fun hf => ⟨c, inner, Nat.lt_succ_self _, hc, ⟨rfl, rfl⟩, hf⟩
      · rintro ⟨_, _, _, _, ⟨rfl, rfl⟩, hf⟩
        exact hf
    · simp only [expect, hc, ↓reduceIte, fail, bind, Except.bind, not_reads_error, false_iff]
      rintro ⟨_, _, _, hk, he, _⟩
      cases he
      exact hc hk

theorem reads_group_iff (h : t.kind = .openParen) :
    Reads (primary bounds depth (t :: tokens)) node rest ↔
      ∃ closing, closing.kind = .closeParen ∧
        Reads (expression bounds depth tokens) node (closing :: rest) := by
  rw [primary.eq_def]
  simp only [h, isLiteral, Bool.false_eq_true, reduceCtorEq, ↓reduceIte, reads_bind_iff,
    reads_expect_iff, reads_pure_iff]
  constructor
  · rintro ⟨inner, _, hi, he, closing, _, _, hc, rfl, hp⟩
    cases hp
    exact ⟨closing, hc, ⟨hi, he⟩⟩
  · rintro ⟨closing, hc, hi, he⟩
    exact ⟨node, closing :: rest, hi, he, closing, rest, Nat.lt_succ_self _, hc, rfl, rfl⟩

theorem reads_array_iff (h : t.kind = .openBracket) :
    Reads (primary bounds depth (t :: tokens)) node rest ↔
      ∃ items, Reads (list bounds depth .closeBracket "']'" false tokens) items rest ∧
        node = .array t.position items := by
  rw [primary.eq_def]
  simp only [h, isLiteral, Bool.false_eq_true, reduceCtorEq, ↓reduceIte, reads_bind_iff,
    reads_pure_iff]
  constructor
  · rintro ⟨items, inner, hi, ha, he⟩
    cases he
    exact ⟨items, ⟨hi, ha⟩, rfl⟩
  · rintro ⟨items, ⟨hi, ha⟩, rfl⟩
    exact ⟨items, rest, hi, ha, rfl⟩

def beginsPrimary (kind : TokenKind) : Prop :=
  isLiteral kind = true ∨ kind = .identifier ∨ kind = .openParen ∨ kind = .openBracket

theorem beginsPrimary_of_reads (h : Reads (primary bounds depth (t :: tokens)) node rest) :
    beginsPrimary t.kind := by
  refine Classical.byContradiction fun hb => ?_
  simp only [beginsPrimary, not_or] at hb
  obtain ⟨hl, hi, hp, ha⟩ := hb
  rw [primary.eq_def] at h
  simp only [hl, hi, hp, ha, Bool.false_eq_true, ↓reduceIte] at h
  split at h <;> exact not_reads_error h

end Primaries

section Lists
variable {bounds : Bounds} {depth : Nat} {t : Token} {tokens rest : List Token} {node : Node}
variable {nodes : List Node} {closing : TokenKind} {what : Text} {ofCall : Bool}

theorem reads_list_closed_iff (h : t.kind = closing) :
    Reads (list bounds depth closing what ofCall (t :: tokens)) nodes rest ↔
      nodes = [] ∧ rest = tokens := by
  rw [list]
  simp only [h, ↓reduceIte, reads_ok_iff, Prod.mk.injEq]
  rw [eq_comm, eq_comm (a := tokens)]

theorem reads_list_open_iff (h : t.kind ≠ closing) :
    Reads (list bounds depth closing what ofCall (t :: tokens)) nodes rest ↔
      ∃ first inner others, Reads (item bounds depth ofCall (t :: tokens)) first inner ∧
        Reads (items bounds depth closing what ofCall inner) others rest ∧
          nodes = first :: others := by
  rw [list]
  simp only [h, ↓reduceIte, reads_bind_iff, reads_pure_iff]
  constructor
  · rintro ⟨first, inner, hi, hf, others, _, hr, ho, he⟩
    cases he
    exact ⟨first, inner, others, ⟨hi, hf⟩, ⟨hr, ho⟩, rfl⟩
  · rintro ⟨first, inner, others, ⟨hi, hf⟩, ⟨hr, ho⟩, rfl⟩
    exact ⟨first, inner, hi, hf, others, rest, hr, ho, rfl⟩

theorem reads_items_next_iff (h : t.kind = .comma) :
    Reads (items bounds depth closing what ofCall (t :: tokens)) nodes rest ↔
      ∃ first inner others, Reads (item bounds depth ofCall tokens) first inner ∧
        Reads (items bounds depth closing what ofCall inner) others rest ∧
          nodes = first :: others := by
  rw [items]
  simp only [h, ↓reduceIte, reads_bind_iff, reads_pure_iff]
  constructor
  · rintro ⟨first, inner, hi, hf, others, _, hr, ho, he⟩
    cases he
    exact ⟨first, inner, others, ⟨hi, hf⟩, ⟨hr, ho⟩, rfl⟩
  · rintro ⟨first, inner, others, ⟨hi, hf⟩, ⟨hr, ho⟩, rfl⟩
    exact ⟨first, inner, hi, hf, others, rest, hr, ho, rfl⟩

theorem reads_items_done_iff (h : t.kind ≠ .comma) :
    Reads (items bounds depth closing what ofCall (t :: tokens)) nodes rest ↔
      t.kind = closing ∧ nodes = [] ∧ rest = tokens := by
  rw [items]
  simp only [h, ↓reduceIte, reads_expect_iff, reads_pure_iff]
  constructor
  · rintro ⟨_, _, _, hc, he, hp⟩
    cases he
    cases hp
    exact ⟨hc, rfl, rfl⟩
  · rintro ⟨hc, rfl, rfl⟩
    exact ⟨t, rest, Nat.lt_succ_self _, hc, rfl, rfl⟩

end Lists

section Items
variable {bounds : Bounds} {depth : Nat} {t u : Token} {tokens rest : List Token} {node : Node}

/-- Whether tokens begin with an item that only calls have: a spread or a lambda. -/
def beginsArgument : List Token → Prop
  | [] => False
  | t :: rest => t.kind = .spread ∨ (t.kind = .identifier ∧ kindAt rest = .arrow)

theorem reads_item_spread_iff (h : t.kind = .spread) :
    Reads (item bounds depth true (t :: u :: tokens)) node rest ↔
      u.kind = .identifier ∧ node = .spread t.position (nameOf u) ∧ rest = tokens := by
  rw [item]
  by_cases hu : u.kind = .identifier
  · simp only [h, hu, and_self, ↓reduceIte, reads_ok_iff, Prod.mk.injEq, true_and]
    rw [eq_comm, eq_comm (a := tokens)]
  · simp [h, hu, fail, not_reads_error]

theorem reads_item_lambda_iff (h : t.kind = .identifier) (hu : u.kind = .arrow) :
    Reads (item bounds depth true (t :: u :: tokens)) node rest ↔
      bounds.Admits (depth + 1) ∧ ∃ body, Reads (expression bounds (depth + 1) tokens) body rest ∧
        node = .lambda t.position (nameOf t) body := by
  rw [item]
  simp only [h, hu, reduceCtorEq, and_false, and_self, ↓reduceIte, reads_enter_iff, reads_bind_iff,
    reads_pure_iff]
  refine and_congr_right fun _ => ?_
  constructor
  · rintro ⟨body, inner, hi, hb, he⟩
    cases he
    exact ⟨body, ⟨hi, hb⟩, rfl⟩
  · rintro ⟨body, ⟨hi, hb⟩, rfl⟩
    exact ⟨body, rest, hi, hb, rfl⟩

theorem reads_item_expression_iff {ofCall : Bool} (h : ofCall = true → ¬ beginsArgument tokens) :
    Reads (item bounds depth ofCall tokens) node rest ↔
      Reads (expression bounds depth tokens) node rest := by
  cases tokens with
  | nil => rw [item]
  | cons t inner =>
    have hs : ¬ (ofCall = true ∧ t.kind = .spread) := by
      rintro ⟨hc, hs⟩
      exact h hc (.inl hs)
    cases inner with
    | nil => rw [item, if_neg hs]
    | cons u inner =>
      have hl : ¬ (ofCall = true ∧ t.kind = .identifier ∧ u.kind = .arrow) := by
        rintro ⟨hc, hl⟩
        exact h hc (.inr hl)
      rw [item, if_neg hs]
      simp only [hl, ↓reduceIte]

theorem not_reads_item_spread (h : t.kind = .spread) :
    ¬ Reads (item bounds depth true [t]) node rest := by
  rw [item]
  simp [h, fail, not_reads_error]

end Items

end Parser
end Vetting
