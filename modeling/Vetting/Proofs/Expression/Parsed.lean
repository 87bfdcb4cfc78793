import Vetting.Expression.Cache
import Vetting.Proofs.Evaluation.Fault
import Vetting.Proofs.Grammar.Acceptance

/-!
# Parsed trees

Every tree of the parser has the operators of the grammar, and the cache hands out nothing but trees
that the parser has made of the same text within the same limits.
-/

namespace Vetting

namespace Grammar

open Vetting.Parser

theorem operation_regular {n position : Nat} {kind : TokenKind} {operator : Text} {left right : Node}
    (h : operator? n kind = some operator) (hl : left.Regular) (hr : right.Regular) :
    (operation n position operator left right).Regular := by
  unfold operation
  split
  · exact .logical hl hr
  · rename_i hn
    refine .binary ?_ hl hr
    unfold operator? at h
    split at h <;> cases h <;>
      first
      | exact absurd (.inl rfl) hn
      | exact absurd (.inr rfl) hn
      | exact .inr (by decide)
      | exact .inl (by decide)

mutual

theorem Tier.node_regular {n : Nat} (e : Tier n) : e.node.Regular := by
  match e with
  | .primary p => exact p.node_regular
  | .prefixed t operator known operand => exact .unary operand.node_regular
  | .chain first rest => exact rest.node_regular first.node_regular

theorem Chain.node_regular {n : Nat} (c : Chain n) {left : Node} (h : left.Regular) :
    (c.node left).Regular := by
  match c with
  | .done => exact h
  | .next t operator known operand rest =>
    exact rest.node_regular (operation_regular known h operand.node_regular)

theorem Primary.node_regular (p : Primary) : p.node.Regular := by
  match p with
  | .literal t known => exact .literal
  | .identifier t => exact .identifier
  | .call name opening arguments closing => exact .call arguments.nodes_regular
  | .group opening inner closing => exact inner.node_regular
  | .array opening items closing => exact .array items.nodes_regular

theorem Listing.nodes_regular {ofCall : Bool} (l : Listing ofCall) :
    ∀ node ∈ l.nodes, node.Regular := by
  match l with
  | .empty => exact fun node h => nomatch h
  | .items first rest => exact List.forall_mem_cons.mpr ⟨first.node_regular, rest.nodes_regular⟩

theorem Items.nodes_regular {ofCall : Bool} (r : Items ofCall) :
    ∀ node ∈ r.nodes, node.Regular := by
  match r with
  | .done => exact fun node h => nomatch h
  | .next comma item rest => exact List.forall_mem_cons.mpr ⟨item.node_regular, rest.nodes_regular⟩

theorem Item.node_regular {ofCall : Bool} (i : Item ofCall) : i.node.Regular := by
  match i with
  | .expression e => exact e.node_regular
  | .spread dots name => exact .spread
  | .lambda parameter arrow body => exact .lambda body.node_regular

end

theorem regular_of_parse_eq_ok {bounds : Bounds} {tokens : List Token} {tree : Node}
    (h : parse bounds tokens = .ok tree) : tree.Regular := by
  obtain ⟨rest, hr, _⟩ := parse_eq_ok_iff_reads.mp h
  obtain ⟨e, _, rfl, _⟩ := exists_expression hr
  exact e.node_regular

end Grammar

namespace Expression

/-- Limits that a text can be held against. -/
structure Bounded (limits : Limits) (length depth : Limit) : Prop where
  length : Limit.ofValue limits.length = .ok length
  depth : Limit.ofValue limits.depth = .ok depth

section ParseText
variable {capacity : Nat} {limits : Limits} {length depth : Limit} {text : Text} {tree : Node}

/-- A text has a tree when it is not too long, its tokens begin an expression, and the parser
returns the tree. -/
theorem parseText_eq_ok_iff (hl : Bounded limits length depth) :
    parseText capacity limits text = .ok tree ↔
      length.exceededBy text.length = false ∧ ∃ tokens, Lexer.tokenize text = .ok tokens ∧
        Parser.kindAt tokens ≠ .ending ∧ Parser.parse ⟨depth, capacity⟩ tokens = .ok tree := by
  unfold parseText
  rw [hl.length, hl.depth]
  simp only [ofFault, bind, Except.bind]
  cases length.exceededBy text.length with
  | true => simp [throw, throwThe, MonadExceptOf.throw]
  | false =>
    simp only [Bool.false_eq_true, ↓reduceIte, true_and]
    cases ht : Lexer.tokenize text with
    | error e => simp [Except.mapError]
    | ok tokens =>
      simp only [Except.mapError, Except.ok.injEq, exists_eq_left']
      by_cases hk : Parser.kindAt tokens = .ending
      · simp [hk, throw, throwThe, MonadExceptOf.throw]
      · simp only [hk, ↓reduceIte, ne_eq, not_false_eq_true, true_and]
        cases Parser.parse ⟨depth, capacity⟩ tokens <;> simp

theorem parseText_of_exceeded (hl : Bounded limits length depth)
    (h : length.exceededBy text.length = true) : parseText capacity limits text =
      .error (parseError text ⟨.tooLong length.label, none⟩) := by
  unfold parseText
  rw [hl.length]
  simp only [ofFault, bind, Except.bind, h, ↓reduceIte]
  rfl

theorem parseText_of_tokenize_error {failure : ParseFailure} (hl : Bounded limits length depth)
    (h : length.exceededBy text.length = false) (ht : Lexer.tokenize text = .error failure) :
    parseText capacity limits text = .error (parseError text failure) := by
  unfold parseText
  rw [hl.length, ht]
  simp only [ofFault, bind, Except.bind, h, Bool.false_eq_true, ↓reduceIte]
  rfl

theorem parseText_of_tokenize_ok {t : Token} {rest : List Token}
    (hl : Bounded limits length depth) (h : length.exceededBy text.length = false)
    (ht : Lexer.tokenize text = .ok (t :: rest)) : parseText capacity limits text =
      (if Parser.kindAt (t :: rest) = .ending then .error ⟨.atEnd .empty, some t.position⟩
      else Parser.parse ⟨depth, capacity⟩ (t :: rest)).mapError (parseError text) := by
  unfold parseText
  rw [hl.length, hl.depth, ht]
  simp only [ofFault, bind, Except.bind, h, Bool.false_eq_true, ↓reduceIte, Except.mapError]
  by_cases hk : Parser.kindAt (t :: rest) = .ending
  · rw [if_pos hk, if_pos hk]
    rfl
  · rw [if_neg hk, if_neg hk]

theorem regular_of_parseText_eq_ok (hl : Bounded limits length depth)
    (h : parseText capacity limits text = .ok tree) : tree.Regular := by
  obtain ⟨_, tokens, _, _, hp⟩ := (parseText_eq_ok_iff hl).mp h
  exact Grammar.regular_of_parse_eq_ok hp

/-- Why a text has no tree: a limit is no number, or a step of the parsing fails. -/
inductive HasNoTree (capacity : Nat) (limits : Limits) (text : Text) : Failure → Prop
  | length {f : Fault} (h : Limit.ofValue limits.length = .error f) :
      HasNoTree capacity limits text (.fault f)
  | tooLong (label : Text) :
      HasNoTree capacity limits text (parseError text ⟨.tooLong label, none⟩)
  | lexer {failure : ParseFailure} (h : Lexer.tokenize text = .error failure) :
      HasNoTree capacity limits text (parseError text failure)
  | empty {tokens : List Token} (h : Lexer.tokenize text = .ok tokens) :
      HasNoTree capacity limits text
        (parseError text ⟨.atEnd .empty, some (Parser.positionAt tokens)⟩)
  | depth {f : Fault} (h : Limit.ofValue limits.depth = .error f) :
      HasNoTree capacity limits text (.fault f)
  | parser {tokens : List Token} {depth : Limit} {failure : ParseFailure}
      (ht : Lexer.tokenize text = .ok tokens)
      (h : Parser.parse ⟨depth, capacity⟩ tokens = .error failure) :
      HasNoTree capacity limits text (parseError text failure)

theorem hasNoTree_of_parseText {e : Failure} (h : parseText capacity limits text = .error e) :
    HasNoTree capacity limits text e := by
  unfold parseText at h
  rcases bind_eq_error_iff.mp h with h | ⟨length, _, h⟩
  · obtain ⟨f, hf, rfl⟩ := ofFault_eq_error_iff.mp h
    exact .length hf
  split at h
  · cases h
    exact .tooLong _
  rcases bind_eq_error_iff.mp h with h | ⟨tokens, ht, h⟩
  · obtain ⟨failure, ht, rfl⟩ := mapError_eq_error_iff.mp h
    exact .lexer ht
  have ht : Lexer.tokenize text = .ok tokens := mapError_eq_ok_iff.mp ht
  split at h
  · cases h
    exact .empty ht
  rcases bind_eq_error_iff.mp h with h | ⟨depth, _, h⟩
  · obtain ⟨f, hf, rfl⟩ := ofFault_eq_error_iff.mp h
    exact .depth hf
  obtain ⟨failure, hp, rfl⟩ := mapError_eq_error_iff.mp h
  exact .parser ht hp

/-- Within limits that are numbers, a text that has no tree is an error of the expression. -/
theorem exists_of_parseText_eq_error {e : Failure} (hl : Bounded limits length depth)
    (h : parseText capacity limits text = .error e) : ∃ x, e = .engine (.expression x) := by
  cases hasNoTree_of_parseText h with
  | length hf => cases hl.length.symm.trans hf
  | depth hf => cases hl.depth.symm.trans hf
  | tooLong | lexer | empty | parser => exact ⟨_, rfl⟩

end ParseText

end Expression

/-! ## The cache -/

namespace ParseCache

/-- Whether every entry is what the parser makes of its text. -/
def Sound (capacity : Nat) (cache : ParseCache) : Prop :=
  ∀ e ∈ cache.entries,
    Expression.parseText capacity ⟨.integer e.depth, .integer e.length⟩ e.text = .ok e.tree

theorem sound_empty (capacity : Nat) : empty.Sound capacity := fun _ h => nomatch h

theorem Sound.insert {capacity : Nat} {cache : ParseCache} {e : ParsedText} (h : cache.Sound capacity)
    (he : Expression.parseText capacity ⟨.integer e.depth, .integer e.length⟩ e.text = .ok e.tree) :
    (cache.insert e).Sound capacity := by
  intro old hold
  rcases List.mem_cons.mp (List.mem_of_mem_take hold) with rfl | hold
  · exact he
  · exact h old (List.mem_filter.mp hold).1

theorem parseInteger_sound {capacity : Nat} {cache : ParseCache} (h : cache.Sound capacity)
    (text : Text) (depth length : Int) :
    (cache.parseInteger capacity text depth length).1 =
        Expression.parseText capacity ⟨.integer depth, .integer length⟩ text ∧
      (cache.parseInteger capacity text depth length).2.Sound capacity := by
  unfold parseInteger
  split
  · rename_i e he
    have hmem := List.mem_of_find?_eq_some he
    have hfor := List.find?_some he
    simp only [ParsedText.isFor, Bool.and_eq_true, decide_eq_true_eq] at hfor
    obtain ⟨⟨rfl, rfl⟩, rfl⟩ := hfor
    exact ⟨(h e hmem).symm, h.insert (h e hmem)⟩
  · cases hp : Expression.parseText capacity ⟨.integer depth, .integer length⟩ text with
    | ok tree => exact ⟨rfl, h.insert hp⟩
    | error e => exact ⟨rfl, h⟩

/-- A cache that is sound parses as the parser does, and stays sound. -/
theorem parse_sound {capacity : Nat} {cache : ParseCache} {limits : Limits} {length depth : Limit}
    (h : cache.Sound capacity) (hl : Expression.Bounded limits length depth) (text : Text) :
    (cache.parse capacity limits text).1 = Expression.parseText capacity limits text ∧
      (cache.parse capacity limits text).2.Sound capacity := by
  have key {v : Value} {limit : Limit} (hv : Limit.ofValue v = .ok limit) : v.checkKey = .ok () := by
    cases v with
    | boolean b => rfl
    | number n => rfl
    | _ => cases hv
  unfold parse
  split
  · exact parseInteger_sound h text _ _
  · rw [key hl.depth, key hl.length]
    exact ⟨rfl, h⟩

/-- Whatever the limits are, a sound cache parses as the parser does, or the limits cannot be keys. -/
theorem parse_eq_parseText_or_fault {capacity : Nat} {cache : ParseCache} (h : cache.Sound capacity)
    (limits : Limits) (text : Text) :
    (cache.parse capacity limits text).1 = Expression.parseText capacity limits text ∨
      ∃ f, (cache.parse capacity limits text).1 = .error (.fault f) := by
  unfold parse
  split
  · exact .inl (parseInteger_sound h text _ _).1
  · split
    · exact .inl rfl
    · exact .inr ⟨_, rfl⟩
    · exact .inr ⟨_, rfl⟩

end ParseCache
end Vetting
