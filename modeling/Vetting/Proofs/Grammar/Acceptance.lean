import Vetting.Proofs.Grammar.Soundness
import Vetting.Proofs.Grammar.Unambiguity

/-!
# What the parser accepts

The parser returns a tree exactly when the tokens before the end have a derivation of that tree
which nests within the limit.
-/

namespace Vetting.Grammar

open Vetting.Parser

/-! ## No token of a derivation marks the end -/

mutual

theorem Tier.kind_ne_ending {n : Nat} (e : Tier n) : ∀ t ∈ e.tokens, t.kind ≠ .ending := by
  match e with
  | .primary p => exact p.kind_ne_ending
  | .prefixed t operator known operand =>
    refine List.forall_mem_cons.mpr ⟨fun h => ?_, operand.kind_ne_ending⟩
    simp [h, prefixOperator?] at known
  | .chain first rest =>
    exact List.forall_mem_append.mpr ⟨first.kind_ne_ending, rest.kind_ne_ending⟩

theorem Chain.kind_ne_ending {n : Nat} (c : Chain n) : ∀ t ∈ c.tokens, t.kind ≠ .ending := by
  match c with
  | .done => exact fun t ht => nomatch ht
  | .next t operator known operand rest =>
    refine List.forall_mem_cons.mpr ⟨fun h => ?_, ?_⟩
    · simp [h, operator?] at known
    · exact List.forall_mem_append.mpr ⟨operand.kind_ne_ending, rest.kind_ne_ending⟩

theorem Primary.kind_ne_ending (p : Primary) : ∀ t ∈ p.tokens, t.kind ≠ .ending := by
  match p with
  | .literal t known =>
    refine List.forall_mem_singleton.mpr fun h => ?_
    simp [h, isLiteral] at known
  | .identifier t => simp [Primary.tokens]
  | .call name opening arguments closing =>
    simp [Primary.tokens, or_imp, forall_and]
    exact arguments.kind_ne_ending
  | .group opening inner closing =>
    simp [Primary.tokens, or_imp, forall_and]
    exact inner.kind_ne_ending
  | .array opening items closing =>
    simp [Primary.tokens, or_imp, forall_and]
    exact items.kind_ne_ending

theorem Listing.kind_ne_ending {ofCall : Bool} (l : Listing ofCall) :
    ∀ t ∈ l.tokens, t.kind ≠ .ending := by
  match l with
  | .empty => exact fun t ht => nomatch ht
  | .items first rest =>
    exact List.forall_mem_append.mpr ⟨first.kind_ne_ending, rest.kind_ne_ending⟩

theorem Items.kind_ne_ending {ofCall : Bool} (r : Items ofCall) :
    ∀ t ∈ r.tokens, t.kind ≠ .ending := by
  match r with
  | .done => exact fun t ht => nomatch ht
  | .next comma item rest =>
    refine List.forall_mem_cons.mpr ⟨by simp, ?_⟩
    exact List.forall_mem_append.mpr ⟨item.kind_ne_ending, rest.kind_ne_ending⟩

theorem Item.kind_ne_ending {ofCall : Bool} (i : Item ofCall) :
    ∀ t ∈ i.tokens, t.kind ≠ .ending := by
  match i with
  | .expression e => exact e.kind_ne_ending
  | .spread dots name => simp [Item.tokens]
  | .lambda parameter arrow body =>
    exact List.forall_mem_cons.mpr ⟨by simp, List.forall_mem_cons.mpr ⟨by simp, body.kind_ne_ending⟩⟩

end

/-! ## Acceptance -/

section Acceptance
variable {bounds : Bounds} {tokens : List Token} {ending : Token} {tree : Node}

theorem parse_eq_ok_iff_reads {tokens : List Token} :
    parse bounds tokens = .ok tree ↔
      ∃ rest, Reads (expression bounds 0 tokens) tree rest ∧ kindAt rest = .ending := by
  unfold parse
  cases h : expression bounds 0 tokens with
  | error e => simp [bind, Except.bind, not_reads_error]
  | ok r =>
    obtain ⟨⟨node, rest⟩, hr⟩ := r
    simp only [bind, Except.bind, reads_ok_iff, Prod.mk.injEq]
    by_cases hk : kindAt rest = .ending
    · constructor
      · intro he
        simp only [hk, ↓reduceIte, pure, Except.pure, Except.ok.injEq] at he
        exact ⟨rest, ⟨he, rfl⟩, hk⟩
      · rintro ⟨_, ⟨rfl, rfl⟩, _⟩
        simp [hk, pure, Except.pure]
    · constructor
      · intro he
        cases rest <;> simp [hk, failUnexpected] at he
      · rintro ⟨_, ⟨rfl, rfl⟩, hk'⟩
        exact absurd hk' hk

/-- A whole phrase is read up to the end of the tokens. -/
theorem Phrase.parse_eq_ok (e : Phrase) (hk : ending.kind = .ending)
    (hb : bounds.Admits (levels e)) : parse bounds (e.tokens ++ [ending]) = .ok e.node := by
  refine parse_eq_ok_iff_reads.mpr ⟨[ending], ?_, hk⟩
  have hd : bounds.Admits (0 + 1 + e.nesting) := hb.mono (by simp only [levels]; omega)
  refine reads_expression_iff.mpr ⟨hd.mono (by omega), ?_⟩
  exact e.reads hd (.of_closes (.inr (.inr (.inr hk))))

/-- The rest of the tokens at which a phrase ends is the end itself. -/
theorem Phrase.tokens_eq_of_append (e : Phrase) {rest : List Token}
    (ht : ∀ t ∈ tokens, t.kind ≠ .ending) (hk : ending.kind = .ending)
    (h : tokens ++ [ending] = e.tokens ++ rest) (hr : kindAt rest = .ending) :
    e.tokens = tokens := by
  rcases List.append_eq_append_iff.mp h with ⟨more, he, hrest⟩ | ⟨more, hl, hrest⟩
  · cases more with
    | nil => simpa using he
    | cons t inner =>
      obtain rfl : ending = t := by simpa using (List.cons.inj hrest).1
      exact absurd hk (e.kind_ne_ending ending (by simp [he]))
  · cases more with
    | nil => simpa using hl.symm
    | cons t inner =>
      subst hrest
      exact absurd hr (ht t (by simp [hl]))

theorem exists_of_parse_eq_ok (ht : ∀ t ∈ tokens, t.kind ≠ .ending) (hk : ending.kind = .ending)
    (h : parse bounds (tokens ++ [ending]) = .ok tree) :
    ∃ e : Phrase, e.tokens = tokens ∧ e.node = tree ∧ bounds.Admits (levels e) := by
  obtain ⟨rest, hr, hrest⟩ := parse_eq_ok_iff_reads.mp h
  obtain ⟨e, he, hn, hb⟩ := exists_expression hr
  exact ⟨e, e.tokens_eq_of_append ht hk he hrest, hn, hb.mono (by simp only [levels]; omega)⟩

end Acceptance

/-- The parser accepts the token lists that have a derivation within the limit, and returns the
tree of that derivation. No token list has two derivations, and a chain of operators is within a
limit when each of its operands is. -/
theorem parse_eq_ok_iff_exists_derivation {limit capacity : Nat} (hc : limit ≤ capacity) :
    (∀ (tokens : List Token) (ending : Token) (tree : Node), (∀ t ∈ tokens, t.kind ≠ .ending) →
      ending.kind = .ending →
      (parse ⟨.ofNat limit, capacity⟩ (tokens ++ [ending]) = .ok tree ↔
        ∃ e : Phrase, e.tokens = tokens ∧ e.node = tree ∧ levels e ≤ limit)) ∧
    (∀ e e' : Phrase, e.tokens = e'.tokens → e = e') ∧
    ∀ (n depth : Nat) (first : Tier n) (rest : Chain n),
      (Tier.chain first rest).nesting ≤ depth ↔
        ∀ operand ∈ first :: rest.operands, operand.nesting ≤ depth := by
  refine ⟨?_, fun e e' h => Phrase.eq_of_tokens_eq h, ?_⟩
  · intro tokens ending tree ht hk
    constructor
    · intro h
      obtain ⟨e, he, hn, hb⟩ := exists_of_parse_eq_ok ht hk h
      refine ⟨e, he, hn, ?_⟩
      have hl := hb.limit
      simpa using hl
    · rintro ⟨e, rfl, rfl, hl⟩
      exact e.parse_eq_ok hk ⟨by simpa using hl, Nat.le_trans hl hc⟩
  · intro n depth first rest
    simp only [Tier.nesting, Nat.max_le, List.forall_mem_cons]
    rw [rest.nesting_le_iff]

theorem parse_negated_identifier_eq_ok :
    let negation : Token := ⟨.not, .text "!", 0, "!"⟩
    let name : Token := ⟨.identifier, .text "a", 1, "a"⟩
    let ending : Token := ⟨.ending, .null, 2, ""⟩
    2 ≤ 1000 ∧ (∀ t ∈ [negation, name], t.kind ≠ .ending) ∧ ending.kind = .ending ∧
      parse ⟨.ofNat 2, 1000⟩ [negation, name, ending] = .ok (.unary 0 "!" (.identifier 1 "a")) := by
  intro negation name ending
  have ht : ∀ t ∈ [negation, name], t.kind ≠ .ending := by simp [negation, name]
  let e : Tier 0 := .prefixed negation "!" rfl (.primary (.identifier ⟨name, rfl⟩))
  refine ⟨by decide, ht, rfl, ?_⟩
  exact ((parse_eq_ok_iff_exists_derivation (by decide)).1 _ ending _ ht rfl).mpr
    ⟨e.phrase, rfl, rfl, by decide⟩

end Vetting.Grammar
