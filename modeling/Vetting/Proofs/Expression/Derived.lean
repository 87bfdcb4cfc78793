import Vetting.Proofs.Expression.Continuation
import Vetting.Proofs.Expression.Parsed

/-!
# Derivations of texts

A text parses within some limits exactly when its tokens are those of a phrase and the end. The
phrase does not depend on the limits.
-/

namespace Vetting

/-! ## Phrases of names and calls -/

namespace Grammar

def TokenOf.written (kind : TokenKind) (position : Nat) (t : Text) : TokenOf kind :=
  ⟨⟨kind, .text t, position, t⟩, rfl⟩

def Tier.ofName (position : Nat) (name : Text) : Phrase :=
  (Tier.primary (.identifier (.written .identifier position name))).phrase

/-- The phrase of a call without blanks before its arguments, with the position where it is closed. -/
def Tier.ofCall (position : Nat) (function : Text) (arguments : Listing true) (closed : Nat) : Phrase :=
  (Tier.primary (.call (.written .identifier position function)
    (.written .openParen (position + function.length) "(") arguments
    (.written .closeParen closed ")"))).phrase

def Listing.ofOne (argument : Phrase) : Listing true := .items (.expression argument) .done

/-- The arguments of a call that tests the elements of an array, without blanks. -/
def Listing.ofTest (position : Nat) (array parameter : Text) (body : Phrase) : Listing true :=
  let start := position + array.length + 1
  .items (.expression (.ofName position array)) (.next (.written .comma (position + array.length) ",")
    (.lambda (.written .identifier start parameter) (.written .arrow (start + parameter.length) "=>")
      body) .done)

theorem Tier.tokens_ofName (position : Nat) (name : Text) :
    (Tier.ofName position name).tokens = [⟨.identifier, .text name, position, name⟩] := rfl

theorem Tier.tokens_ofCall (position : Nat) (function : Text) (arguments : Listing true) (closed : Nat) :
    (Tier.ofCall position function arguments closed).tokens =
      ⟨.identifier, .text function, position, function⟩ ::
        ⟨.openParen, .text "(", position + function.length, "("⟩ ::
          (arguments.tokens ++ [⟨.closeParen, .text ")", closed, ")"⟩]) := by
  rw [Tier.ofCall, Tier.phrase_tokens, Tier.tokens, Primary.tokens]
  rfl

theorem Listing.tokens_ofOne (argument : Phrase) :
    (Listing.ofOne argument).tokens = argument.tokens := by
  rw [Listing.ofOne, Listing.tokens, Items.tokens, Item.tokens, List.append_nil]

theorem Listing.tokens_ofTest (position : Nat) (array parameter : Text) (body : Phrase) :
    (Listing.ofTest position array parameter body).tokens =
      ⟨.identifier, .text array, position, array⟩ ::
        ⟨.comma, .text ",", position + array.length, ","⟩ ::
          ⟨.identifier, .text parameter, position + array.length + 1, parameter⟩ ::
            ⟨.arrow, .text "=>", position + array.length + 1 + parameter.length, "=>"⟩ ::
              body.tokens := by
  rw [Listing.ofTest, Listing.tokens, Items.tokens, Items.tokens, Item.tokens, Item.tokens,
    Tier.tokens_ofName, List.append_nil]
  rfl

end Grammar

/-! ## Texts -/

namespace Expression

open Grammar

/-- Whether the tokens of a text are those of this phrase, up to the end. -/
def Derives (text : Text) (e : Phrase) : Prop :=
  ∃ ending : Token, ending.kind = .ending ∧ Lexer.tokenize text = .ok (e.tokens ++ [ending])

section Derives
variable {capacity : Nat} {limits : Limits} {length depth : Limit} {text : Text} {tree : Node}
  {e : Phrase}

theorem Derives.unique {e' : Phrase} (h : Derives text e) (h' : Derives text e') : e = e' := by
  obtain ⟨ending, _, ht⟩ := h
  obtain ⟨ending', _, ht'⟩ := h'
  have htokens := Except.ok.inj (ht.symm.trans ht')
  exact Phrase.eq_of_tokens_eq (List.append_inj_left' htokens rfl)

/-- Within limits that admit the phrase a text has its tree. -/
theorem Derives.parseText_eq_ok (h : Derives text e) (hl : Bounded limits length depth)
    (hlen : length.exceededBy text.length = false)
    (hb : Parser.Bounds.Admits ⟨depth, capacity⟩ (levels e)) :
    parseText capacity limits text = .ok e.node := by
  obtain ⟨ending, hk, ht⟩ := h
  refine (parseText_eq_ok_iff hl).mpr ⟨hlen, _, ht, ?_, e.parse_eq_ok hk hb⟩
  obtain ⟨t, tokens, he, _⟩ := e.exists_head
  rw [he]
  exact e.kind_ne_ending t (he ▸ List.mem_cons_self)

theorem exists_bounded_of_parseText (h : parseText capacity limits text = .ok tree) :
    ∃ length depth, Bounded limits length depth := by
  unfold parseText at h
  obtain ⟨length, hl, h⟩ := bind_eq_ok_iff.mp h
  split at h
  · cases h
  obtain ⟨tokens, _, h⟩ := bind_eq_ok_iff.mp h
  split at h
  · cases h
  obtain ⟨depth, hd, _⟩ := bind_eq_ok_iff.mp h
  exact ⟨length, depth, ofFault_eq_ok_iff.mp hl, ofFault_eq_ok_iff.mp hd⟩

theorem exists_derives_of_parseText (h : parseText capacity limits text = .ok tree) :
    ∃ e, Derives text e ∧ e.node = tree := by
  obtain ⟨length, depth, hl⟩ := exists_bounded_of_parseText h
  obtain ⟨_, tokens, ht, _, hp⟩ := (parseText_eq_ok_iff hl).mp h
  obtain ⟨front, ending, rfl, hk, hf⟩ := (Lexer.scans_of_scan ht).exists_ending
  obtain ⟨e, rfl, hn, _⟩ := exists_of_parse_eq_ok hf hk hp
  exact ⟨e, ⟨ending, hk, ht⟩, hn⟩

/-- Limits within which a text with this phrase parses. -/
theorem Derives.exists_limits (h : Derives text e) :
    ∃ capacity limits, parseText capacity limits text = .ok e.node := by
  have hl : Bounded ⟨.integer (levels e), .integer text.length⟩
      ⟨some text.length, _⟩ ⟨some (levels e), _⟩ := ⟨rfl, rfl⟩
  refine ⟨levels e, _, h.parseText_eq_ok hl ?_ ⟨?_, Nat.le_refl _⟩⟩
  · simp [Limit.exceededBy]
  · simp [Limit.exceededBy]

/-- A text whose tokens are those of a phrase, positions aside, has a phrase with the same tree and
the same nesting. -/
theorem exists_derives_of_sameTokens {tokens : List Token} {ending : Token}
    (ht : Lexer.tokenize text = .ok tokens) (hk : ending.kind = .ending)
    (hs : SameTokens tokens (e.tokens ++ [ending])) :
    ∃ e', Derives text e' ∧ e'.node.unplaced = e.node.unplaced ∧ e'.nesting = e.nesting := by
  obtain ⟨front, last, rfl, hfront, hlast⟩ := hs.exists_append
  obtain ⟨ending', _, rfl, hend, hnil⟩ := hlast.exists_cons
  obtain rfl := hnil.eq_nil
  obtain ⟨e', rfl, hn, hd⟩ := e.exists_of_sameTokens hfront
  exact ⟨e', ⟨ending', (Token.kind_eq_of_unplaced hend).trans hk, ht⟩, hn, hd⟩

theorem exists_derives_of_spells (h : Lexer.Spells text.points e.tokens []) :
    ∃ e', Derives text e' ∧ e'.node.unplaced = e.node.unplaced ∧ e'.nesting = e.nesting := by
  obtain ⟨placed, ht, hp⟩ := h.tokenize
  exact exists_derives_of_sameTokens ht rfl ((sameTokens_unplaced hp).append rfl)

end Derives

end Expression
end Vetting
