import Vetting.Proofs.Expression.Literal
import Vetting.Proofs.Grammar.Substitution
import Vetting.Proofs.Template.Marking

/-!
# The shape of an equation

Filling the placeholders of an expression with literals changes its tree in their places alone: the
tokens of the filled text are those of the expression with the tokens of a literal in the place of
each placeholder, and these are the tokens of a substituted derivation.
-/

namespace Vetting.Template

open CodePoint Lexer Grammar Expression

/-! ## The tokens of a filled expression -/

/-- Whether texts stand for the identifiers of these names, and for no others: the text of an
identifier spells the tokens of its derivation in front of a space. -/
structure Represents (names : List Text) (textOf : Text → Text)
    (operands : Text → Option (Tier 0)) : Prop where
  chosen : ∀ x ∈ names, ∃ e, operands x = some e ∧
    ∀ rest, Delimited rest → Spells (textOf x).points e.tokens rest
  other : ∀ x ∉ names, operands x = none

section Filled
variable {names : List Text} {textOf : Text → Text} {operands : Text → Option (Tier 0)}

theorem Represents.replaced_eq (hn : Represents names textOf operands) {t : Token}
    (ht : isChosen names t = false) : replaced operands t = [t] := by
  by_cases hk : t.kind = .identifier
  · refine replaced_of_none (hn.other _ fun hx => ?_)
    rw [isChosen, hk, List.contains_iff_mem.mpr hx] at ht
    cases ht
  · exact replaced_of_ne hk

theorem Represents.exists_replaced (hn : Represents names textOf operands) {t : Token}
    (ht : isChosen names t = true) :
    ∃ e : Tier 0, replaced operands t = e.tokens ∧
      ∀ rest, Delimited rest → Spells (textOf (Parser.nameOf t)).points e.tokens rest := by
  rw [isChosen, Bool.and_eq_true, decide_eq_true_eq] at ht
  obtain ⟨hk, hmem⟩ := ht
  obtain ⟨e, he, hspells⟩ := hn.chosen _ (List.contains_iff_mem.mp hmem)
  refine ⟨e, ?_, hspells⟩
  rw [replaced, if_pos hk, he]
  rfl

theorem points_render_placeholder (textOf : Text → Text) (x : Text) (filled : List CodePoint) :
    (render (fun x => spaced (textOf x)) [.placeholder x]).points ++ filled =
      32 :: ((textOf x).points ++ 32 :: filled) := by
  rw [render, render, Text.append_empty, points_spaced, List.cons_append, List.append_assoc]
  rfl

theorem startsWithFraction_append {c : CodePoint} {rest : List CodePoint} {position : Nat}
    {r : Reading} (hr : read c rest position = .ok r) (rest' : List CodePoint) :
    startsWithFraction (c :: (rest.take r.extra ++ rest')) = startsWithFraction (c :: rest) := by
  by_cases hc : c = 46
  · subst hc
    have hpos := extra_pos_of_point hr
    have hle := extra_le hr
    cases rest with
    | nil => exact absurd hle (Nat.not_le.mpr hpos)
    | cons d rest =>
      obtain ⟨n, hn⟩ := Nat.exists_eq_add_of_lt hpos
      rw [hn, Nat.zero_add, List.take_succ_cons]
      rfl
  · unfold startsWithFraction
    split
    · rename_i heq
      exact absurd (List.cons.inj heq).1 hc
    · split
      · rename_i heq
        exact absurd (List.cons.inj heq).1 hc
      · rfl

theorem startsWithFraction_blank {c : CodePoint} (h : isBlank c = true) (rest : List CodePoint) :
    startsWithFraction (c :: rest) = false := by
  unfold startsWithFraction
  split
  · rename_i heq
    rw [(List.cons.inj heq).1] at h
    exact absurd h (by decide)
  · rfl

/-- The filled text has the tokens of the expression, with those of the derivations in the places of
the identifiers. Where the next token begins, the text resembles the expression. -/
theorem Represents.scan_filled (hn : Represents names textOf operands) {position : Nat}
    {points : List CodePoint} {tokens : List Token} (h : Scans position points tokens) :
    let filled := (render (fun x => spaced (textOf x)) (mark names position points tokens)).points
    Resembles filled points ∧ ∀ start, ∃ filledTokens, scan start filled = .ok filledTokens ∧
      SameTokens filledTokens (tokens.flatMap (replaced operands)) := by
  -- literals are longer than names, so the filled text starts anywhere
  induction h with
  | @done position =>
    rw [mark_ending]
    refine ⟨.inl delimited_nil, fun start => ⟨_, scan_nil start, ?_⟩⟩
    rw [List.flatMap_singleton, replaced_of_ne (t := ⟨.ending, .null, position, ""⟩) nofun]
    rfl
  | @blank position c rest tokens hb h ih =>
    obtain ⟨_, ih⟩ := ih
    rw [mark_blank h, render, Text.points_append]
    refine ⟨.inr ⟨rfl, ?_⟩, fun start => ?_⟩
    · exact (startsWithFraction_blank hb _).trans (startsWithFraction_blank hb rest).symm
    · obtain ⟨filledTokens, hscan, hs⟩ := ih (start + 1)
      exact ⟨filledTokens, (scan_blank hb start _).trans hscan, hs⟩
  | @token position c rest tokens r hb hr h ih =>
    obtain ⟨hresembles, ih⟩ := ih
    rw [mark_token (extra_le hr), render_append, Text.points_append]
    generalize (render (fun x => spaced (textOf x)) (mark names (position + r.extra + 1)
      (rest.drop r.extra) tokens)).points = filled at hresembles ih
    rw [List.flatMap_cons]
    split
    · rename_i hc
      obtain ⟨e, he, hspells⟩ := hn.exists_replaced hc
      rw [he, points_render_placeholder]
      refine ⟨.inl (delimited_cons (.inl rfl) _), fun start => ?_⟩
      obtain ⟨filledTokens, hscan, hs⟩ :=
        ih (start + 1 + (textOf (Parser.nameOf ⟨r.kind, r.value, position,
          ⟨c :: rest.take r.extra⟩⟩)).points.length + 1)
      obtain ⟨placed, hplaced, hp⟩ := hspells (32 :: filled) (delimited_cons (.inl rfl) _) (start + 1) _
        ((scan_blank rfl _ _).trans hscan)
      exact ⟨placed ++ filledTokens, (scan_blank rfl _ _).trans hplaced,
        (sameTokens_unplaced hp).append hs⟩
    · rename_i hc
      rw [hn.replaced_eq (Bool.eq_false_iff.mpr hc), points_render_map_point, List.cons_append]
      refine ⟨.inr ⟨rfl, startsWithFraction_append hr filled⟩, fun start => ?_⟩
      obtain ⟨hle, hread⟩ := Resembles.token hr hresembles start
      have hlen : (rest.take r.extra).length = r.extra := List.length_take_of_le hle
      obtain ⟨filledTokens, hscan, hs⟩ := ih (start + (rest.take r.extra).length + 1)
      have hread : read c (rest.take r.extra ++ filled) start =
          .ok ⟨r.kind, r.value, (rest.take r.extra).length⟩ := by rw [hread, hlen]
      refine ⟨_, scan_token hb hread hscan, ?_⟩
      exact congrArg (List.cons _) hs

end Filled

/-! ## Literals in the places of identifiers -/

/-- The value of a name, which is null if there is none. -/
def valueAt (environment : Fields) (x : Text) : Value := (environment.field? x).getD .null

def literalAt (environment : Fields) (x : Text) : Text :=
  (valueAt environment x).literal.toOption.getD Text.empty

/-- The derivations of the literals in the places of these names. -/
def operandAt (names : List Text) (environment : Fields) (x : Text) : Option (Tier 0) :=
  if x ∈ names then some (valueAt environment x).derivation else none

/-- Whether a tree is the one that the literal of a value has within some limits. -/
def IsLiteralTree (v : Value) (tree : Node) : Prop :=
  ∃ text capacity limits, v.literal = .ok text ∧ parseText capacity limits text = .ok tree

theorem exists_isLiteralTree {v : Value} (h : v.Encodable) : ∃ tree, IsLiteralTree v tree := by
  obtain ⟨text, e, ht, he, _⟩ := exists_derives_of_literal h
  obtain ⟨capacity, limits, hp⟩ := he.exists_limits
  exact ⟨e.node, text, capacity, limits, ht, hp⟩

theorem IsLiteralTree.unplaced_eq {v : Value} {tree : Node} (h : IsLiteralTree v tree)
    (hv : v.Encodable) : tree.unplaced = v.derivation.node.unplaced := by
  obtain ⟨text, capacity, limits, ht, hp⟩ := h
  obtain ⟨text', e, ht', he, hn, _⟩ := exists_derives_of_literal hv
  obtain rfl : text = text' := Except.ok.inj (ht.symm.trans ht')
  obtain ⟨e', he', rfl⟩ := exists_derives_of_parseText hp
  rw [he'.unique he, hn]

/-- Trees of the literals of these names' values, in the places of these names alone. -/
structure LiteralTrees (names : List Text) (environment : Fields) (trees : Text → Option Node) :
    Prop where
  chosen : ∀ x ∈ names, ∃ v tree, environment.field? x = some v ∧ IsLiteralTree v tree ∧
    trees x = some tree
  other : ∀ x ∉ names, trees x = none

section Literals
variable {names : List Text} {environment : Fields}
variable (hvalues : ∀ x ∈ names, ∃ v, environment.field? x = some v ∧ v.Encodable)
include hvalues

theorem exists_literalAt {x : Text} (hx : x ∈ names) :
    environment.field? x = some (valueAt environment x) ∧ (valueAt environment x).Encodable ∧
      (valueAt environment x).literal = .ok (literalAt environment x) := by
  obtain ⟨v, hv, hencodable⟩ := hvalues x hx
  obtain ⟨text, ht, _⟩ := v.exists_literal hencodable
  rw [literalAt, valueAt, hv, Option.getD_some, ht]
  exact ⟨rfl, hencodable, rfl⟩

theorem substitute_eq_literalAt {x : Text} (hx : x ∈ names) :
    substitute environment x = .ok (literalAt environment x) := by
  obtain ⟨hv, _, hl⟩ := exists_literalAt hvalues hx
  rw [substitute, hv]
  dsimp only
  rw [literalFor, hl]

theorem represents_literals : Represents names (literalAt environment) (operandAt names environment) where
  chosen x hx := by
    obtain ⟨_, hencodable, hl⟩ := exists_literalAt hvalues hx
    obtain ⟨text, ht, hs⟩ := (valueAt environment x).exists_literal hencodable
    obtain rfl : text = literalAt environment x := Except.ok.inj (ht.symm.trans hl)
    exact ⟨_, if_pos hx, hs⟩
  other x hx := if_neg hx

theorem exists_literalTrees : ∃ trees, LiteralTrees names environment trees := by
  have hex (x : Text) : ∃ tree : Option Node,
      (x ∈ names → ∃ v node, environment.field? x = some v ∧ IsLiteralTree v node ∧ tree = some node) ∧
      (x ∉ names → tree = none) := by
    by_cases hx : x ∈ names
    · obtain ⟨v, hv, hencodable⟩ := hvalues x hx
      obtain ⟨node, hnode⟩ := exists_isLiteralTree hencodable
      exact ⟨some node, fun _ => ⟨v, node, hv, hnode, rfl⟩, absurd hx⟩
    · exact ⟨none, fun h => absurd h hx, fun _ => rfl⟩
  choose trees hchosen hother using hex
  exact ⟨trees, hchosen, hother⟩

/-- The trees of the literals are those of their derivations. -/
theorem LiteralTrees.treesOf {trees : Text → Option Node} (h : LiteralTrees names environment trees) :
    TreesOf (operandAt names environment) trees := by
  intro x
  by_cases hx : x ∈ names
  · obtain ⟨v, node, hv, hnode, htree⟩ := h.chosen x hx
    obtain ⟨hat, hencodable, _⟩ := exists_literalAt hvalues hx
    obtain rfl : v = valueAt environment x := Option.some.inj (hv.symm.trans hat)
    rw [htree, operandAt, if_pos hx, Option.map_some, Option.map_some, hnode.unplaced_eq hencodable]
  · rw [h.other x hx, operandAt, if_neg hx]
    rfl

end Literals

/-! ## The tree of an equation -/

/-- Filling the placeholders of an expression with literals keeps its shape: the equation has the
tree of the expression with the trees of the literals in the places of the identifiers, positions
aside, and parses within all limits that admit its length and its nesting. -/
theorem equation_parses_as_substituted {capacity : Nat} {limits : Limits} {expression : Text}
    {tree : Node} {names : List Text} {environment : Fields}
    (hparse : parseText capacity limits expression = .ok tree)
    (hopen : ¬ [openingBrace, openingBrace] <:+: expression.points)
    (hnames : ∀ x ∈ names, (∀ c ∈ x.points, isNamePoint c = true) ∧ x ∉ tree.heads)
    (hvalues : ∀ x ∈ names, ∃ v, environment.field? x = some v ∧ v.Encodable) :
    ∃ (text : Text) (e : Phrase),
      equation (withPlaceholders names expression) environment = .ok text ∧ Derives text e ∧
      (∃ trees, LiteralTrees names environment trees) ∧
      (∀ trees, LiteralTrees names environment trees →
        e.node.unplaced = (tree.substitute trees).unplaced) ∧
      ∀ (capacity : Nat) (limits : Limits) (length depth : Limit), Bounded limits length depth →
        length.exceededBy text.length = false → Parser.Bounds.Admits ⟨depth, capacity⟩ (levels e) →
        parseText capacity limits text = .ok e.node := by
  obtain ⟨original, ⟨ending, hk, ht⟩, rfl⟩ := exists_derives_of_parseText hparse
  have hequation : equation (withPlaceholders names expression) environment = .ok _ :=
    equation_withPlaceholders ht hopen (fun x hx => (hnames x hx).1) fun x hx =>
      substitute_eq_literalAt hvalues hx
  obtain ⟨_, hfilled⟩ := (represents_literals hvalues).scan_filled (scans_of_scan ht)
  obtain ⟨tokens, hscan, hs⟩ := hfilled 0
  have hkeeps : Keeps (operandAt names environment) original.node.heads := fun x hx =>
    if_neg fun hmem => (hnames x hmem).2 hx
  rw [List.flatMap_append, List.flatMap_singleton, replaced_of_ne (by rw [hk]; exact nofun),
    ← original.substitute_tokens hkeeps] at hs
  obtain ⟨e, he, hn, _⟩ := exists_derives_of_sameTokens hscan hk hs
  exact ⟨_, e, hequation, he, exists_literalTrees hvalues,
    fun trees htrees => hn.trans (original.substitute_node (htrees.treesOf hvalues)),
    fun _ _ _ _ hl hlen hb => he.parseText_eq_ok hl hlen hb⟩

theorem filled_call_parses :
    let limits : Limits := ⟨.integer 3, .integer 40⟩
    let environment : Fields := [(.text "a", .text "\") || g(\"")]
    parseText 1000 limits "f(a)" = .ok (.call 0 "f" [.identifier 2 "a"]) ∧
      (∀ x ∈ ([("a" : Text)] : List Text), ∃ v, environment.field? x = some v ∧ v.Encodable) ∧
      ∃ text e trees, equation (withPlaceholders ["a"] "f(a)") environment = .ok text ∧
        Derives text e ∧ LiteralTrees ["a"] environment trees ∧
        e.node.unplaced = .call 0 "f" [((trees "a").getD (.identifier 2 "a")).unplaced] := by
  intro limits environment
  let original : Phrase := .ofCall 0 "f" (.ofOne (.ofName 2 "a")) 3
  have hscan : Lexer.tokenize "f(a)" = .ok (original.tokens ++ [⟨.ending, .null, 4, ""⟩]) :=
    @scan_token 102 [] [40, 97, 41] _ _ 0 _ rfl rfl <|
      @scan_token 40 [] [97, 41] _ _ 1 _ rfl rfl <|
        @scan_token 97 [] [41] _ _ 2 _ rfl rfl <| @scan_token 41 [] [] _ _ 3 _ rfl rfl (scan_nil 4)
  have hl : Bounded limits (.ofNat 40) (.ofNat 3) := ⟨by decide +kernel, by decide +kernel⟩
  have hderives : Derives "f(a)" original := ⟨⟨.ending, .null, 4, ""⟩, rfl, hscan⟩
  have hparse : parseText 1000 limits "f(a)" = .ok (.call 0 "f" [.identifier 2 "a"]) :=
    hderives.parseText_eq_ok hl (by decide) ⟨by decide, by decide⟩
  have hnames : ∀ x ∈ ([("a" : Text)] : List Text), (∀ c ∈ x.points, isNamePoint c = true) ∧
      x ∉ (Node.call 0 "f" [.identifier 2 "a"]).heads := by decide
  have hvalues : ∀ x ∈ ([("a" : Text)] : List Text), ∃ v, environment.field? x = some v ∧ v.Encodable := by
    intro x hx
    obtain rfl := List.mem_singleton.mp hx
    exact ⟨.text "\") || g(\"", by rfl, trivial⟩
  obtain ⟨text, e', hequation, he, ⟨trees, htrees⟩, hn, _⟩ :=
    equation_parses_as_substituted hparse (by decide) hnames hvalues
  exact ⟨hparse, hvalues, text, e', trees, hequation, he, htrees, hn trees htrees⟩

end Vetting.Template
