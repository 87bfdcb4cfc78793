import Vetting.Proofs.Expression.Continuation

/-!
# The layout of a text

A text is its tokens with blanks between them: nothing of it is lost, and each token stands where its
spelling stands. The blanks only keep tokens apart. Whatever blanks stand between the same spellings,
the tokens are the same but for their positions.
-/

namespace Vetting.Lexer

open CodePoint Text

/-! ## Layouts -/

/-- Tokens with a gap in front of each. The token at the end spells nothing, so its gap ends the
text. -/
def layOut : List (List CodePoint) → List Token → List CodePoint
  | gap :: gaps, t :: tokens => gap ++ (t.spelling.points ++ layOut gaps tokens)
  | _, _ => []

/-- Where the tokens of a layout stand, if it starts at a position. -/
def places : Nat → List (List CodePoint) → List Token → List Nat
  | position, gap :: gaps, t :: tokens =>
    (position + gap.length) :: places (position + gap.length + t.spelling.length) gaps tokens
  | _, _, _ => []

/-- Gaps for a list of tokens: one for each of them, of blanks only. -/
structure Gaps (gaps : List (List CodePoint)) (tokens : List Token) : Prop where
  length_eq : gaps.length = tokens.length
  isBlank : ∀ gap ∈ gaps, ∀ c ∈ gap, isBlank c = true

theorem Gaps.tail {gap : List CodePoint} {gaps : List (List CodePoint)} {t : Token}
    {tokens : List Token} (h : Gaps (gap :: gaps) (t :: tokens)) : Gaps gaps tokens :=
  ⟨Nat.succ.inj h.length_eq, fun g hg => h.isBlank g (List.mem_cons_of_mem gap hg)⟩

theorem Gaps.exists_cons {gaps : List (List CodePoint)} {t : Token} {tokens : List Token}
    (h : Gaps gaps (t :: tokens)) :
    ∃ gap rest, gaps = gap :: rest ∧ (∀ c ∈ gap, CodePoint.isBlank c = true) ∧ Gaps rest tokens := by
  cases gaps with
  | nil => cases h.length_eq
  | cons gap rest => exact ⟨gap, rest, rfl, h.isBlank gap List.mem_cons_self, h.tail⟩

/-! ## A text is the layout of its tokens -/

theorem Scans.exists_gaps {position : Nat} {points : List CodePoint} {tokens : List Token}
    (h : Scans position points tokens) :
    ∃ gaps, Gaps gaps tokens ∧ points = layOut gaps tokens ∧
      tokens.map Token.position = places position gaps tokens := by
  induction h with
  | @done position => exact ⟨[[]], ⟨rfl, by simp⟩, rfl, rfl⟩
  | @blank position c rest tokens hb h ih =>
    obtain ⟨gaps, hgaps, hpoints, hplaces⟩ := ih
    obtain ⟨t, more, rfl, _⟩ := h.exists_cons
    obtain ⟨gap, gaps, rfl, hgap, htail⟩ := hgaps.exists_cons
    refine ⟨(c :: gap) :: gaps, ⟨hgaps.length_eq, ?_⟩, congrArg (List.cons c) hpoints, ?_⟩
    · exact List.forall_mem_cons.mpr ⟨List.forall_mem_cons.mpr ⟨hb, hgap⟩, htail.isBlank⟩
    · rw [hplaces, places, places, List.length_cons, Nat.add_right_comm, Nat.add_assoc position]
  | @token position c rest tokens r hb hr h ih =>
    obtain ⟨gaps, hgaps, hpoints, hplaces⟩ := ih
    refine ⟨[] :: gaps, ⟨congrArg (· + 1) hgaps.length_eq, ?_⟩, ?_, ?_⟩
    · exact List.forall_mem_cons.mpr ⟨nofun, hgaps.isBlank⟩
    · rw [layOut, ← hpoints, List.nil_append, List.cons_append, List.take_append_drop]
    · have hlength : (⟨c :: rest.take r.extra⟩ : Text).length = r.extra + 1 := by
        rw [length, List.length_cons, List.length_take_of_le (extra_le hr)]
      rw [List.map_cons, hplaces, places, hlength, ← Nat.add_assoc]
      rfl

/-- The tokens stand one behind the other. -/
theorem Scans.pairwise_position {position : Nat} {points : List CodePoint} {tokens : List Token}
    (h : Scans position points tokens) :
    tokens.Pairwise (fun s t => s.position < t.position) ∧ ∀ t ∈ tokens, position ≤ t.position := by
  induction h with
  | done => exact ⟨List.pairwise_singleton _ _, by simp⟩
  | blank hb h ih => exact ⟨ih.1, fun t ht => Nat.le_of_succ_le (ih.2 t ht)⟩
  | @token position c rest tokens r hb hr h ih =>
    have hlater (t : Token) (ht : t ∈ tokens) : position < t.position :=
      Nat.lt_of_lt_of_le (Nat.lt_succ_of_le (Nat.le_add_right position r.extra)) (ih.2 t ht)
    refine ⟨List.pairwise_cons.mpr ⟨hlater, ih.1⟩, List.forall_mem_cons.mpr ⟨Nat.le_refl _, ?_⟩⟩
    exact fun t ht => Nat.le_of_lt (hlater t ht)

/-- A token was read where it stands, or it is the one at the end. -/
theorem Scans.exists_read {position : Nat} {points : List CodePoint} {tokens : List Token}
    (h : Scans position points tokens) {t : Token} (ht : t ∈ tokens) :
    ∃ before rest, points = before ++ rest ∧ t.position = position + before.length ∧
      (rest = [] ∧ t = ⟨.ending, .null, t.position, ""⟩ ∨
        ∃ c tail r, rest = c :: tail ∧ read c tail t.position = .ok r ∧
          t = ⟨r.kind, r.value, t.position, ⟨c :: tail.take r.extra⟩⟩) := by
  induction h with
  | @done position =>
    obtain rfl := List.mem_singleton.mp ht
    exact ⟨[], [], rfl, rfl, .inl ⟨rfl, rfl⟩⟩
  | @blank position c rest tokens hb h ih =>
    obtain ⟨before, rest, rfl, hposition, hread⟩ := ih ht
    refine ⟨c :: before, rest, rfl, ?_, hread⟩
    rw [hposition, List.length_cons, Nat.add_assoc, Nat.add_comm 1]
  | @token position c rest tokens r hb hr h ih =>
    rcases List.mem_cons.mp ht with rfl | ht
    · exact ⟨[], c :: rest, rfl, rfl, .inr ⟨c, rest, r, rfl, hr, rfl⟩⟩
    · obtain ⟨before, tail, hrest, hposition, hread⟩ := ih ht
      refine ⟨c :: (rest.take r.extra ++ before), tail, ?_, ?_, hread⟩
      · rw [List.cons_append, List.append_assoc, ← hrest, List.take_append_drop]
      · rw [hposition, List.length_cons, List.length_append, List.length_take_of_le (extra_le hr)]
        omega

/-! ## Symbols -/

/-- Whether a token is an operator or a mark of punctuation that is not spelled by a word. -/
def IsSymbol (t : Token) : Prop :=
  t.kind ∈ Token.symbols.map Prod.snd ∧ Token.keyword? t.spelling = none

/-- Whether a token is the longest symbol at the front of a text. -/
structure IsLongestSymbol (t : Token) (points : List CodePoint) : Prop where
  mem : (t.spelling, t.kind) ∈ Token.symbols
  value_eq : t.value = .text t.spelling
  prefix_points : t.spelling.points <+: points
  longest : ∀ s ∈ Token.symbols, s.1.points <+: points → s.1.length ≤ t.spelling.length

/-- No symbol stands before a longer one. -/
theorem pairwise_symbols :
    Token.symbols.Pairwise fun s t => t.1.length ≤ s.1.length := by
  decide +kernel

theorem isLongestSymbol_of_readSymbol {first : CodePoint} {rest : List CodePoint} {position : Nat}
    {r : Reading} (hr : readSymbol first rest position = .ok r) :
    IsLongestSymbol ⟨r.kind, r.value, position, ⟨first :: rest.take r.extra⟩⟩ (first :: rest) := by
  unfold readSymbol at hr
  split at hr
  · rename_i symbol kind hfind
    cases hr
    obtain ⟨hfront, before, after, hsymbols, hbefore⟩ := List.find?_eq_some_iff_append.mp hfind
    have hmem : (symbol, kind) ∈ Token.symbols := List.mem_of_find?_eq_some hfind
    obtain ⟨w, hw⟩ := exists_points_of_symbol hmem hfront
    obtain ⟨tail, rfl⟩ : w <+: rest := by
      rw [List.isPrefixOf_iff_prefix, hw] at hfront
      exact (List.cons_prefix_cons.mp hfront).2
    have hspelling : (⟨first :: (w ++ tail).take (symbol.length - 1)⟩ : Text) = symbol := by
      have hextra : symbol.length - 1 = w.length := by
        rw [length, hw]
        rfl
      rw [hextra, List.take_left, ← hw]
    rw [hspelling]
    refine ⟨hmem, rfl, List.isPrefixOf_iff_prefix.mp hfront, fun s hs hp => ?_⟩
    -- a symbol at the front of the text does not stand before the one that was found
    have hs : s ∈ (symbol, kind) :: after := by
      rw [hsymbols] at hs
      refine (List.mem_append.mp hs).resolve_left fun hs => ?_
      have hnot := hbefore s hs
      rw [List.isPrefixOf_iff_prefix.mpr hp] at hnot
      cases hnot
    have hpairwise := pairwise_symbols
    rw [hsymbols] at hpairwise
    rcases List.mem_cons.mp hs with rfl | hs
    · exact Nat.le_refl _
    · exact (List.pairwise_cons.mp (List.pairwise_append.mp hpairwise).2.1).1 s hs
  · cases hr

theorem not_isSymbol_of_kind {t : Token} (kind : TokenKind) (h : t.kind = kind)
    (hk : kind ∉ Token.symbols.map Prod.snd) : ¬ IsSymbol t := fun hs => hk (h ▸ hs.1)

theorem readWord_not_isSymbol (first : CodePoint) (rest : List CodePoint) (position : Nat) :
    ¬ IsSymbol ⟨(readWord first rest).kind, (readWord first rest).value, position,
      ⟨first :: rest.take (readWord first rest).extra⟩⟩ := by
  intro hs
  have hspelling : Token.keyword? ⟨first :: rest.takeWhile continuesWord⟩ = none := by
    rw [← take_takeWhile, ← readWord_extra first]
    exact hs.2
  have hkind : (readWord first rest).kind = .identifier := by
    unfold readWord
    dsimp only
    rw [hspelling]
  exact not_isSymbol_of_kind .identifier hkind (by decide) hs

/-- Of the symbols at the front of a text the lexer reads the longest. -/
theorem isLongestSymbol_of_read {first : CodePoint} {rest : List CodePoint} {position : Nat}
    {r : Reading} (hr : read first rest position = .ok r)
    (hs : IsSymbol ⟨r.kind, r.value, position, ⟨first :: rest.take r.extra⟩⟩) :
    IsLongestSymbol ⟨r.kind, r.value, position, ⟨first :: rest.take r.extra⟩⟩ (first :: rest) := by
  unfold read at hr
  split at hr
  · obtain ⟨_, _, _, _, _, _, _, _, rfl⟩ := exists_writes_of_readNumber hr
    exact absurd hs (not_isSymbol_of_kind .number rfl (by decide))
  · split at hr
    · unfold readString at hr
      cases hc : readContent first position (position + 1) rest with
      | error e =>
        rw [hc] at hr
        cases hr
      | ok result =>
        rw [hc] at hr
        cases hr
        exact absurd hs (not_isSymbol_of_kind .string rfl (by decide))
    · split at hr
      · cases hr
        exact absurd hs (readWord_not_isSymbol first rest position)
      · exact isLongestSymbol_of_readSymbol hr

/-! ## Other blanks between the same tokens -/

theorem scan_blanks {gap : List CodePoint} (h : ∀ c ∈ gap, isBlank c = true) (position : Nat)
    (rest : List CodePoint) : scan position (gap ++ rest) = scan (position + gap.length) rest := by
  induction gap generalizing position with
  | nil => rfl
  | cons c gap ih =>
    rw [List.cons_append, scan_blank (h c List.mem_cons_self),
      ih (fun d hd => h d (List.mem_cons_of_mem c hd)), List.length_cons, Nat.add_assoc,
      Nat.add_comm 1]

/-- Behind a token there is a blank, unless the text ends. -/
theorem Scans.delimited_layOut {position : Nat} {points : List CodePoint} {tokens : List Token}
    (h : Scans position points tokens) {gaps : List (List CodePoint)} (hg : Gaps gaps tokens)
    (hne : ∀ gap ∈ gaps.dropLast, gap ≠ []) : Delimited (layOut gaps tokens) := by
  obtain ⟨t, more, rfl, _⟩ := h.exists_cons
  obtain ⟨gap, gaps, rfl, hgap, htail⟩ := hg.exists_cons
  cases gap with
  | cons c gap => exact delimited_cons (.inl (hgap c List.mem_cons_self)) _
  | nil =>
    cases gaps with
    | cons next gaps => exact absurd rfl (hne [] List.mem_cons_self)
    | nil =>
      obtain rfl : more = [] := List.eq_nil_of_length_eq_zero htail.length_eq.symm
      obtain ⟨front, ending, htokens, hk, _⟩ := h.exists_ending
      obtain ⟨rfl, rfl⟩ : front = [] ∧ ending = t := by
        cases front with
        | nil => exact ⟨rfl, (List.cons.inj htokens).1.symm⟩
        | cons s front => exact absurd (List.cons.inj htokens).2 (by simp)
      obtain ⟨_, _, _, _, ⟨_, ht⟩ | ⟨c, tail, r, _, hr, ht⟩⟩ := h.exists_read List.mem_cons_self
      · rw [ht]
        exact delimited_nil
      · rw [ht] at hk
        exact absurd hk (read_kind hr).1

/-- The tokens of a text are those of each layout of them with blanks between two tokens. -/
theorem Scans.scan_layOut {position : Nat} {points : List CodePoint} {tokens : List Token}
    (h : Scans position points tokens) {gaps : List (List CodePoint)} (hg : Gaps gaps tokens)
    (hne : ∀ gap ∈ gaps.tail.dropLast, gap ≠ []) (start : Nat) :
    ∃ placed, scan start (layOut gaps tokens) = .ok placed ∧
      placed.map Token.unplaced = tokens.map Token.unplaced := by
  induction h generalizing gaps start with
  | @done position =>
    obtain ⟨gap, gaps, rfl, hgap, _⟩ := hg.exists_cons
    refine ⟨[⟨.ending, .null, start + gap.length, ""⟩], ?_, rfl⟩
    have hend : layOut gaps [] = [] := by cases gaps <;> rfl
    rw [layOut, hend, scan_blanks hgap]
    exact scan_nil _
  | blank hb h ih => exact ih hg hne start
  | @token position c rest tokens r hb hr h ih =>
    obtain ⟨gap, gaps, rfl, hgap, htail⟩ := hg.exists_cons
    have hinner (g : List CodePoint) (hmem : g ∈ gaps.tail.dropLast) : g ≠ [] := by
      rw [← List.tail_dropLast] at hmem
      exact hne g (List.mem_of_mem_tail hmem)
    obtain ⟨hle, hread⟩ :=
      Resembles.token hr (.inl (h.delimited_layOut htail hne)) (start + gap.length)
    have hlength : (rest.take r.extra).length = r.extra := List.length_take_of_le hle
    obtain ⟨placed, hplaced, hsame⟩ :=
      ih htail hinner (start + gap.length + (rest.take r.extra).length + 1)
    have hread : read c (rest.take r.extra ++ layOut gaps tokens) (start + gap.length) =
        .ok ⟨r.kind, r.value, (rest.take r.extra).length⟩ := by rw [hread, hlength]
    refine ⟨⟨r.kind, r.value, start + gap.length, ⟨c :: rest.take r.extra⟩⟩ :: placed, ?_,
      congrArg (List.cons _) hsame⟩
    rw [layOut, scan_blanks hgap]
    exact scan_token hb hread hplaced

/-! ## Lossless reading -/

/-- The tokens of a text stand one behind the other, each with its spelling at its position and the
last at the end, and between the spellings there are blanks only. An operator is the longest symbol
where it stands. The same spellings with other blanks between them have the same tokens. -/
theorem tokenize_lossless {text : Text} {tokens : List Token} (h : tokenize text = .ok tokens) :
    tokens.Pairwise (fun s t => s.position < t.position) ∧
      (∃ gaps, Gaps gaps tokens ∧ text.points = layOut gaps tokens ∧
        tokens.map Token.position = places 0 gaps tokens) ∧
      (∃ front, tokens = front ++ [⟨.ending, .null, text.length, ""⟩] ∧
        ∀ t ∈ front, t.kind ≠ .ending ∧ t.spelling.points ≠ []) ∧
      (∀ t ∈ tokens, IsSymbol t → IsLongestSymbol t (text.points.drop t.position)) ∧
      ∀ gaps, Gaps gaps tokens → (∀ gap ∈ gaps.tail.dropLast, gap ≠ []) →
        ∃ placed, tokenize ⟨layOut gaps tokens⟩ = .ok placed ∧
          placed.map Token.unplaced = tokens.map Token.unplaced := by
  have hs : Scans 0 text.points tokens := scans_of_scan h
  refine ⟨hs.pairwise_position.1, hs.exists_gaps, ?_, fun t ht hsymbol => ?_, fun gaps hg hne => ?_⟩
  · obtain ⟨front, ending, rfl, hk, hf⟩ := hs.exists_ending
    refine ⟨front, ?_, fun t ht => ⟨hf t ht, ?_⟩⟩
    · obtain ⟨before, rest, hpoints, hposition, ⟨rfl, ht⟩ | ⟨c, tail, r, _, hr, ht⟩⟩ :=
        hs.exists_read (List.mem_append_right front (List.mem_singleton_self ending))
      · rw [ht, hposition, Nat.zero_add, length, hpoints, List.append_nil]
      · rw [ht] at hk
        exact absurd hk (read_kind hr).1
    · obtain ⟨_, _, _, _, ⟨_, heq⟩ | ⟨c, tail, r, _, _, heq⟩⟩ :=
        hs.exists_read (List.mem_append_left [ending] ht)
      · exact absurd (heq ▸ rfl) (hf t ht)
      · rw [heq]
        exact List.cons_ne_nil c _
  · obtain ⟨before, rest, hpoints, hposition, ⟨_, ht⟩ | ⟨c, tail, r, rfl, hr, ht⟩⟩ := hs.exists_read ht
    · rw [ht] at hsymbol
      exact absurd hsymbol (not_isSymbol_of_kind .ending rfl (by decide))
    · rw [hpoints, hposition, Nat.zero_add, List.drop_left]
      rw [ht] at hsymbol ⊢
      exact isLongestSymbol_of_read hr hsymbol
  · exact hs.scan_layOut hg hne 0

/-- A comparison without blanks has the tokens of one with a tab, a no-break space and a line break
in it. -/
theorem comparison_keeps_tokens :
    let sign : Token := ⟨.greaterOrEqual, .text ">=", 1, ">="⟩
    let tokens : List Token := [⟨.identifier, .text "a", 0, "a"⟩, sign,
      ⟨.number, .number (.integer 7), 3, "7"⟩, ⟨.ending, .null, 4, ""⟩]
    let gaps : List (List CodePoint) := [[], [9], [160, 10], []]
    tokenize "a>=7" = .ok tokens ∧ IsLongestSymbol sign [62, 61, 55] ∧
      layOut gaps tokens = [97, 9, 62, 61, 160, 10, 55] ∧
      ∃ placed, tokenize ⟨layOut gaps tokens⟩ = .ok placed ∧
        placed.map Token.unplaced = tokens.map Token.unplaced := by
  intro sign tokens gaps
  have hscan : tokenize "a>=7" = .ok tokens :=
    @scan_token 97 [] [62, 61, 55] _ _ 0 _ rfl rfl <| @scan_token 62 [61] [55] _ _ 1 _ rfl rfl <|
      @scan_token 55 [] [] _ _ 3 _ rfl rfl (scan_nil 4)
  obtain ⟨_, _, _, hsymbols, hlayouts⟩ := tokenize_lossless hscan
  have hgaps : Gaps gaps tokens := ⟨rfl, by decide⟩
  exact ⟨hscan, hsymbols sign (by simp [tokens]) ⟨by decide, by decide⟩, rfl,
    hlayouts gaps hgaps (by decide)⟩

end Vetting.Lexer
