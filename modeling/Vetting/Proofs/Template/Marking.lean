import Mathlib.Data.List.Chain
import Vetting.Proofs.Expression.Continuation
import Vetting.Proofs.Template.Filling

/-!
# Expressions with placeholders

An expression becomes a template when some of its identifiers are written as placeholders between
spaces. The pieces of this template are those of the expression, unless the expression itself has two
opening braces in a row.
-/

namespace Vetting.Template

open Lexer

/-! ## Marked expressions -/

def isChosen (names : List Text) (t : Token) : Bool :=
  t.kind = .identifier && names.contains (Parser.nameOf t)

/-- The rest of an expression from a position on, with the chosen ones of its tokens as
placeholders. -/
def mark (names : List Text) (position : Nat) (points : List CodePoint) : List Token → List Piece
  | [] => points.map .point
  | t :: tokens =>
    let gap := t.position - position
    (points.take gap).map .point ++
      ((if isChosen names t then [.placeholder (Parser.nameOf t)]
        else t.spelling.points.map .point) ++
      mark names (t.position + t.spelling.length) (points.drop (gap + t.spelling.length)) tokens)

/-- Pieces written one after the other, with these texts in the place of the placeholders. -/
def render (textOf : Text → Text) : List Piece → Text
  | [] => Text.empty
  | .point c :: rest => Text.singleton c ++ render textOf rest
  | .placeholder name :: rest => textOf name ++ render textOf rest

def spaced (t : Text) : Text := " " ++ t ++ " "

theorem points_spaced (t : Text) : (spaced t).points = 32 :: (t.points ++ [32]) := rfl

/-- An expression with placeholders, between spaces, in the place of the identifiers of these
names. -/
def withPlaceholders (names : List Text) (expression : Text) : Text :=
  match Lexer.tokenize expression with
  | .ok tokens => render (fun name => spaced (written name)) (mark names 0 expression.points tokens)
  | .error _ => expression

/-! ## The pieces of a marked expression -/

section Render
variable (textOf : Text → Text)

theorem render_append (a b : List Piece) :
    render textOf (a ++ b) = render textOf a ++ render textOf b := by
  induction a with
  | nil => exact (Text.empty_append _).symm
  | cons piece rest ih =>
    cases piece <;> rw [List.cons_append, render, render, ih, Text.append_assoc]

theorem points_render_map_point (points : List CodePoint) :
    (render textOf (points.map .point)).points = points := by
  induction points with
  | nil => rfl
  | cons c rest ih => rw [List.map_cons, render, Text.points_append, ih]; rfl

end Render

theorem mark_ending (names : List Text) (position : Nat) :
    mark names position [] [⟨.ending, .null, position, ""⟩] = [] := by
  simp [mark, isChosen]
  rfl

theorem mark_blank {names : List Text} {position : Nat} {c : CodePoint} {rest : List CodePoint}
    {tokens : List Token} (h : Scans (position + 1) rest tokens) :
    mark names position (c :: rest) tokens = .point c :: mark names (position + 1) rest tokens := by
  obtain ⟨t, more, rfl, ht⟩ := h.exists_cons
  have hgap : t.position - position = t.position - (position + 1) + 1 := by omega
  simp only [mark]
  rw [hgap, List.take_succ_cons, Nat.add_right_comm, List.drop_succ_cons]
  rfl

theorem mark_token {names : List Text} {position : Nat} {c : CodePoint} {rest : List CodePoint}
    {tokens : List Token} {r : Reading} (hle : r.extra ≤ rest.length) :
    mark names position (c :: rest) (⟨r.kind, r.value, position, ⟨c :: rest.take r.extra⟩⟩ :: tokens) =
      (if isChosen names ⟨r.kind, r.value, position, ⟨c :: rest.take r.extra⟩⟩
        then [.placeholder (Parser.nameOf ⟨r.kind, r.value, position, ⟨c :: rest.take r.extra⟩⟩)]
        else (c :: rest.take r.extra).map .point) ++
      mark names (position + r.extra + 1) (rest.drop r.extra) tokens := by
  have hlen : Text.length ⟨c :: rest.take r.extra⟩ = r.extra + 1 := by
    rw [Text.length, List.length_cons, List.length_take, Nat.min_eq_left hle]
  simp only [mark, hlen, Nat.sub_self, Nat.zero_add, List.drop_succ_cons]
  rfl

section Marked
variable {names : List Text} {position : Nat} {points : List CodePoint} {tokens : List Token}

/-- A chosen token spells its name. -/
theorem nameOf_of_isChosen {c : CodePoint} {rest : List CodePoint} {r : Reading}
    (hr : read c rest position = .ok r)
    (hc : isChosen names ⟨r.kind, r.value, position, ⟨c :: rest.take r.extra⟩⟩ = true) :
    Parser.nameOf ⟨r.kind, r.value, position, ⟨c :: rest.take r.extra⟩⟩ = ⟨c :: rest.take r.extra⟩ ∧
      (⟨c :: rest.take r.extra⟩ : Text) ∈ names := by
  rw [isChosen, Bool.and_eq_true, decide_eq_true_eq] at hc
  have hname : Parser.nameOf ⟨r.kind, r.value, position, ⟨c :: rest.take r.extra⟩⟩ =
      ⟨c :: rest.take r.extra⟩ := by
    rw [Parser.nameOf, (read_kind hr).2 hc.1]
  refine ⟨hname, ?_⟩
  rw [← hname]
  exact List.contains_iff_mem.mp hc.2

/-- Marking loses nothing of the expression. -/
theorem points_render_mark (h : Scans position points tokens) :
    (render id (mark names position points tokens)).points = points := by
  induction h with
  | done => rw [mark_ending, render]; rfl
  | blank hb h ih =>
    rw [mark_blank h, render, Text.points_append, ih]
    rfl
  | @token position c rest tokens r hb hr h ih =>
    rw [mark_token (extra_le hr), render_append, Text.points_append, ih]
    split
    · rename_i hc
      rw [(nameOf_of_isChosen hr hc).1]
      show (c :: rest.take r.extra ++ []) ++ rest.drop r.extra = c :: rest
      rw [List.append_nil, List.cons_append, List.take_append_drop]
    · rw [points_render_map_point, List.cons_append, List.take_append_drop]

theorem mem_names_of_mark (h : Scans position points tokens) {x : Text}
    (hx : .placeholder x ∈ mark names position points tokens) : x ∈ names ∧ x.points ≠ [] := by
  induction h with
  | done =>
    rw [mark_ending] at hx
    cases hx
  | blank hb h ih =>
    rw [mark_blank h, List.mem_cons] at hx
    rcases hx with hx | hx
    · cases hx
    · exact ih hx
  | @token position c rest tokens r hb hr h ih =>
    rw [mark_token (extra_le hr), List.mem_append] at hx
    rcases hx with hx | hx
    · split at hx
      · rename_i hc
        obtain ⟨hname, hmem⟩ := nameOf_of_isChosen hr hc
        rw [hname, List.mem_singleton] at hx
        cases hx
        exact ⟨hmem, by simp⟩
      · obtain ⟨_, _, hp⟩ := List.mem_map.mp hx
        cases hp
    · exact ih hx

end Marked

/-! ## The template of a marked expression -/

/-- Pieces of which no two opening braces stand together. -/
def Unopened (pieces : List Piece) : Prop :=
  pieces.IsChain fun a b => ¬ (a = .point openingBrace ∧ b = .point openingBrace)

theorem unopened_of_render {pieces : List Piece}
    (h : ¬ [openingBrace, openingBrace] <:+: (render id pieces).points) : Unopened pieces := by
  induction pieces with
  | nil => exact .nil
  | cons a rest ih =>
    have hrest : Unopened rest := by
      refine ih fun hi => h (hi.trans ?_)
      cases a with
      | point c => exact (List.suffix_append [c] _).isInfix
      | placeholder name => exact (List.suffix_append name.points _).isInfix
    cases rest with
    | nil => exact .singleton a
    | cons b rest =>
      refine .cons_cons ?_ hrest
      rintro ⟨rfl, rfl⟩
      exact h (List.prefix_append [openingBrace, openingBrace] (render id rest).points).isInfix

def spacing : Piece → List Piece
  | .point c => [.point c]
  | .placeholder name => [.point 32, .placeholder name, .point 32]

theorem pieces_of_ne {c : CodePoint} (h : c ≠ openingBrace) (rest : List CodePoint) :
    pieces (c :: rest) = .point c :: pieces rest := by
  have hl : leading? (c :: rest) = none := by
    unfold leading?
    split
    · rename_i heq
      rw [if_neg fun hb => h ((List.cons.inj heq).1.trans hb.1)]
    · rfl
  rw [pieces, hl]

theorem pieces_of_head?_ne {c : CodePoint} {rest : List CodePoint}
    (h : c = openingBrace → rest.head? ≠ some openingBrace) :
    pieces (c :: rest) = .point c :: pieces rest := by
  have hl : leading? (c :: rest) = none := by
    cases rest with
    | nil => rfl
    | cons d rest =>
      rw [leading?, if_neg]
      rintro ⟨hc, rfl⟩
      exact h hc rfl
  rw [pieces, hl]

theorem points_written_append (name : Text) (rest : List CodePoint) :
    (written name).points ++ rest =
      openingBrace :: openingBrace :: (name.points ++ closingBrace :: closingBrace :: rest) := by
  show openingBrace :: openingBrace :: (name.points ++ [closingBrace, closingBrace]) ++ rest = _
  rw [List.cons_append, List.cons_append, List.append_assoc]
  rfl

theorem leading?_written {name : Text} (hne : name.points ≠ [])
    (hn : ∀ c ∈ name.points, isNamePoint c = true) (rest : List CodePoint) :
    leading? ((written name).points ++ rest) = some name.points := by
  have hclose : ¬ isNamePoint closingBrace = true := by decide
  have htake : (name.points ++ closingBrace :: closingBrace :: rest).takeWhile isNamePoint =
      name.points := by
    rw [List.takeWhile_append_of_pos hn, List.takeWhile_cons_of_neg hclose, List.append_nil]
  have hdrop : (name.points ++ closingBrace :: closingBrace :: rest).dropWhile isNamePoint =
      closingBrace :: closingBrace :: rest := by
    rw [List.dropWhile_append_of_pos hn, List.dropWhile_cons_of_neg hclose]
  rw [points_written_append, leading?, if_pos ⟨rfl, rfl⟩, htake, hdrop]
  exact if_pos ⟨hne, rfl⟩

theorem pieces_written {name : Text} (hne : name.points ≠ [])
    (hn : ∀ c ∈ name.points, isNamePoint c = true) (rest : List CodePoint) :
    pieces ((written name).points ++ rest) = .placeholder name :: pieces rest := by
  have hl := leading?_written hne hn rest
  rw [points_written_append] at hl ⊢
  rw [pieces, hl]
  show .placeholder name :: pieces ((openingBrace :: (name.points ++ closingBrace :: closingBrace ::
    rest)).drop (name.points.length + 3)) = _
  rw [List.drop_succ_cons, List.drop_length_add_append]
  rfl

/-- The placeholders of a template made of pieces between spaces are those of the pieces. -/
theorem pieces_render {m : List Piece} (hm : Unopened m)
    (hn : ∀ x, .placeholder x ∈ m → x.points ≠ [] ∧ ∀ c ∈ x.points, isNamePoint c = true) :
    pieces (render (fun x => spaced (written x)) m).points = m.flatMap spacing := by
  induction m with
  | nil => rw [render, List.flatMap_nil]; exact pieces.eq_1
  | cons piece rest ih =>
    have ih := ih hm.tail fun x hx => hn x (List.mem_cons_of_mem _ hx)
    rw [List.flatMap_cons, ← ih]
    cases piece with
    | point c =>
      refine pieces_of_head?_ne fun hc => ?_
      cases rest with
      | nil =>
        intro h
        cases h
      | cons piece rest =>
        cases piece with
        | point d =>
          intro hd
          obtain rfl : d = openingBrace := Option.some.inj hd
          exact hm.rel ⟨congrArg _ hc, rfl⟩
        | placeholder name => exact fun h => absurd (Option.some.inj h) (by decide)
    | placeholder name =>
      obtain ⟨hne, hname⟩ := hn name List.mem_cons_self
      have hpoints : (render (fun x => spaced (written x)) (.placeholder name :: rest)).points =
          32 :: ((written name).points ++
            32 :: (render (fun x => spaced (written x)) rest).points) := by
        rw [render, Text.points_append, points_spaced, List.cons_append, List.append_assoc]
        rfl
      rw [hpoints, pieces_of_ne (by decide), pieces_written hne hname, pieces_of_ne (by decide)]
      rfl

theorem fill_spacing {ε : Type} {textOf : Text → Except ε Text} {textAt : Text → Text}
    {m : List Piece} (h : ∀ x, .placeholder x ∈ m → textOf x = .ok (textAt x)) :
    fill textOf (m.flatMap spacing) = .ok (render (fun x => spaced (textAt x)) m) := by
  induction m with
  | nil => rfl
  | cons piece rest ih =>
    have ih := ih fun x hx => h x (List.mem_cons_of_mem _ hx)
    cases piece with
    | point c =>
      rw [List.flatMap_cons, spacing, List.singleton_append, fill, ih]
      rfl
    | placeholder name =>
      rw [List.flatMap_cons, spacing, List.cons_append, List.cons_append, List.cons_append,
        List.nil_append, fill, fill, fill, ih, h name List.mem_cons_self, render]
      refine congrArg Except.ok (Text.ext ?_)
      simp only [Text.points_append, points_spaced, List.cons_append, List.append_assoc]
      rfl

/-- An equation made from an expression has the texts of the values, between spaces, in the place of
the chosen identifiers. -/
theorem equation_withPlaceholders {names : List Text} {expression : Text} {tokens : List Token}
    {environment : Fields} {textAt : Text → Text} (ht : Lexer.tokenize expression = .ok tokens)
    (hopen : ¬ [openingBrace, openingBrace] <:+: expression.points)
    (hnames : ∀ x ∈ names, ∀ c ∈ x.points, isNamePoint c = true)
    (htext : ∀ x ∈ names, substitute environment x = .ok (textAt x)) :
    equation (withPlaceholders names expression) environment =
      .ok (render (fun x => spaced (textAt x)) (mark names 0 expression.points tokens)) := by
  have hs : Scans 0 expression.points tokens := scans_of_scan ht
  have hm : Unopened (mark names 0 expression.points tokens) :=
    unopened_of_render (by rwa [points_render_mark hs])
  have hpieces := pieces_render hm fun x hx =>
    ⟨(mem_names_of_mark hs hx).2, hnames x (mem_names_of_mark hs hx).1⟩
  rw [equation_eq_fill, ofText, withPlaceholders, ht]
  dsimp only
  rw [hpieces]
  exact fill_spacing fun x hx => htext x (mem_names_of_mark hs hx).1

end Vetting.Template
