import Vetting.Proofs.Template.Marking
import Vetting.Proofs.Template.Message

/-!
# Templates in parts

A template is text with tokens in it, and it can be taken apart into the segments of text and the tokens in
one way: each token is the first that begins behind the one before. Substitution keeps the segments
and puts one text in the place of each token. What it puts there is never looked at again, because the parts
are those of the template.
-/

namespace Vetting.Template

/-! ## Tokens -/

/-- Whether a text can be the name of a placeholder. -/
structure IsName (name : Text) : Prop where
  nonempty : name.points ≠ []
  all : ∀ c ∈ name.points, isNamePoint c = true

def BeginsToken (points : List CodePoint) : Prop :=
  ∃ name rest, IsName name ∧ points = (written name).points ++ rest

theorem beginsToken_of_leading? {points name : List CodePoint} (h : leading? points = some name) :
    BeginsToken points := by
  unfold leading? at h
  split at h
  · rename_i a b rest
    split at h
    · rename_i hopen
      obtain ⟨rfl, rfl⟩ := hopen
      dsimp only at h
      split at h
      · rename_i hname
        obtain ⟨hne, hclose⟩ := hname
        refine ⟨⟨rest.takeWhile isNamePoint⟩, (rest.dropWhile isNamePoint).drop 2,
          ⟨hne, fun c hc => List.mem_takeWhile_imp hc⟩, ?_⟩
        have hbehind := List.take_append_drop 2 (rest.dropWhile isNamePoint)
        rw [hclose] at hbehind
        have hrest := List.takeWhile_append_dropWhile (p := isNamePoint) (l := rest)
        rw [← hbehind] at hrest
        rw [points_written_append]
        exact congrArg (openingBrace :: openingBrace :: ·) hrest.symm
      · cases h
    · cases h
  · cases h

theorem pieces_of_not_beginsToken {c : CodePoint} {rest : List CodePoint}
    (h : ¬ BeginsToken (c :: rest)) : pieces (c :: rest) = .point c :: pieces rest := by
  have hl : leading? (c :: rest) = none := by
    cases hname : leading? (c :: rest) with
    | none => rfl
    | some name => exact absurd (beginsToken_of_leading? hname) h
  rw [pieces, hl]

/-! ## Parts -/

/-- Segments of text, each but the last one followed by the token of a name. -/
structure Parts where
  tokens : List (Text × Text)
  last : Text

namespace Parts

def names (parts : Parts) : List Text := parts.tokens.map (·.2)

def write (textOf : Text → Text) (parts : Parts) : Text :=
  parts.tokens.foldr (fun token rest => token.1 ++ textOf token.2 ++ rest) parts.last

def prepend (text : Text) : Parts → Parts
  | ⟨[], last⟩ => ⟨[], text ++ last⟩
  | ⟨(segment, name) :: tokens, last⟩ => ⟨(text ++ segment, name) :: tokens, last⟩

def follow (name : Text) (parts : Parts) : Parts :=
  ⟨(Text.empty, name) :: parts.tokens, parts.last⟩

def ofPieces : List Piece → Parts
  | [] => ⟨[], Text.empty⟩
  | .point c :: rest => (ofPieces rest).prepend (Text.singleton c)
  | .placeholder name :: rest => (ofPieces rest).follow name

@[simp] theorem prepend_empty (parts : Parts) : parts.prepend Text.empty = parts := by
  obtain ⟨_ | ⟨token, tokens⟩, last⟩ := parts <;> simp [prepend]

theorem prepend_append (a b : Text) (parts : Parts) :
    parts.prepend (a ++ b) = (parts.prepend b).prepend a := by
  obtain ⟨_ | ⟨token, tokens⟩, last⟩ := parts <;> simp [prepend, Text.append_assoc]

@[simp] theorem names_prepend (text : Text) (parts : Parts) : (parts.prepend text).names = parts.names := by
  obtain ⟨_ | ⟨token, tokens⟩, last⟩ := parts <;> rfl

@[simp] theorem write_prepend (textOf : Text → Text) (text : Text) (parts : Parts) :
    (parts.prepend text).write textOf = text ++ parts.write textOf := by
  obtain ⟨_ | ⟨token, tokens⟩, last⟩ := parts <;> simp [prepend, write, Text.append_assoc]

@[simp] theorem write_follow (textOf : Text → Text) (name : Text) (parts : Parts) :
    (parts.follow name).write textOf = textOf name ++ parts.write textOf := by
  simp [follow, write]

theorem names_ofPieces (pieces : List Piece) : (ofPieces pieces).names = Template.names pieces := by
  induction pieces with
  | nil => rfl
  | cons piece rest ih =>
    cases piece with
    | point c => rw [ofPieces, names_prepend, ih]; rfl
    | placeholder name => exact congrArg (name :: ·) ih

theorem write_ofPieces (textOf : Text → Text) (pieces : List Piece) :
    (ofPieces pieces).write textOf = render textOf pieces := by
  induction pieces with
  | nil => rfl
  | cons piece rest ih =>
    cases piece with
    | point c => rw [ofPieces, write_prepend, ih]; rfl
    | placeholder name => rw [ofPieces, write_follow, ih]; rfl

end Parts

/-! ## Taking a template apart -/

/-- How a template splits into parts: behind each token it goes on to the first place where a token begins,
and from the last token on there is none. -/
inductive Splits : Text → Parts → Prop
  | last {text : Text} (h : ∀ i, ¬ BeginsToken (text.points.drop i)) : Splits text ⟨[], text⟩
  | token {segment name rest : Text} {parts : Parts} (hname : IsName name)
      (hfirst : ∀ i < segment.length,
        ¬ BeginsToken ((segment ++ (written name ++ rest)).points.drop i))
      (hrest : Splits rest parts) :
      Splits (segment ++ (written name ++ rest)) ((parts.follow name).prepend segment)

/-- The parts of a template with its tokens in their places are the template. -/
theorem write_written_of_splits {template : Text} {parts : Parts} (h : Splits template parts) :
    parts.write written = template := by
  induction h with
  | last _ => rfl
  | token _ _ _ ih => rw [Parts.write_prepend, Parts.write_follow, ih]

/-- Text without a token before it ends is one segment. -/
theorem ofPieces_append {segment rest : List CodePoint}
    (h : ∀ i < segment.length, ¬ BeginsToken ((segment ++ rest).drop i)) :
    Parts.ofPieces (pieces (segment ++ rest)) = (Parts.ofPieces (pieces rest)).prepend ⟨segment⟩ := by
  induction segment with
  | nil => exact (Parts.prepend_empty _).symm
  | cons c segment ih =>
    have hhere : ¬ BeginsToken (c :: (segment ++ rest)) := h 0 (Nat.succ_pos _)
    have hlater := ih fun i hi => h (i + 1) (Nat.succ_lt_succ hi)
    rw [List.cons_append, pieces_of_not_beginsToken hhere, Parts.ofPieces, hlater,
      ← Parts.prepend_append]
    rfl

theorem ofPieces_of_splits {template : Text} {parts : Parts} (h : Splits template parts) :
    Parts.ofPieces (ofText template) = parts := by
  induction h with
  | @last text h =>
    have hsegment : ∀ i < text.points.length, ¬ BeginsToken ((text.points ++ []).drop i) := by
      intro i _
      rw [List.append_nil]
      exact h i
    have hall := ofPieces_append hsegment
    rw [List.append_nil, pieces.eq_1, Parts.ofPieces, Parts.prepend, Text.append_empty] at hall
    exact hall
  | @token segment name rest parts hname hfirst hrest ih =>
    rw [ofText, Text.points_append, ofPieces_append hfirst, Text.points_append,
      pieces_written hname.nonempty hname.all, Parts.ofPieces, ← ofText, ih]

theorem splits_prepend {c : CodePoint} {rest : Text} {parts : Parts} (h : Splits rest parts)
    (hc : ¬ BeginsToken (c :: rest.points)) :
    Splits (Text.singleton c ++ rest) (parts.prepend (Text.singleton c)) := by
  cases h with
  | last h =>
    refine .last fun i => ?_
    cases i with
    | zero => exact hc
    | succ i => exact h i
  | @token segment name rest parts hname hfirst hrest =>
    rw [← Text.append_assoc, ← Parts.prepend_append]
    refine .token hname (fun i hi => ?_) hrest
    cases i with
    | zero => exact hc
    | succ i =>
      have hlen : (Text.singleton c ++ segment).length = segment.length + 1 := by
        rw [Text.length_append]
        exact Nat.add_comm 1 segment.length
      exact hfirst i (by omega)

theorem not_beginsToken_nil : ¬ BeginsToken [] := by
  rintro ⟨name, rest, _, h⟩
  rw [points_written_append] at h
  cases h

theorem splits_ofPieces (points : List CodePoint) : Splits ⟨points⟩ (Parts.ofPieces (pieces points)) := by
  induction hn : points.length using Nat.strong_induction_on generalizing points with
  | _ n ih =>
    cases points with
    | nil =>
      rw [pieces.eq_1]
      refine .last fun i => ?_
      rw [List.drop_nil]
      exact not_beginsToken_nil
    | cons c rest =>
      by_cases h : BeginsToken (c :: rest)
      · obtain ⟨name, more, hname, heq⟩ := h
        have hlen : more.length < n := by
          rw [← hn, heq, points_written_append]
          simp only [List.length_cons, List.length_append]
          omega
        have hsplits : Splits (Text.empty ++ (written name ++ ⟨more⟩)) _ :=
          .token hname (fun i hi => absurd hi (Nat.not_lt_zero i)) (ih _ hlen more rfl)
        rw [heq, pieces_written hname.nonempty hname.all, Parts.ofPieces]
        rwa [Parts.prepend_empty] at hsplits
      · have hrest := ih rest.length (by simp [← hn]) rest rfl
        rw [pieces_of_not_beginsToken h, Parts.ofPieces]
        exact splits_prepend hrest h

/-! ## Filling the parts -/

section Fill
variable {ε : Type} {textOf : Text → Except ε Text} {template : List Piece} {name : Text} {e : ε}

theorem fill_placeholder_of_error (h : textOf name = .error e) :
    fill textOf (.placeholder name :: template) = .error e := fill_cons_of_error h

theorem fill_eq_render {textAt : Text → Text}
    (h : ∀ name ∈ names template, textOf name = .ok (textAt name)) :
    fill textOf template = .ok (render textAt template) := by
  induction template with
  | nil => rfl
  | cons piece rest ih =>
    cases piece with
    | point c => rw [fill, ih h]; rfl
    | placeholder name =>
      obtain ⟨hname, hrest⟩ := List.forall_mem_cons.mp h
      rw [fill, hname, ih hrest]
      rfl

theorem exists_textOf_of_fill_eq_ok {shown : Text} (h : fill textOf template = .ok shown) :
    ∀ name ∈ names template, ∃ t, textOf name = .ok t := by
  induction template generalizing shown with
  | nil => exact fun _ h => nomatch h
  | cons piece rest ih =>
    obtain ⟨others, hothers⟩ := exists_of_fill_cons_eq_ok h
    cases piece with
    | point c => exact ih hothers
    | placeholder name =>
      refine List.forall_mem_cons.mpr ⟨?_, ih hothers⟩
      cases hname : textOf name with
      | ok t => exact ⟨t, rfl⟩
      | error e =>
        rw [fill_placeholder_of_error hname] at h
        cases h

/-- Filling succeeds when every placeholder has a text, and puts each in its place. -/
theorem fill_eq_ok_iff {shown : Text} : fill textOf template = .ok shown ↔
    ∃ textAt : Text → Text, (∀ name ∈ names template, textOf name = .ok (textAt name)) ∧
      shown = render textAt template := by
  constructor
  · intro h
    choose! textAt htext using exists_textOf_of_fill_eq_ok h
    refine ⟨textAt, htext, ?_⟩
    rw [fill_eq_render htext] at h
    exact (Except.ok.inj h).symm
  · rintro ⟨textAt, htext, rfl⟩
    exact fill_eq_render htext

theorem exists_pieces_of_names {before after : List Text} (h : names template = before ++ name :: after) :
    ∃ front back, template = front ++ .placeholder name :: back ∧ names front = before := by
  obtain ⟨front, rest, rfl, hfront, hrest⟩ := List.filterMap_eq_append_iff.mp h
  obtain ⟨skipped, piece, back, rfl, hskipped, hpiece, _⟩ := List.filterMap_eq_cons_iff.mp hrest
  cases piece with
  | point c => cases hpiece
  | placeholder own =>
    cases hpiece
    refine ⟨front ++ skipped, back, (List.append_assoc ..).symm, ?_⟩
    rw [names, List.filterMap_append, hfront, List.filterMap_eq_nil_iff.mpr hskipped, List.append_nil]

/-- Filling fails at the first placeholder that has no text. -/
theorem fill_eq_error_iff_names : fill textOf template = .error e ↔
    ∃ before name after, names template = before ++ name :: after ∧
      (∀ other ∈ before, ∃ t, textOf other = .ok t) ∧ textOf name = .error e := by
  rw [fill_eq_error_iff]
  constructor
  · rintro ⟨before, name, after, shown, rfl, hbefore, hname⟩
    exact ⟨names before, name, names after, List.filterMap_append,
      exists_textOf_of_fill_eq_ok hbefore, hname⟩
  · rintro ⟨before, name, after, hsplit, hbefore, hname⟩
    obtain ⟨front, back, rfl, rfl⟩ := exists_pieces_of_names hsplit
    choose! textAt htext using hbefore
    exact ⟨front, name, back, _, rfl, fill_eq_render htext, hname⟩

end Fill

/-! ## The two substitutions -/

/-- Whether a text stands for a name: its value in writing, or what is there for a missing one. -/
def StandsFor (fields : Fields) (write : Value → Except Fault Text) (missing : Text → Text)
    (name shown : Text) : Prop :=
  match fields.field? name with
  | some v => write v = .ok shown
  | none => shown = missing name

theorem parameterText_eq_ok_iff {parameters : Fields} {name shown : Text} :
    parameterText parameters name = .ok shown ↔
      StandsFor parameters Value.toText written name shown := by
  unfold parameterText StandsFor
  cases parameters.field? name with
  | none => simp only [Except.ok.injEq, eq_comm]
  | some v => rfl

theorem literalFor_eq_ok_iff {name shown : Text} {v : Value} :
    literalFor name v = .ok shown ↔ v.literal = .ok shown := by
  unfold literalFor
  cases v.literal with
  | ok t => simp only [Except.ok.injEq]
  | error f =>
    constructor
    · intro h
      dsimp only at h
      split at h
      · cases h
      · cases h
    · intro h
      cases h

theorem substitute_eq_ok_iff {environment : Fields} {name shown : Text} :
    substitute environment name = .ok shown ↔
      StandsFor environment Value.literal (fun _ => unresolved) name shown := by
  unfold substitute StandsFor
  cases environment.field? name with
  | none => simp only [Except.ok.injEq, eq_comm]
  | some v => exact literalFor_eq_ok_iff

/-- A template has one way to split into segments and tokens, and all that reads it sees those parts. A
message keeps the segments and has the text of a parameter in the place of its token; it fails exactly at
the first token whose parameter has no text. An equation that can be written keeps the same segments and has
literals in the place of the same tokens. -/
theorem substitution_is_one_pass (template : Text) :
    ∃ parts : Parts, Splits template parts ∧ (∀ other, Splits template other → other = parts) ∧
      parts.write written = template ∧ names (ofText template) = parts.names ∧
      (∀ (parameters : Fields) (shown : Text), message template parameters = .ok shown ↔
        ∃ textOf : Text → Text,
          (∀ name ∈ parts.names, StandsFor parameters Value.toText written name (textOf name)) ∧
            shown = parts.write textOf) ∧
      (∀ (parameters : Fields) (f : Fault), message template parameters = .error f ↔
        ∃ before name after v, parts.names = before ++ name :: after ∧
          (∀ other ∈ before, ∃ t, StandsFor parameters Value.toText written other t) ∧
            parameters.field? name = some v ∧ v.toText = .error f) ∧
      ∀ (environment : Fields) (shown : Text), equation template environment = .ok shown ↔
        ∃ textOf : Text → Text,
          (∀ name ∈ parts.names,
            StandsFor environment Value.literal (fun _ => unresolved) name (textOf name)) ∧
            shown = parts.write textOf := by
  have hsplits : Splits template (.ofPieces (ofText template)) := splits_ofPieces template.points
  refine ⟨.ofPieces (ofText template), hsplits, fun other h => (ofPieces_of_splits h).symm,
    write_written_of_splits hsplits, (Parts.names_ofPieces _).symm, ?_, ?_, ?_⟩
  · intro parameters shown
    rw [message_eq_fill, fill_eq_ok_iff, Parts.names_ofPieces]
    simp only [parameterText_eq_ok_iff, Parts.write_ofPieces]
  · intro parameters f
    rw [message_eq_fill, fill_eq_error_iff_names, Parts.names_ofPieces]
    simp only [parameterText_eq_ok_iff, parameterText_eq_error_iff, exists_and_left]
  · intro environment shown
    rw [equation_eq_fill, fill_eq_ok_iff, Parts.names_ofPieces]
    simp only [substitute_eq_ok_iff, Parts.write_ofPieces]

theorem ofText_written {name : Text} (h : IsName name) : ofText (written name) = [.placeholder name] := by
  rw [ofText, ← List.append_nil (written name).points, pieces_written h.nonempty h.all, pieces.eq_1]

/-- A message with an integer of too many digits is not filled. -/
theorem message_of_oversized {i : Int} (h : Number.unwritable ≤ i.natAbs) :
    message (written "x") [(.text "x", .integer i)] = .error .tooManyDigitsToWrite := by
  have htext : (Value.integer i).toText = .error .tooManyDigitsToWrite := by
    have hwrite : Number.writeInteger i = .error .tooManyDigitsToWrite := if_pos h
    rwa [Value.integer, Value.toText, Value.literal, Number.format]
    exact fun _ => Value.noConfusion
  have hname : parameterText [(.text "x", .integer i)] "x" = .error .tooManyDigitsToWrite :=
    parameterText_eq_error_iff.mpr ⟨.integer i, rfl, htext⟩
  rw [message_eq_fill, ofText_written ⟨by decide, by decide⟩]
  exact fill_placeholder_of_error hname

/-- Not every message is filled: here the parameter is the least integer that cannot be written. -/
theorem not_every_message_is_filled :
    ¬ ∀ (template : Text) (parameters : Fields), ∃ (parts : Parts) (textOf : Text → Text),
      Splits template parts ∧
        (∀ name ∈ parts.names, StandsFor parameters Value.toText written name (textOf name)) ∧
          message template parameters = .ok (parts.write textOf) := by
  intro h
  have hi : Number.unwritable ≤ (Number.unwritable : Int).natAbs :=
    Nat.le_of_eq (Int.natAbs_natCast _).symm
  obtain ⟨_, _, _, _, hok⟩ := h (written "x") [(.text "x", .integer Number.unwritable)]
  rw [message_of_oversized hi] at hok
  cases hok

end Vetting.Template
