import Vetting.Template
import Vetting.Proofs.Value.Writing

/-!
# Filling templates

A template is filled up to its first placeholder that has no text. The text of a placeholder of an
equation is missing for one of two reasons: its value has an integer with too many digits, which is
an error of the expression, or an object with a key that is no key of JSON, which is a fault.
-/

namespace Vetting.Template

def pieceText {ε : Type} (textOf : Text → Except ε Text) : Piece → Except ε Text
  | .point c => .ok (Text.singleton c)
  | .placeholder name => textOf name

section Fill
variable {ε : Type} {textOf : Text → Except ε Text} {template rest : List Piece} {piece : Piece}
  {own : Text} {e : ε}

theorem exists_name_of_pieceText (h : pieceText textOf piece = .error e) :
    ∃ name, piece = .placeholder name := by
  cases piece with
  | point c => cases h
  | placeholder name => exact ⟨name, rfl⟩

theorem fill_cons (piece : Piece) (rest : List Piece) : fill textOf (piece :: rest) = (do
    let shown ← pieceText textOf piece
    let others ← fill textOf rest
    return shown ++ others) := by
  cases piece <;> rfl

theorem fill_cons_of_error (h : pieceText textOf piece = .error e) :
    fill textOf (piece :: rest) = .error e := by
  rw [fill_cons, h]
  rfl

theorem fill_cons_eq_ok (h : pieceText textOf piece = .ok own) {shown : Text}
    (hr : fill textOf rest = .ok shown) : fill textOf (piece :: rest) = .ok (own ++ shown) := by
  rw [fill_cons, h, hr]
  rfl

theorem fill_cons_eq_error_iff (h : pieceText textOf piece = .ok own) :
    fill textOf (piece :: rest) = .error e ↔ fill textOf rest = .error e := by
  rw [fill_cons, h]
  cases fill textOf rest <;> simp [bind, Except.bind, pure, Except.pure]

theorem exists_of_fill_cons_eq_ok {filled : Text} (h : fill textOf (piece :: rest) = .ok filled) :
    ∃ shown, fill textOf rest = .ok shown := by
  cases hr : fill textOf rest with
  | ok shown => exact ⟨shown, rfl⟩
  | error e =>
    rw [fill_cons, hr] at h
    cases hp : pieceText textOf piece <;> rw [hp] at h <;> cases h

theorem fill_eq_error_iff :
    fill textOf template = .error e ↔
      ∃ before name after shown, template = before ++ .placeholder name :: after ∧
        fill textOf before = .ok shown ∧ textOf name = .error e := by
  induction template with
  | nil => simp [fill]
  | cons piece rest ih =>
    cases hp : pieceText textOf piece with
    | error e' =>
      obtain ⟨own, rfl⟩ := exists_name_of_pieceText hp
      rw [fill_cons_of_error hp]
      constructor
      · intro h
        cases h
        exact ⟨[], own, rest, Text.empty, rfl, rfl, hp⟩
      · rintro ⟨before, name, after, shown, he, hb, hn⟩
        cases before with
        | nil =>
          cases he
          exact hp.symm.trans hn
        | cons _ before =>
          cases he
          rw [fill_cons_of_error hp] at hb
          cases hb
    | ok own =>
      rw [fill_cons_eq_error_iff hp, ih]
      constructor
      · rintro ⟨before, name, after, shown, rfl, hb, hn⟩
        exact ⟨piece :: before, name, after, own ++ shown, rfl, fill_cons_eq_ok hp hb, hn⟩
      · rintro ⟨before, name, after, shown, he, hb, hn⟩
        cases before with
        | nil =>
          cases he
          cases hp.symm.trans hn
        | cons _ before =>
          cases he
          obtain ⟨shown, hs⟩ := exists_of_fill_cons_eq_ok hb
          exact ⟨before, name, after, shown, rfl, hs, hn⟩

/-- Filling asks for the texts of the placeholders and for no others. -/
theorem fill_congr {textOf' : Text → Except ε Text}
    (h : ∀ name ∈ names template, textOf name = textOf' name) :
    fill textOf template = fill textOf' template := by
  induction template with
  | nil => rfl
  | cons piece rest ih =>
    cases piece with
    | point c => rw [fill, fill, ih h]
    | placeholder name =>
      obtain ⟨hname, hrest⟩ := List.forall_mem_cons.mp h
      rw [fill, fill, hname, ih hrest]

end Fill

def substitute (environment : Fields) (name : Text) : Except Failure Text :=
  match environment.field? name with
  | some v => literalFor name v
  | none => .ok unresolved

theorem equation_eq_fill (template : Text) (environment : Fields) :
    equation template environment = fill (substitute environment) (ofText template) := rfl

/-- Environments that agree on the names of the placeholders give the same equation. -/
theorem equation_congr {template : Text} {environment environment' : Fields}
    (h : ∀ name ∈ names (ofText template), environment.field? name = environment'.field? name) :
    equation template environment = equation template environment' :=
  fill_congr fun name hname => by rw [h name hname]

theorem substitute_eq_error {environment : Fields} {name : Text} {e : Failure}
    (h : substitute environment name = .error e) :
    (∃ x, e = .engine (.expression x)) ∨
      ∃ v typeName, e = .fault (.jsonKey typeName) ∧ environment.field? name = some v ∧
        v.literal = .error (.jsonKey typeName) := by
  unfold substitute at h
  split at h
  · rename_i v hv
    unfold literalFor at h
    split at h
    · cases h
    · rename_i f hl
      split at h
      · cases h
        exact .inl ⟨_, rfl⟩
      · rename_i hk
        cases h
        rcases Value.unwritable_of_literal hl with rfl | ⟨typeName, rfl⟩
        · exact absurd (.inl rfl) hk
        · exact .inr ⟨v, typeName, rfl, hv, hl⟩
  · cases h

theorem substitute_eq_fault {environment : Fields} {name typeName : Text} {v : Value}
    (hv : environment.field? name = some v) (hl : v.literal = .error (.jsonKey typeName)) :
    substitute environment name = .error (.fault (.jsonKey typeName)) := by
  have hk : ¬ ((Fault.jsonKey typeName).kind = .value ∨ (Fault.jsonKey typeName).kind = .overflow) := by
    simp [Fault.kind]
  simp only [substitute, hv, literalFor, hl, hk, ↓reduceIte]

/-- Whether the first value of an equation that cannot be written has a key that is no key of
JSON. -/
def MeetsForeignKey (template : Text) (environment : Fields) (typeName : Text) : Prop :=
  ∃ before name after shown v, ofText template = before ++ .placeholder name :: after ∧
    fill (substitute environment) before = .ok shown ∧ environment.field? name = some v ∧
      v.literal = .error (.jsonKey typeName)

/-- An equation that cannot be written is an error of the expression, unless it meets such a key. -/
theorem equation_eq_error {template : Text} {environment : Fields} {e : Failure}
    (h : equation template environment = .error e) :
    (∃ x, e = .engine (.expression x)) ∨
      ∃ typeName, e = .fault (.jsonKey typeName) ∧ MeetsForeignKey template environment typeName := by
  rw [equation_eq_fill, fill_eq_error_iff] at h
  obtain ⟨before, name, after, shown, ht, hb, hn⟩ := h
  refine (substitute_eq_error hn).imp_right ?_
  rintro ⟨v, typeName, rfl, hv, hl⟩
  exact ⟨typeName, rfl, before, name, after, shown, v, ht, hb, hv, hl⟩

theorem MeetsForeignKey.equation_eq {template : Text} {environment : Fields} {typeName : Text}
    (h : MeetsForeignKey template environment typeName) :
    equation template environment = .error (.fault (.jsonKey typeName)) := by
  obtain ⟨before, name, after, shown, v, ht, hb, hv, hl⟩ := h
  rw [equation_eq_fill, fill_eq_error_iff]
  exact ⟨before, name, after, shown, ht, hb, substitute_eq_fault hv hl⟩

end Vetting.Template
