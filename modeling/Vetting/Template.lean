import Vetting.Error
import Vetting.Value.Equality
import Vetting.Value.Literal

/-!
# Templates

A template is text with placeholders: a name of ASCII letters, digits and underscores between
two pairs of braces. Placeholders are found from left to right; a brace that begins none is text.
Substituted text is never looked at again.
-/

namespace Vetting.Template

/-- A piece of a template. -/
inductive Piece where
  | point (c : CodePoint)
  | placeholder (name : Text)
deriving DecidableEq

def openingBrace : CodePoint := 123
def closingBrace : CodePoint := 125

/-- Whether a code point may stand in the name of a placeholder. -/
def isNamePoint (c : CodePoint) : Bool :=
  Text.isAsciiDigit c || (65 ≤ c && c ≤ 90) || (97 ≤ c && c ≤ 122) || c = 95

/-- The placeholder at the front of a text: its name. -/
def leading? (points : List CodePoint) : Option (List CodePoint) :=
  match points with
  | a :: b :: rest =>
    if a = openingBrace ∧ b = openingBrace then
      let name := rest.takeWhile isNamePoint
      if name ≠ [] ∧ (rest.dropWhile isNamePoint).take 2 = [closingBrace, closingBrace] then
        some name
      else none
    else none
  | _ => none

def pieces (points : List CodePoint) : List Piece :=
  match points with
  | [] => []
  | c :: rest =>
    match leading? (c :: rest) with
    | some name => .placeholder ⟨name⟩ :: pieces (rest.drop (name.length + 3))
    | none => .point c :: pieces rest
termination_by points.length
decreasing_by all_goals (simp; try omega)

def ofText (text : Text) : List Piece := pieces text.points

/-- The names of the placeholders, in order, as often as they occur. -/
def names (template : List Piece) : List Text :=
  template.filterMap fun piece =>
    match piece with
    | .point _ => none
    | .placeholder name => some name

def written (name : Text) : Text := "\x7b\x7b" ++ name ++ "\x7d\x7d"

def fill {ε : Type} (textOf : Text → Except ε Text) : List Piece → Except ε Text
  | [] => .ok Text.empty
  | .point c :: rest => do
    let others ← fill textOf rest
    return Text.singleton c ++ others
  | .placeholder name :: rest => do
    let shown ← textOf name
    let others ← fill textOf rest
    return shown ++ others

/-! ## The two uses of templates -/

/-- A message with its parameters. A placeholder without a parameter stays as it is. -/
def message (template : Text) (parameters : Fields) : Except Fault Text :=
  fill (fun name =>
    match parameters.field? name with
    | some v => v.toText
    | none => .ok (written name)) (ofText template)

/-- What stands for a placeholder without a value in an equation. -/
def unresolved : Text := "undefined"

def literalFor (name : Text) (v : Value) : Except Failure Text :=
  match v.literal with
  | .ok t => .ok t
  | .error f =>
    if f.kind = .value ∨ f.kind = .overflow then
      .error (.evaluation (.unwritablePlaceholder name f.message) none)
    else .error (.fault f)

def equation (template : Text) (environment : Fields) : Except Failure Text :=
  fill (fun name =>
    match environment.field? name with
    | some v => literalFor name v
    | none => .ok unresolved) (ofText template)

end Vetting.Template
