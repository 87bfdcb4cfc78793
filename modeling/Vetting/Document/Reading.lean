import Vetting.Document.Layout
import Vetting.Document.Tree
import Vetting.Text.Base64
import Vetting.Value.Display
import Vetting.Value.Key

/-!
# Reading documents

The value of a document is that of its tree: sequences are arrays, mappings are objects, and
scalars are what their tags say. A collection cannot be a key; of two equal keys the later one
counts.

The nodes of a tree are read level by level, and so the fault of a document is the first one of
the highest level that has any.
-/

namespace Vetting.Document

/-! ## Scalars -/

def trueTexts : List Text := ["yes", "true", "on"]
def falseTexts : List Text := ["no", "false", "off"]

/-- The boolean that a scalar writes, in small or capital letters. -/
def booleanOf (points : List CodePoint) : Except Fault Bool :=
  let text := Text.toLower ⟨points⟩
  if text ∈ trueTexts then .ok true
  else if text ∈ falseTexts then .ok false
  else .error (.notABoolean text)

def octetsOf (points : List CodePoint) : Except Fault (List Nat) :=
  if points.any (127 < ·) then malformed
  else
    match Text.octetsOfBase64? points with
    | some octets => .ok octets
    | none => malformed

def scalarValue (points : List CodePoint) : Tag → Except Fault Value
  | .null => .ok .null
  | .boolean => (booleanOf points).map .boolean
  | .integer => (integerOf points).map .integer
  | .float => (floatOf points).map .float
  | .octets => (octetsOf points).map fun octets => .foreign (.bytes octets)
  | .moment => (momentOf points).map .foreign
  | .text => .ok (.text ⟨points⟩)
  | _ => malformed

/-! ## Levels -/

/-- A result, or a fault with its level below the node that is read. -/
abbrev Leveled (α : Type) := Except (Nat × Fault) α

/-- What fails at the level of the node itself. -/
def atOnce {α : Type} (result : Except Fault α) : Leveled α :=
  result.mapError fun fault => (0, fault)

/-- What is read one level further down. -/
def below {α : Type} (result : Leveled α) : Leveled α :=
  result.mapError fun (level, fault) => (level + 1, fault)

/-- Both of two results; of two faults the one of the higher level counts, else the first. -/
def both {α β : Type} : Leveled α → Leveled β → Leveled (α × β)
  | .ok a, .ok b => .ok (a, b)
  | .error (m, f), .error (n, g) => .error (if n < m then (n, g) else (m, f))
  | .error fault, .ok _ | .ok _, .error fault => .error fault

/-! ## Trees -/

/-- Whether nodes with a tag are read one level further down than they stand. -/
def Tag.isCollection : Tag → Bool
  | sequence | mapping | set | pairs => true
  | _ => false

/-- The fields with one key set; every NaN is the same key here. -/
def putField (fields : Fields) (key value : Value) : Fields :=
  match key with
  | .number (.float .nan) =>
    let isSame (field : Value × Value) : Bool :=
      match field.1 with
      | .number (.float .nan) => true
      | _ => false
    if fields.any isSame then
      fields.map fun field => if isSame field then (field.1, value) else field
    else fields ++ [(key, value)]
  | _ => fields.put key value

def fieldsOf (pairs : List (Value × Value)) : Fields :=
  pairs.foldl (fun fields pair => putField fields pair.1 pair.2) []

def setOf (pairs : List (Value × Value)) : Value :=
  .foreign (.set ((fieldsOf pairs).map fun field => (field.1.inspect.toOption).getD Text.empty))

mutual

def Tree.value : Tree → Leveled Value
  | .scalar tag text =>
    if tag.isCollection then below (atOnce malformed) else atOnce (scalarValue text tag)
  | .sequence tag items =>
    match tag with
    | .sequence => (below (valuesOf items)).map .array
    | .pairs => (below (tuplesOf items)).map .array
    | .mapping | .set => below (atOnce malformed)
    | _ => atOnce malformed
  | .mapping tag written all =>
    match tag, all with
    | .mapping, some all => (below (pairsOf all)).map fun pairs => .object (fieldsOf pairs)
    | .set, some all => (below (pairsOf all)).map setOf
    | .mapping, none | .set, none | .sequence, _ | .pairs, _ => below (atOnce malformed)
    | _, _ =>
      match Tree.scalarText?.valueIn? written with
      | none => atOnce malformed
      | some text =>
        atOnce (if tag = .moment then .error (.notText "list") else scalarValue text tag)

def valuesOf : List Tree → Leveled (List Value)
  | [] => .ok []
  | item :: rest => (both item.value (valuesOf rest)).map fun (first, others) => first :: others

/-- The pairs of keys and values; no key may be a collection. -/
def pairsOf : List (Tree × Tree) → Leveled (List (Value × Value))
  | [] => .ok []
  | (key, item) :: rest =>
    let key : Leveled Value := if key.tag.isCollection then atOnce malformed else key.value
    (both (both key item.value) (pairsOf rest)).map fun (first, others) => first :: others

/-- The tuples of mappings with one pair each, which may have any key. -/
def tuplesOf : List Tree → Leveled (List Value)
  | [] => .ok []
  | .mapping _ [(key, item)] _ :: rest =>
    (both (both key.value item.value) (tuplesOf rest)).map
      fun ((k, v), others) => .tuple [k, v] :: others
  | _ :: _ => atOnce malformed

end

def read (text : Text) : Except Fault Value := do
  if !text.points.all isAllowed then malformed
  else
    let points := unifyBreaks text.points
    let points := if points.head? = some orderMark then points.drop 1 else points
    match ← tree? (tokens (placeFrom 0 0 points)) with
    | none => return .null
    | some tree => tree.value.mapError (·.2)

end Vetting.Document
