import Vetting.Text.Basic

/-!
# Tags

A tag says of what type a node of a document is. A node without a tag is a text, a sequence or a
mapping, or what a bare scalar looks like.
-/

namespace Vetting.Document

inductive Tag where
  | null
  | boolean
  | integer
  | float
  /-- Octets, written in base 64. -/
  | octets
  /-- A date, or a date and a time. -/
  | moment
  | text
  | sequence
  | mapping
  | set
  /-- A sequence of pairs, written as mappings with one key each. -/
  | pairs
  /-- The key of mappings whose pairs are taken over. -/
  | merge
  /-- The key of the scalar that a mapping stands for. -/
  | value
  /-- A tag without meaning. -/
  | other
deriving DecidableEq

/-- What the names of the common tags begin with. -/
def commonStem : Text := "tag:yaml.org,2002:"

/-- The common tags, by what follows in their names. -/
def commonTags : List (Text × Tag) := [
  ("null", .null), ("bool", .boolean), ("int", .integer), ("float", .float),
  ("binary", .octets), ("timestamp", .moment), ("str", .text), ("seq", .sequence),
  ("map", .mapping), ("set", .set), ("omap", .pairs), ("pairs", .pairs),
  ("merge", .merge), ("value", .value)]

def Tag.ofName (name : List CodePoint) : Tag :=
  let stem := commonStem.points
  if stem.isPrefixOf name then (commonTags.lookup ⟨name.drop stem.length⟩).getD .other else .other

end Vetting.Document
