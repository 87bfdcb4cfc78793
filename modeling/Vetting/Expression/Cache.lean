import Vetting.Expression.Source
import Vetting.Value.Key

/-!
# Parsing with a cache

Trees of texts that were parsed lately are kept, under the text and the limits in force. Only
limits that are integers are cached for, and errors are never kept.
-/

namespace Vetting

/-- A text that was parsed within these limits. -/
structure ParsedText where
  text : Text
  depth : Int
  length : Int
  tree : Node

def ParsedText.isFor (e : ParsedText) (text : Text) (depth length : Int) : Bool :=
  e.text = text && e.depth = depth && e.length = length

/-- The texts that were parsed lately, the last one first. -/
structure ParseCache where
  entries : List ParsedText

namespace ParseCache

def empty : ParseCache := ⟨[]⟩

def size : Nat := 512

/-- The cache with an entry in front; the oldest one may have to go. -/
def insert (cache : ParseCache) (e : ParsedText) : ParseCache :=
  ⟨(e :: cache.entries.filter fun old => !old.isFor e.text e.depth e.length).take size⟩

/-- The tree of a text within integer limits. -/
def parseInteger (capacity : Nat) (cache : ParseCache) (text : Text) (depth length : Int) :
    Except Failure Node × ParseCache :=
  match cache.entries.find? fun e => e.isFor text depth length with
  | some e => (.ok e.tree, cache.insert e)
  | none =>
    match Expression.parseText capacity ⟨.integer depth, .integer length⟩ text with
    | .ok tree => (.ok tree, cache.insert ⟨text, depth, length, tree⟩)
    | .error e => (.error e, cache)

/-- The tree of a text within the configured limits, which must be able to be keys. -/
def parse (capacity : Nat) (cache : ParseCache) (limits : Limits) (text : Text) :
    Except Failure Node × ParseCache :=
  match limits with
  | ⟨.number (.integer depth), .number (.integer length)⟩ =>
    cache.parseInteger capacity text depth length
  | ⟨depth, length⟩ =>
    match depth.checkKey, length.checkKey with
    | .ok _, .ok _ => (Expression.parseText capacity limits text, cache)
    | .error f, _ | _, .error f => (.error (.fault f), cache)

end ParseCache
end Vetting
