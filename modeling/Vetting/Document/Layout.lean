import Vetting.Document.Property
import Vetting.Document.Scalar
import Vetting.Document.Token

/-!
# Layout

The tokens of a document in the order of its marks. Columns tell where block collections begin and
end: one begins with an entry or a key further to the right than the block collections that are
open, and ends in front of the first token further to the left than it. Flow collections may
spread over lines and columns as they like.

A key is known by the colon after it, which stands on the line where the key begins and not far
from there. Until then the first token of what may be a key is a candidate; tokens from the
candidate on are not settled before the colon is read, or can no longer follow.
-/

namespace Vetting.Document

/-- What turned out to stand in front of a token. -/
inductive Opening where
  | nothing
  /-- A key begins with the token. -/
  | key
  /-- A block mapping begins with the token, and its first key. -/
  | mapping

def Opening.tokens : Opening → List Token
  | nothing => []
  | key => [.key]
  | mapping => [.mappingStart, .key]

/-- A token that begins a key if a colon follows. -/
structure Candidate where
  /-- The place of the token among those that are read. -/
  index : Nat
  /-- How many marks were left in front of the token. -/
  remaining : Nat
  line : Nat
  column : Nat
  /-- Whether nothing but a key may stand there. -/
  required : Bool

/-- How far the colon may be from the beginning of its key. -/
def longestKey : Nat := 1024

/-- Whether the front of some marks comes too late for the colon of a key. -/
def Candidate.isLate (c : Candidate) : List Mark → Bool
  | [] => true
  | m :: rest => m.line ≠ c.line || longestKey < c.remaining - (rest.length + 1)

/-- The tokens read so far, and what is needed to go on. -/
structure Layout where
  entries : Array (Opening × Token)
  /-- The columns of the block collections that are open, the innermost first. -/
  columns : List Nat
  /-- The candidate in the innermost collection. -/
  candidate : Option Candidate
  /-- The candidates around the flow collections that are open, the innermost first. -/
  outer : List (Option Candidate)
  /-- Whether a key may begin with the next token. -/
  keyAllowed : Bool

namespace Layout

def start : Layout := ⟨#[], [], none, [], true⟩

def inFlow (l : Layout) : Bool := !l.outer.isEmpty

def push (l : Layout) (token : Token) : Layout :=
  { l with entries := l.entries.push (.nothing, token) }

def candidates (l : Layout) : List Candidate := (l.candidate :: l.outer).filterMap id

/-! ## Candidates -/

/-- The innermost collection without a candidate; one that has to be a key cannot go. -/
def forget (l : Layout) : Except Fault Layout :=
  if l.candidate.any (·.required) then malformed else .ok { l with candidate := none }

/-- The next token, which begins with `m`, as a candidate if a key may begin there. -/
def propose (l : Layout) (m : Mark) (rest : List Mark) : Except Fault Layout :=
  if l.keyAllowed then do
    let l ← l.forget
    let required := !l.inFlow && l.columns.head? == some m.column
    return { l with
      candidate := some ⟨l.entries.size, rest.length + 1, m.line, m.column, required⟩ }
  else .ok l

/-- The layout without the candidates for which it is too late. -/
def freshen (l : Layout) (marks : List Mark) : Except Fault Layout :=
  if l.candidates.any fun c => c.required && c.isLate marks then malformed
  else
    let fresh (c : Option Candidate) := c.filter fun c => !c.isLate marks
    .ok { l with candidate := fresh l.candidate, outer := l.outer.map fresh }

/-! ## Block collections -/

/-- The end of the innermost block collections whose columns satisfy a condition. Within flow
collections none ends. -/
def unwind (ends : Nat → Bool) (l : Layout) : Layout :=
  if l.inFlow then l
  else
    { l with
      columns := l.columns.dropWhile ends
      entries := (l.columns.takeWhile ends).foldl
        (fun entries _ => entries.push (.nothing, .blockEnd)) l.entries }

/-- Whether a column is further to the right than all block collections that are open. -/
def isDeeper (l : Layout) (column : Nat) : Bool := l.columns.head?.all (· < column)

/-- The beginning of a block collection at a column, if it is further to the right. -/
def beginBlock (l : Layout) (token : Token) (column : Nat) : Layout :=
  if l.isDeeper column then { l.push token with columns := column :: l.columns } else l

/-- The column from which on the lines of a scalar belong to it. -/
def margin (l : Layout) : Nat := (l.columns.head?.map (· + 1)).getD 0

/-- The end of all block collections, in front of a directive or the border of a document. -/
def interrupt (l : Layout) : Except Fault Layout := do
  let l ← (l.unwind fun _ => true).forget
  return { l with keyAllowed := false }

/-- A token of block collections in front of an entry, a key or a value; `start` is the token of
the collection that may begin with it. -/
def indicate (l : Layout) (m : Mark) (start token : Token) : Except Fault Layout := do
  let l ←
    if l.inFlow then pure l
    else if l.keyAllowed then pure (l.beginBlock start m.column)
    else malformed
  let l ← l.forget
  return l.push token

def entry (l : Layout) (m : Mark) : Except Fault Layout := do
  let l ← l.indicate m .sequenceStart .entry
  return { l with keyAllowed := true }

/-- A key with its sign in front of it. -/
def key (l : Layout) (m : Mark) : Except Fault Layout := do
  let l ← l.indicate m .mappingStart .key
  return { l with keyAllowed := !l.inFlow }

/-- The colon in front of a value. It makes a key of the candidate. -/
def value (l : Layout) (m : Mark) : Except Fault Layout :=
  match l.candidate with
  | some c =>
    let isFirst := !l.inFlow && l.isDeeper c.column
    let l := { l with
      columns := if isFirst then c.column :: l.columns else l.columns
      entries := l.entries.modify c.index fun e => (if isFirst then .mapping else .key, e.2)
      candidate := none
      keyAllowed := false }
    .ok (l.push .value)
  | none => do
    let l ← l.indicate m .mappingStart .value
    return { l with keyAllowed := !l.inFlow }

/-! ## Flow collections -/

def enter (l : Layout) (token : Token) : Layout :=
  { l.push token with candidate := none, outer := l.candidate :: l.outer, keyAllowed := true }

def leave (l : Layout) (token : Token) : Except Fault Layout := do
  let l ← l.forget
  return { l.push token with
    candidate := l.outer.headD none, outer := l.outer.tail, keyAllowed := false }

def separate (l : Layout) : Except Fault Layout := do
  let l ← l.forget
  return { l.push .comma with keyAllowed := true }

/-! ## Reading tokens -/

def flowToken? (l : Layout) (m : Mark) (rest : List Mark) : Option (Except Fault Layout) :=
  match m.point with
  | 91 => some ((l.propose m rest).map fun l => l.enter .openBracket)
  | 123 => some ((l.propose m rest).map fun l => l.enter .openBrace)
  | 93 => some (l.leave .closeBracket)
  | 125 => some (l.leave .closeBrace)
  | 44 => some l.separate
  | _ => none

/-- The token of a hyphen, a question mark or a colon at the front, unless a scalar begins with
it. -/
def blockToken? (l : Layout) (m : Mark) (rest : List Mark) : Option (Except Fault Layout) :=
  let stands := isBlankAt rest
  match m.point with
  | 45 => if stands then some (l.entry m) else none
  | 63 => if l.inFlow || stands then some (l.key m) else none
  | 58 => if l.inFlow || stands then some (l.value m) else none
  | _ => none

/-- A token that belongs to a node, and the marks after it. -/
def nodeToken (l : Layout) (m : Mark) (rest : List Mark) :
    Except Fault (Token × List Mark × Bool) :=
  match m.point with
  | 42 => do
    let (name, after) ← anchorName rest
    return (.alias name, after, false)
  | 38 => do
    let (name, after) ← anchorName rest
    return (.anchor name, after, false)
  | 33 => do
    let (token, after) ← tagToken m rest
    return (token, after, false)
  | 39 => do
    let ⟨(text, after), _⟩ ← singleQuoted rest
    return (.scalar false text, after, false)
  | 34 => do
    let ⟨(text, after), _⟩ ← doubleQuoted rest
    return (.scalar false text, after, false)
  | _ =>
    if beginsBare l.inFlow (m :: rest) then
      let (text, after, crossed) := bare l.inFlow l.margin (m :: rest)
      .ok (.scalar true text, after, crossed)
    else malformed

def blockScalar (l : Layout) (folded : Bool) (rest : List Mark) :
    Except Fault (Layout × List Mark) := do
  let l ← l.forget
  let (header, lines) ← blockHeader rest
  let (text, after) := block folded header (max l.margin 1) lines
  return ({ l.push (.scalar false text) with keyAllowed := true }, after)

def next (l : Layout) (m : Mark) (rest : List Mark) : Except Fault (Layout × List Mark) :=
  if m.column = 0 ∧ m.point = percentSign then do
    let l ← l.interrupt
    let (d, after) ← directive rest
    return (l.push (.directive d), after)
  else if m.column = 0 ∧ isTriple hyphen (m :: rest) then
    l.interrupt.map fun l => (l.push .documentStart, rest.drop 2)
  else if m.column = 0 ∧ isTriple fullStop (m :: rest) then
    l.interrupt.map fun l => (l.push .documentEnd, rest.drop 2)
  else
    match l.flowToken? m rest <|> l.blockToken? m rest with
    | some l => l.map fun l => (l, rest)
    | none =>
      if !l.inFlow && (m.point = 124 || m.point = 62) then l.blockScalar (m.point = 62) rest
      else do
        let l ← l.propose m rest
        let (token, after, crossed) ← l.nodeToken m rest
        return ({ l.push token with keyAllowed := crossed }, after)

/-! ## All tokens -/

def tokens (l : Layout) : List Token :=
  l.entries.toList.flatMap fun (opening, token) => opening.tokens ++ [token]

/-- The tokens that are settled in front of these marks, where a fault occurs. -/
def tokensUpTo (l : Layout) (marks : List Mark) (fault : Fault) : List Token :=
  let open? := (l.candidates.filter fun c => !c.isLate marks).map (·.index)
  let settled := open?.foldl min l.entries.size
  { l with entries := l.entries.extract 0 settled }.tokens ++ [.broken fault]

/-- The layout at the next token, after the space in front of it. A key may begin on a new line. -/
def settle (l : Layout) (marks after : List Mark) : Except Fault Layout := do
  let space := marks.take (marks.length - after.length)
  let crossed := space.any fun m => isBreak m.point
  let l ← { l with keyAllowed := l.keyAllowed || (crossed && !l.inFlow) }.freshen after
  match after with
  | [] => return l.unwind fun _ => true
  | m :: _ => return l.unwind fun column => m.column < column

/-- All tokens, those of these marks included. -/
def run (l : Layout) (marks : List Mark) : List Token :=
  let after := skip marks
  match l.settle marks after, after with
  | .error fault, _ => l.tokensUpTo marks fault
  | .ok settled, [] => settled.tokens
  | .ok settled, m :: rest =>
    match settled.next m rest with
    | .error fault => l.tokensUpTo marks fault
    | .ok (l, following) =>
      if _shorter : following.length < marks.length then l.run following
      else l.tokensUpTo marks .malformedDocument
termination_by marks.length
decreasing_by exact _shorter

end Layout

def tokens (marks : List Mark) : List Token := Layout.start.run marks

end Vetting.Document
