import Vetting.Document.Resolution
import Vetting.Document.Token

/-!
# The tree of a document

The tree that the tokens of a document make. Every node has a tag: the one that is written, or the
one that follows from its form. A node may have a name, by which it can stand again further on; it
cannot stand within itself.

A mapping may take over the pairs of other mappings, under a key with the tag of merging: of one
mapping, or of a sequence of mappings, the first of which counts most. Its own pairs count more
than those.
-/

namespace Vetting.Document

/-- The tree of a document. Scalars are not interpreted. -/
inductive Tree where
  | scalar (tag : Tag) (text : List CodePoint)
  | sequence (tag : Tag) (items : List Tree)
  /-- A mapping with the pairs that are written, and all of its pairs once it has taken over those
  of others; there are none if what it shall take over are no mappings. -/
  | mapping (tag : Tag) (written : List (Tree × Tree)) (all : Option (List (Tree × Tree)))

namespace Tree

def missing : Tree := .scalar .null []

def tag : Tree → Tag
  | scalar tag _ | sequence tag _ | mapping tag _ _ => tag

def pairs? : Tree → Option (List (Tree × Tree))
  | mapping _ _ all => all
  | _ => none

def takenFrom? : Tree → Option (List (Tree × Tree))
  | sequence _ items => (items.mapM pairs?).map fun parts => parts.reverse.flatten
  | node => node.pairs?

/-- A key of a mapping; the key of the scalar that the mapping stands for is a text here. -/
def asKey : Tree → Tree
  | scalar .value text => .scalar .text text
  | node => node

def ofPairs (tag : Tag) (pairs : List (Tree × Tree)) : Tree :=
  let taken := (pairs.filter fun pair => pair.1.tag = .merge).mapM fun pair => pair.2.takenFrom?
  let own := (pairs.filter fun pair => pair.1.tag ≠ .merge).map fun pair => (pair.1.asKey, pair.2)
  .mapping tag pairs (taken.map fun parts => parts.flatten ++ own)

/-- The text of the scalar that a node is or stands for. -/
def scalarText? : Tree → Option (List CodePoint)
  | scalar _ text => some text
  | sequence .. => none
  | mapping _ written _ => valueIn? written
where
  /-- The text of the scalar under the first key with the tag of such scalars. -/
  valueIn? : List (Tree × Tree) → Option (List CodePoint)
    | [] => none
    | (key, node) :: rest => if key.tag = .value then node.scalarText? else valueIn? rest

end Tree

/-! ## Names and tags of nodes -/

def unexpected {α : Type} : List Token → Except Fault α
  | .broken fault :: _ => .error fault
  | _ => malformed

/-- What the handles of tags stand for. -/
abbrev Handles := List (List CodePoint × List CodePoint)

/-- The handles of every document. -/
def commonHandles : Handles := [([33], [33]), ([33, 33], commonStem.points)]

/-- What stands in front of a node: its name and its tag, in either order. -/
structure Properties where
  anchor : Option (List CodePoint)
  tag : Option (Option (List CodePoint) × List CodePoint)

def takeProperties : List Token → Properties × List Token
  | .anchor name :: .tag handle part :: rest => (⟨some name, some (handle, part)⟩, rest)
  | .tag handle part :: .anchor name :: rest => (⟨some name, some (handle, part)⟩, rest)
  | .anchor name :: rest => (⟨some name, none⟩, rest)
  | .tag handle part :: rest => (⟨none, some (handle, part)⟩, rest)
  | tokens => (⟨none, none⟩, tokens)

/-- The tag of a node as written. -/
inductive WrittenTag where
  | nothing
  /-- The exclamation mark, with which even a scalar in quotes is what it looks like. -/
  | unspecific
  | named (tag : Tag)

/-- The tag in the properties of a node; its handle must be known. Only after a tag on its own is
the next of the tokens `rest` looked at before. -/
def Properties.writtenTag (p : Properties) (handles : Handles) (rest : List Token) :
    Except Fault WrittenTag :=
  match p.tag with
  | none => .ok .nothing
  | some (none, name) => .ok (ofName name)
  | some (some handle, part) =>
    match handles.lookup handle with
    | some stem => .ok (ofName (stem ++ part))
    | none => if p.anchor.isNone then unexpected rest else malformed
where
  ofName (name : List CodePoint) : WrittenTag :=
    if name = [33] then .unspecific else .named (Tag.ofName name)

def WrittenTag.forScalar (isBare : Bool) (text : List CodePoint) : WrittenTag → Tag
  | nothing => if isBare then tagOf text else .text
  | unspecific => tagOf text
  | named tag => tag

def WrittenTag.forCollection (usual : Tag) : WrittenTag → Tag
  | named tag => tag
  | _ => usual

/-- The nodes that have a name; a node that is not complete has none yet. -/
abbrev Anchors := List (List CodePoint × Option Tree)

/-- The anchors with the name of a node, which must be new. -/
def Anchors.claim (anchors : Anchors) : Option (List CodePoint) → Except Fault Anchors
  | none => .ok anchors
  | some name =>
    if (anchors.lookup name).isSome then malformed else .ok ((name, none) :: anchors)

/-- The anchors once the node with a name is complete. -/
def Anchors.complete (anchors : Anchors) (name : Option (List CodePoint)) (node : Tree) : Anchors :=
  match name with
  | none => anchors
  | some name => (name, some node) :: anchors

/-! ## From tokens to nodes -/

/-- A result with the anchors and the tokens after it, of which there are fewer. -/
abbrev Composing (α : Type) (tokens : List Token) :=
  Except Fault { r : α × Anchors × List Token // r.2.2.length < tokens.length }

/-- The same, but tokens need not have been taken. -/
abbrev ComposingMore (α : Type) (tokens : List Token) :=
  Except Fault { r : α × Anchors × List Token // r.2.2.length ≤ tokens.length }

/-- Where a node stands, which tells what else than a scalar or flow collection it may be. -/
inductive Place where
  | flow
  | block
  /-- The key or the value of a block mapping, where entries need not be further to the right. -/
  | pair
deriving DecidableEq

/-- Whether a token begins a node in a place, or is a fault. -/
def Place.admits (place : Place) : Token → Bool
  | .scalar .. | .openBracket | .openBrace | .broken _ => true
  | .sequenceStart | .mappingStart => place ≠ .flow
  | .entry => place = .pair
  | _ => false

/-- Whether a token ends an entry of a sequence without brackets. -/
def endsEntry : Token → Bool
  | .entry | .key | .value | .blockEnd => true
  | _ => false

/-- Whether a token ends a key or a value of a mapping without braces. -/
def endsPair : Token → Bool
  | .key | .value | .blockEnd => true
  | _ => false

/-- Whether a token ends a key or a value in a flow collection. -/
def endsFlow : Token → Bool
  | .value | .comma | .closeBracket | .closeBrace => true
  | _ => false

mutual

/-- The node at the front, without its properties. -/
def content (handles : Handles) (name : Option (List CodePoint)) (tag : WrittenTag)
    (anchors : Anchors) (tokens : List Token) : Composing Tree tokens :=
  match tokens with
  | .scalar isBare text :: rest => do
    let anchors ← anchors.claim name
    let node := Tree.scalar (tag.forScalar isBare text) text
    return ⟨(node, anchors.complete name node, rest), Nat.lt_succ_self _⟩
  | .openBracket :: rest => do
    let anchors ← anchors.claim name
    let ⟨(items, anchors, after), shorter⟩ ← flowItems handles anchors rest
    let node := Tree.sequence (tag.forCollection .sequence) items
    return ⟨(node, anchors.complete name node, after), Nat.lt_succ_of_lt shorter⟩
  | .openBrace :: rest => do
    let anchors ← anchors.claim name
    let ⟨(pairs, anchors, after), shorter⟩ ← flowPairs handles anchors rest
    let node := Tree.ofPairs (tag.forCollection .mapping) pairs
    return ⟨(node, anchors.complete name node, after), Nat.lt_succ_of_lt shorter⟩
  | .sequenceStart :: rest => do
    let anchors ← anchors.claim name
    let ⟨(items, anchors, after), shorter⟩ ← blockEntries handles anchors rest
    let node := Tree.sequence (tag.forCollection .sequence) items
    return ⟨(node, anchors.complete name node, after), Nat.lt_succ_of_lt shorter⟩
  | .mappingStart :: rest => do
    let anchors ← anchors.claim name
    let ⟨(pairs, anchors, after), shorter⟩ ← blockPairs handles anchors rest
    let node := Tree.ofPairs (tag.forCollection .mapping) pairs
    return ⟨(node, anchors.complete name node, after), Nat.lt_succ_of_lt shorter⟩
  | .entry :: rest => do
    let anchors ← anchors.claim name
    let ⟨(items, anchors, after), notLonger⟩ ← pairEntries handles anchors rest
    let node := Tree.sequence (tag.forCollection .sequence) items
    return ⟨(node, anchors.complete name node, after), Nat.lt_succ_of_le notLonger⟩
  | tokens => unexpected tokens
termination_by 4 * tokens.length
decreasing_by all_goals ((try simp only [List.length_cons] at *); omega)

/-- The node at the front. After properties it may be missing. -/
def node (handles : Handles) (place : Place) (anchors : Anchors) (tokens : List Token) :
    Composing Tree tokens :=
  match tokens with
  | .alias name :: rest =>
    match anchors.lookup name with
    | some (some node) => .ok ⟨(node, anchors, rest), Nat.lt_succ_self _⟩
    | _ => malformed
  | tokens => do
    let (properties, rest) := takeProperties tokens
    let tag ← properties.writtenTag handles rest
    if begins : rest.length ≤ tokens.length ∧ rest.head?.any place.admits then
      let ⟨result, shorter⟩ ← content handles properties.anchor tag anchors rest
      return ⟨result, Nat.lt_of_lt_of_le shorter begins.1⟩
    else if taken : rest.length < tokens.length then
      let anchors ← anchors.claim properties.anchor
      let node := Tree.scalar (tag.forScalar true []) []
      return ⟨(node, anchors.complete properties.anchor node, rest), taken⟩
    else malformed
termination_by 4 * tokens.length + 1
decreasing_by omega

/-- The node at the front, which is missing if the token there ends it. -/
def nodeOrMissing (handles : Handles) (place : Place) (ends : Token → Bool) (anchors : Anchors)
    (tokens : List Token) : ComposingMore Tree tokens := do
  if tokens.head?.any ends then
    return ⟨(Tree.missing, anchors, tokens), Nat.le_refl _⟩
  else
    let ⟨result, shorter⟩ ← node handles place anchors tokens
    return ⟨result, Nat.le_of_lt shorter⟩
termination_by 4 * tokens.length + 2
decreasing_by omega

def blockEntries (handles : Handles) (anchors : Anchors) (tokens : List Token) :
    Composing (List Tree) tokens :=
  match tokens with
  | .blockEnd :: rest => .ok ⟨([], anchors, rest), Nat.lt_succ_self _⟩
  | .entry :: rest => do
    let ⟨(first, anchors, after), notLonger⟩ ←
      nodeOrMissing handles .block endsEntry anchors rest
    let ⟨(others, anchors, last), shorter⟩ ← blockEntries handles anchors after
    return ⟨(first :: others, anchors, last),
      Nat.lt_succ_of_lt (Nat.lt_of_lt_of_le shorter notLonger)⟩
  | tokens => unexpected tokens
termination_by 4 * tokens.length + 3
decreasing_by all_goals ((try simp only [List.length_cons] at *); omega)

/-- The entries of a sequence in a block mapping; the first hyphen is already taken. -/
def pairEntries (handles : Handles) (anchors : Anchors) (tokens : List Token) :
    ComposingMore (List Tree) tokens := do
  let ⟨(first, anchors, after), notLonger⟩ ← nodeOrMissing handles .block endsEntry anchors tokens
  match after, notLonger with
  | .entry :: next, notLonger =>
    let ⟨(others, anchors, last), notLonger'⟩ ← pairEntries handles anchors next
    return ⟨(first :: others, anchors, last),
      Nat.le_trans notLonger' (Nat.le_trans (Nat.le_succ _) notLonger)⟩
  | .broken fault :: _, _ => .error fault
  | after, notLonger => return ⟨([first], anchors, after), notLonger⟩
termination_by 4 * tokens.length + 3
decreasing_by all_goals ((try simp only [List.length_cons] at *); omega)

/-- The value of a key, which is missing if there is no colon. -/
def valueOrMissing (handles : Handles) (place : Place) (ends : Token → Bool) (anchors : Anchors)
    (tokens : List Token) : ComposingMore Tree tokens :=
  match tokens with
  | .value :: rest => do
    let ⟨result, notLonger⟩ ← nodeOrMissing handles place ends anchors rest
    return ⟨result, Nat.le_succ_of_le notLonger⟩
  | .broken fault :: _ => .error fault
  | tokens => .ok ⟨(Tree.missing, anchors, tokens), Nat.le_refl _⟩
termination_by 4 * tokens.length + 3
decreasing_by all_goals ((try simp only [List.length_cons] at *); omega)

def blockPairs (handles : Handles) (anchors : Anchors) (tokens : List Token) :
    Composing (List (Tree × Tree)) tokens :=
  match tokens with
  | .blockEnd :: rest => .ok ⟨([], anchors, rest), Nat.lt_succ_self _⟩
  | .key :: rest => do
    let ⟨(key, anchors, after), notLonger⟩ ← nodeOrMissing handles .pair endsPair anchors rest
    let ⟨(value, anchors, next), notLonger'⟩ ← valueOrMissing handles .pair endsPair anchors after
    let ⟨(others, anchors, last), shorter⟩ ← blockPairs handles anchors next
    return ⟨((key, value) :: others, anchors, last),
      Nat.lt_succ_of_lt (Nat.lt_of_lt_of_le shorter (Nat.le_trans notLonger' notLonger))⟩
  | tokens => unexpected tokens
termination_by 4 * tokens.length + 3
decreasing_by all_goals ((try simp only [List.length_cons] at *); omega)

/-- The key and the value of a pair in a flow collection; the token of the key is already taken. -/
def flowPair (handles : Handles) (anchors : Anchors) (tokens : List Token) :
    ComposingMore (Tree × Tree) tokens := do
  let ⟨(key, anchors, after), notLonger⟩ ← nodeOrMissing handles .flow endsFlow anchors tokens
  let ⟨(value, anchors, last), notLonger'⟩ ← valueOrMissing handles .flow endsFlow anchors after
  return ⟨((key, value), anchors, last), Nat.le_trans notLonger' notLonger⟩
termination_by 4 * tokens.length + 4
decreasing_by all_goals ((try simp only at *); omega)

/-- The items of a flow sequence up to its end. A pair among them is a mapping of its own. -/
def flowItems (handles : Handles) (anchors : Anchors) (tokens : List Token) :
    Composing (List Tree) tokens :=
  match tokens with
  | .closeBracket :: rest => .ok ⟨([], anchors, rest), Nat.lt_succ_self _⟩
  | .key :: rest => do
    let ⟨(pair, anchors, after), notLonger⟩ ← flowPair handles anchors rest
    let ⟨(others, anchors, last), shorter⟩ ← moreItems handles anchors after
    return ⟨(Tree.ofPairs .mapping [pair] :: others, anchors, last),
      Nat.lt_succ_of_lt (Nat.lt_of_lt_of_le shorter notLonger)⟩
  | tokens => do
    let ⟨(first, anchors, after), shorter⟩ ← node handles .flow anchors tokens
    let ⟨(others, anchors, last), shorter'⟩ ← moreItems handles anchors after
    return ⟨(first :: others, anchors, last), Nat.lt_trans shorter' shorter⟩
termination_by 4 * tokens.length + 2
decreasing_by all_goals ((try simp only [List.length_cons] at *); omega)

def moreItems (handles : Handles) (anchors : Anchors) (tokens : List Token) :
    Composing (List Tree) tokens :=
  match tokens with
  | .closeBracket :: rest => .ok ⟨([], anchors, rest), Nat.lt_succ_self _⟩
  | .comma :: rest => do
    let ⟨result, shorter⟩ ← flowItems handles anchors rest
    return ⟨result, Nat.lt_succ_of_lt shorter⟩
  | tokens => unexpected tokens
termination_by 4 * tokens.length
decreasing_by all_goals ((try simp only [List.length_cons] at *); omega)

/-- The pairs of a flow mapping up to its end. A node that is no key has no value. -/
def flowPairs (handles : Handles) (anchors : Anchors) (tokens : List Token) :
    Composing (List (Tree × Tree)) tokens :=
  match tokens with
  | .closeBrace :: rest => .ok ⟨([], anchors, rest), Nat.lt_succ_self _⟩
  | .key :: rest => do
    let ⟨(pair, anchors, after), notLonger⟩ ← flowPair handles anchors rest
    let ⟨(others, anchors, last), shorter⟩ ← morePairs handles anchors after
    return ⟨(pair :: others, anchors, last),
      Nat.lt_succ_of_lt (Nat.lt_of_lt_of_le shorter notLonger)⟩
  | tokens => do
    let ⟨(key, anchors, after), shorter⟩ ← node handles .flow anchors tokens
    let ⟨(others, anchors, last), shorter'⟩ ← morePairs handles anchors after
    return ⟨((key, Tree.missing) :: others, anchors, last), Nat.lt_trans shorter' shorter⟩
termination_by 4 * tokens.length + 2
decreasing_by all_goals ((try simp only [List.length_cons] at *); omega)

def morePairs (handles : Handles) (anchors : Anchors) (tokens : List Token) :
    Composing (List (Tree × Tree)) tokens :=
  match tokens with
  | .closeBrace :: rest => .ok ⟨([], anchors, rest), Nat.lt_succ_self _⟩
  | .comma :: rest => do
    let ⟨result, shorter⟩ ← flowPairs handles anchors rest
    return ⟨result, Nat.lt_succ_of_lt shorter⟩
  | tokens => unexpected tokens
termination_by 4 * tokens.length
decreasing_by all_goals ((try simp only [List.length_cons] at *); omega)

end

/-! ## Whole documents -/

def isBorder : Token → Bool
  | .directive _ | .documentStart | .documentEnd => true
  | _ => false

/-- The handles that directives make known, besides those of every document, and the tokens after
the directives. Only the first version of the language is known. -/
def readDirectives (versioned : Bool) (handles : Handles) :
    List Token → Except Fault (Handles × List Token)
  | .directive (.version major) :: rest =>
    if versioned ∨ major ≠ 1 then malformed else readDirectives true handles rest
  | .directive (.handle name stem) :: rest =>
    if (handles.lookup name).isSome then malformed
    else readDirectives versioned ((name, stem) :: handles) rest
  | .directive .other :: rest => readDirectives versioned handles rest
  | tokens => .ok (handles ++ commonHandles, tokens)

/-- The root of the document that begins at the front, and the tokens after it. Only a document
with a border in front of it may be empty. -/
def root (tokens : List Token) : Except Fault (Tree × List Token) := do
  match tokens with
  | .directive _ :: _ | .documentStart :: _ =>
    match ← readDirectives false [] tokens with
    | (handles, .documentStart :: rest) =>
      if rest.head?.all isBorder then return (Tree.missing, rest) else rootNode handles rest
    | (_, rest) => unexpected rest
  | tokens => rootNode commonHandles tokens
where
  /-- The node that is the root of a document. -/
  rootNode (handles : Handles) (tokens : List Token) : Except Fault (Tree × List Token) := do
    let ⟨(tree, _, rest), _⟩ ← node handles .block [] tokens
    return (tree, rest)

def isDocumentEnd : Token → Bool
  | .documentEnd => true
  | _ => false

/-- The tree of the only document that these tokens make, if there is one. -/
def tree? (tokens : List Token) : Except Fault (Option Tree) := do
  if tokens.isEmpty then return none
  else
    let (tree, rest) ← root tokens
    match rest.dropWhile isDocumentEnd with
    | [] => return some tree
    | rest => unexpected rest

end Vetting.Document
