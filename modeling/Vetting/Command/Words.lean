import Vetting.Text.Numeral

/-!
# The words of a command line

A word is a switch, an argument or the separator `--`, after which all words are arguments. The
long name of a switch may be shortened as long as it stays unique; its value is the next word, or
follows an equals sign. The value of a short name may also follow it directly, and so may the
letters of further short names if the switch takes no value. Negative numbers and words with a
space in them are arguments.
-/

namespace Vetting.CommandLine

/-- Why a command line is not carried out: help is wanted instead, or it is wrong. -/
inductive Stop where
  | help
  | wrong
deriving DecidableEq

structure Switch where
  /-- The long name, such as `--data`. -/
  long : Text
  /-- The short name, such as `-d`; empty if there is none. -/
  short : Text
  takesValue : Bool
deriving DecidableEq

inductive WordKind where
  | argument
  | separator
  /-- A switch, with the value that is written in the same word, after switches without a value. -/
  | switch (before : List Switch) (s : Switch) (value : Option Text)
  /-- A switch with a value that it does not take. -/
  | misused
  | unknownSwitch

structure Word where
  text : Text
  kind : WordKind

def dash : CodePoint := 45
def equalsSign : CodePoint := 61

def separatorText : Text := "--"

def splitAtEquals? (t : Text) : Option (Text × Text) :=
  if t.points.contains equalsSign then
    some (⟨t.points.takeWhile (· != equalsSign)⟩, ⟨(t.points.dropWhile (· != equalsSign)).drop 1⟩)
  else none

def Switch.hasName (s : Switch) (name : Text) : Bool := s.long = name || s.short = name

/-- Whether all code points are decimal digits, and there is one. One line feed may follow. -/
def isDigits (points : List CodePoint) : Bool :=
  let rest := points.dropWhile CodePoint.isDecimal
  (points.head?.any CodePoint.isDecimal) && (rest.isEmpty || rest == [10])

/-- Whether a text is a minus sign with digits, or with a point and digits after it. -/
def isNegativeNumber (t : Text) : Bool :=
  match t.points with
  | 45 :: digits =>
    isDigits digits || (match digits.dropWhile CodePoint.isDecimal with
      | 46 :: fraction => isDigits fraction
      | _ => false)
  | _ => false

/-- The switches in a word: one with what follows its name, where it may be the first of several
short names. `before` are those already read. -/
def switchesIn (switches : List Switch) (before : List Switch) (s : Switch) (short : Bool) :
    List CodePoint → WordKind
  | [] => if s.takesValue then .switch before s (some ⟨[]⟩) else .misused
  | c :: rest =>
    if s.takesValue then .switch before s (some ⟨c :: rest⟩)
    else if !short then .misused
    else
      match switches.find? (·.hasName ⟨[dash, c]⟩) with
      | none => .misused
      | some next =>
        if rest.isEmpty then .switch (before ++ [s]) next none
        else switchesIn switches (before ++ [s]) next true rest

def isShortName (t : Text) : Bool := !separatorText.points.isPrefixOf t.points

/-- The switches that a word may mean by its beginning, with the value in the word. -/
def abbreviated (switches : List Switch) (t : Text) : List (Switch × Option Text) :=
  if separatorText.points.isPrefixOf t.points then
    let (name, value) := match splitAtEquals? t with
      | some (name, value) => (name, some value)
      | none => (t, none)
    (switches.filter fun s => name.points.isPrefixOf s.long.points).map fun s => (s, value)
  else
    (switches.filter fun s => s.short.points = t.points.take 2).map fun s =>
      (s, some ⟨t.points.drop 2⟩)

def kindOf (switches : List Switch) (t : Text) : Except Stop WordKind :=
  if t.points.head? != some dash then .ok .argument
  else
    match switches.find? (·.hasName t) with
    | some s => .ok (.switch [] s none)
    | none =>
      if t.length = 1 then .ok .argument
      else
        let named := (splitAtEquals? t).bind fun parts =>
          (switches.find? (·.hasName parts.1)).map fun s => (s, parts.2)
        let wordOf (s : Switch) (value : Option Text) : WordKind :=
          match value with
          | some value => switchesIn switches [] s (isShortName t) value.points
          | none => .switch [] s none
        match named, abbreviated switches t with
        | some (s, value), _ => .ok (wordOf s (some value))
        | none, [(s, value)] => .ok (wordOf s value)
        | none, [] =>
          .ok (if isNegativeNumber t ∨ t.points.contains 32 then .argument else .unknownSwitch)
        | none, _ => .error .wrong

def words (switches : List Switch) : List Text → Except Stop (List Word)
  | [] => .ok []
  | t :: rest =>
    if t = separatorText then .ok (⟨t, .separator⟩ :: rest.map fun u => ⟨u, .argument⟩)
    else do
      let kind ← kindOf switches t
      let others ← words switches rest
      return ⟨t, kind⟩ :: others

end Vetting.CommandLine
