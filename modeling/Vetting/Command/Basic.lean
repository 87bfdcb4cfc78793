import Vetting.Command.Words

/-!
# Commands

There are three commands: to validate a record against criteria, to evaluate an equation over
records, and to list the functions of expressions.
-/

namespace Vetting

inductive Command where
  /-- Validates the record in a file against the criteria in another one. A query also prints the
  resolved record. -/
  | validate (criteria data : Text) (language : Option Text) (query : Bool)
  /-- Evaluates an equation over the records in files, or validates the first one for it. -/
  | equation (template : Text) (criteria : Option Text) (data : List Text)
      (language : Option Text) (validate : Bool)
  | functions

/-- A command, and the id under which it is logged. -/
structure Invocation where
  evaluationId : Option Text
  command : Command

def Command.name : Command → Text
  | validate .. => "validate"
  | equation .. => "equation"
  | functions => "functions"

def Command.paths : Command → List Text
  | validate criteria data _ _ => [criteria, data]
  | equation _ criteria data _ _ => criteria.toList ++ data
  | functions => []

namespace CommandLine

/-! ## Switches -/

def help : Switch := ⟨"--help", "-h", false⟩
def evaluationId : Switch := ⟨"--evaluation-id", "", true⟩
def criteria : Switch := ⟨"--criteria", "-c", true⟩
def data : Switch := ⟨"--data", "-d", true⟩
def language : Switch := ⟨"--language", "-l", true⟩
def query : Switch := ⟨"--query", "", false⟩
def validate : Switch := ⟨"--validate", "", false⟩

/-- What was given: switches with their values, arguments, and whether there was anything else. -/
structure Given where
  switches : List (Switch × Text)
  arguments : List Text
  strays : Bool

namespace Given

def empty : Given := ⟨[], [], false⟩

def add (given : Given) (s : Switch) (value : Text) : Given :=
  { given with switches := given.switches ++ [(s, value)] }

def has (given : Given) (s : Switch) : Bool := given.switches.any fun g => g.1 = s

def values (given : Given) (s : Switch) : List Text :=
  (given.switches.filter fun g => g.1 = s).map (·.2)

/-- The value of a switch; the last one counts. -/
def value? (given : Given) (s : Switch) : Option Text := (given.values s).getLast?

end Given

/-- Where one is between two words. -/
inductive Place where
  | anywhere
  /-- After a switch that needs a value, and after switches that wait for it. -/
  | before (waiting : List Switch) (s : Switch)
  | afterArgument

def takeFlags (given : Given) : List Switch → Except Stop Given
  | [] => .ok given
  | s :: rest => if s = help then .error .help else takeFlags (given.add s "") rest

/-- What is given after a switch with its value, and the switches that waited for it. -/
def takeValue (given : Given) (waiting : List Switch) (s : Switch) (value : Text) :
    Except Stop Given := do
  let given ← takeFlags given waiting
  return given.add s value

/-- What is given after the switches of a word, and the place after them. -/
def takeSwitch (given : Given) (waiting : List Switch) (s : Switch) (value : Option Text) :
    Except Stop (Given × Place) :=
  match value with
  | some v => do
    let given ← takeValue given waiting s v
    return (given, .anywhere)
  | none =>
    if s.takesValue then .ok (given, .before waiting s)
    else do
      let given ← takeFlags given (waiting ++ [s])
      return (given, .anywhere)

/-- Reads the words of a command that takes `room` more arguments. The separator belongs to the
argument that it follows or precedes. -/
def read (room : Nat) (place : Place) (given : Given) : List Word → Except Stop Given
  | [] =>
    match place with
    | .before .. => .error .wrong
    | _ => .ok given
  | ⟨text, kind⟩ :: rest =>
    match place, kind with
    | .before waiting s, .argument => do
      let given ← takeValue given waiting s text
      read room .anywhere given rest
    | .before .., _ | _, .misused => .error .wrong
    | _, .switch waiting s value => do
      let (given, place) ← takeSwitch given waiting s value
      read room place given rest
    | _, .unknownSwitch => read room .anywhere { given with strays := true } rest
    | .afterArgument, .separator => read room .anywhere given rest
    | .anywhere, .separator =>
      read room .anywhere { given with strays := given.strays || room == 0 } rest
    | _, .argument =>
      match room with
      | 0 => read 0 .anywhere { given with strays := true } rest
      | room + 1 =>
        read room .afterArgument { given with arguments := given.arguments ++ [text] } rest

/-- The words of a command, all of which must have been used. -/
def readAll (switches : List Switch) (room : Nat) (texts : List Text) : Except Stop Given := do
  let words ← words (help :: switches) texts
  read room .anywhere Given.empty words

/-- What is given, unless something required is missing or there is anything else. -/
def settle (given : Given) (command : Option Command) : Except Stop Command :=
  match command with
  | some command => if given.strays then .error .wrong else .ok command
  | none => .error .wrong

/-! ## Commands -/

def readValidate (texts : List Text) : Except Stop Command := do
  let given ← readAll [criteria, data, language, query] 0 texts
  settle given do
    let file ← given.value? criteria
    let record ← given.value? data
    return .validate file record (given.value? language) (given.has query)

def readEquation (texts : List Text) : Except Stop Command := do
  let given ← readAll [criteria, data, language, validate] 1 texts
  settle given do
    let template ← given.arguments.head?
    return .equation template (given.value? criteria) (given.values data) (given.value? language)
      (given.has validate)

def readFunctions (texts : List Text) : Except Stop Command := do
  let given ← readAll [] 0 texts
  settle given (some .functions)

def readCommand (name : Text) (texts : List Text) : Except Stop Command :=
  if name = "validate" then readValidate texts
  else if name = "equation" then readEquation texts
  else if name = "functions" then readFunctions texts
  else .error .wrong

def readInvocation (place : Place) (given : Given) : List Word → Except Stop Invocation
  | [] => .error .wrong
  | ⟨text, kind⟩ :: rest =>
    match place, kind with
    | .before waiting s, .argument => do
      let given ← takeValue given waiting s text
      readInvocation .anywhere given rest
    | .before .., _ | _, .misused | _, .separator => .error .wrong
    | _, .switch waiting s value => do
      let (given, place) ← takeSwitch given waiting s value
      readInvocation place given rest
    | _, .unknownSwitch => readInvocation .anywhere { given with strays := true } rest
    | _, .argument => do
      let command ← readCommand text (rest.map (·.text))
      let command ← settle given (some command)
      return ⟨given.value? evaluationId, command⟩

def parse (texts : List Text) : Except Stop Invocation := do
  let words ← words [help, evaluationId] texts
  readInvocation .anywhere Given.empty words

end CommandLine
end Vetting
