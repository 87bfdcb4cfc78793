import Vetting.Expression.Limit
import Vetting.Text.Case

/-!
# Settings

Settings are nested fields. A settings file is merged over the defaults, section by section.
-/

namespace Vetting.Settings

/-- The settings that hold where a file says nothing. -/
def defaults : Fields :=
  Fields.ofNamed [
    ("engine", .object (Fields.ofNamed [
      ("language", .text "en"),
      ("default_language", .text "en"),
      ("max_expression_depth", .integer 32),
      ("max_expression_length", .integer 10000)])),
    ("logging", .object (Fields.ofNamed [
      ("level", .text "INFO"),
      ("log_equations", .boolean false)]))]

/-! ## Merging -/

mutual

/-- The value that a change makes of an old one: objects are merged, all else is replaced. -/
def mergeValue (old : Option Value) : Value → Value
  | .object changes =>
    match old with
    | some (.object fields) => .object (merge fields changes)
    | _ => .object changes
  | v => v

def merge (fields : Fields) : Fields → Fields
  | [] => fields
  | (k, v) :: rest => merge (fields.put k (mergeValue (fields.get? k) v)) rest

end

/-! ## Looking up -/

/-- The value at the end of a path of keys. -/
def find? (v : Value) : List Text → Option Value
  | [] => some v
  | key :: path =>
    match v with
    | .object fields =>
      match Fields.field? fields key with
      | some inner => find? inner path
      | none => none
    | _ => none

def nested? (settings : Fields) (path : Text) : Option Value :=
  find? (.object settings) (path.split 46)

def nested (settings : Fields) (path : Text) (default : Value) : Value :=
  (nested? settings path).getD default

def member (v : Value) (name : Text) : Except Fault Value :=
  match v with
  | .object fields =>
    match Fields.field? fields name with
    | some inner => .ok inner
    | none => .error (.missingSetting name)
  | _ => .error .missingAttribute

/-! ## Settings that the engine reads -/

def maximumDepth (settings : Fields) : Value :=
  nested settings "engine.max_expression_depth" (.integer 32)

def maximumLength (settings : Fields) : Value :=
  nested settings "engine.max_expression_length" (.integer 10000)

def limits (settings : Fields) : Limits := ⟨maximumDepth settings, maximumLength settings⟩

def language (settings : Fields) : Value := nested settings "engine.language" (.text "en")

def defaultLanguage (settings : Fields) : Value :=
  nested settings "engine.default_language" (.text "en")

def logsEquations (settings : Fields) : Bool :=
  (nested settings "logging.log_equations" (.boolean false)).isSet

/-! ## Problems -/

/-- Whether a value is an integer of at least one; true counts as one. -/
def isPositive : Value → Bool
  | .number (.integer i) => 1 ≤ i
  | .boolean b => b
  | _ => false

def levelNames : List Text := ["DEBUG", "INFO", "WARNING", "ERROR", "CRITICAL"]

/-- The problems of settings, in a fixed order. -/
def problems (settings : Fields) : Except Fault (List Text) := do
  let engine ← member (.object settings) "engine"
  match engine with
  | .object engine => do
    let get (name : Text) : Value := (Fields.field? engine name).getD .null
    let shown ← (nested settings "logging.level" (.text "INFO")).display
    let level := shown.toUpper
    return (if (get "language").isSet then [] else [("engine.language is not set" : Text)])
      ++ (if (get "default_language").isSet then []
          else [("engine.default_language is not set" : Text)])
      ++ (if isPositive (get "max_expression_depth") then []
          else [("engine.max_expression_depth must be a positive integer" : Text)])
      ++ (if isPositive (get "max_expression_length") then []
          else [("engine.max_expression_length must be a positive integer" : Text)])
      ++ (if level ∈ levelNames then [] else ["logging.level has unknown value " ++ level.quoted])
  | _ => throw .missingAttribute

/-- The settings of a file's content, which counts as empty if it is null or the like. -/
def ofContent (content : Value) : Except Fault Fields :=
  if !content.isSet then .ok defaults
  else
    match content with
    | .object fields => .ok (merge defaults fields)
    | _ => .error .missingAttribute

end Vetting.Settings
