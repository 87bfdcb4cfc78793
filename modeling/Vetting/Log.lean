import Vetting.Calendar.Timestamp
import Vetting.Value.JsonForm
import Vetting.Value.Order

/-!
# The log

A log collects lines. A line is readable text, or a record of named values that is written as
JSON. Every line carries the id of the evaluation it belongs to, if one is set; the records also
carry the values of the context.
-/

namespace Vetting

inductive LogLevel where
  | debug | info | warning | error | critical
deriving DecidableEq

namespace LogLevel

def rank : LogLevel → Nat
  | debug => 10
  | info => 20
  | warning => 30
  | error => 40
  | critical => 50

def name : LogLevel → Text
  | debug => "DEBUG"
  | info => "INFO"
  | warning => "WARNING"
  | error => "ERROR"
  | critical => "CRITICAL"

def everyOne : List LogLevel := [debug, info, warning, error, critical]

def ofName? (name : Text) : Option LogLevel := everyOne.find? fun level => level.name = name

end LogLevel

inductive LogLine where
  | readable (text : Text)
  | record (fields : Fields)

def LogLine.toText : LogLine → Except Fault Text
  | readable text => .ok text
  | record fields => (Value.object fields).json none

/-- Something to be logged: its level, the label that records give the level, a message and named
values. -/
structure LogEvent where
  level : LogLevel
  label : Text
  message : Text
  values : List (Text × Value)

structure Log where
  name : Text
  /-- Whether lines are records. -/
  structured : Bool
  threshold : LogLevel
  evaluationId : Value
  context : Fields
  lines : List LogLine

namespace Log

def new (name : Text) (structured : Bool) (threshold : LogLevel) : Log :=
  ⟨name, structured, threshold, .null, [], []⟩

def isEnabled (log : Log) (level : LogLevel) : Bool := log.threshold.rank ≤ level.rank

/-! ## Names -/

/-- The name under which faults know an operation of the log. -/
def operationName (operation : Text) : Text := "StructuredLogger." ++ operation

/-- Checks that no value has the name of a parameter of an operation, which is given already. -/
def checkNames (operation : Text) (parameters : List Text) (values : List (Text × Value)) :
    Except Fault Unit :=
  match values.find? fun named => named.1 ∈ parameters with
  | some (name, _) => .error (.argument (.repeated (operationName operation) name))
  | none => .ok ()

/-- Checks that no value of an event has the name of another part of the event. -/
def checkParts (values : List (Text × Value)) : Except Fault Unit :=
  checkNames "_log" ["level", "message", "log_method"] values

def addContext (log : Log) (values : List (Text × Value)) : Except Fault Log := do
  checkNames "set_context" ["self"] values
  return { log with context := log.context.putAll (Fields.ofNamed values) }

/-! ## Rendering -/

def valueTexts : List (Text × Value) → Except Fault (List Text)
  | [] => .ok []
  | (name, v) :: rest => do
    let shown ← v.display
    let others ← valueTexts rest
    return (name ++ "=" ++ shown) :: others

/-- The message, the values in brackets after it, and the id of the evaluation before it. -/
def readable (log : Log) (event : LogEvent) : Except Fault Text := do
  let shown ← valueTexts event.values
  let text := if shown.isEmpty then event.message
    else event.message ++ " [" ++ Text.join ", " shown ++ "]"
  if log.evaluationId.isSet then
    let id ← log.evaluationId.display
    return "[" ++ id ++ "] " ++ text
  else return text

def timestamp (instant : Int) : Text :=
  ⟨(Calendar.Timestamp.textOf instant).points.take
    ((Calendar.Timestamp.textOf instant).points.length - 6)⟩ ++ "Z"

/-- The record of an event. Later values replace earlier ones of the same name. -/
def record (log : Log) (instant : Int) (event : LogEvent) : Fields :=
  let own := Fields.ofNamed [
    ("timestamp", .text (timestamp instant)), ("level", .text event.label),
    ("logger", .text log.name), ("message", .text event.message)]
  let own := if log.evaluationId.isSet then Fields.put own (.text "evaluation_id") log.evaluationId
    else own
  (own.putAll log.context).putAll (Fields.ofNamed event.values)

def render (log : Log) (instant : Int) (event : LogEvent) : Except Fault LogLine := do
  checkParts event.values
  if log.structured then
    let fields ← Value.jsonFormFields [] (log.record instant event)
    return .record fields
  else
    let text ← log.readable event
    return .readable text

/-- The log with an event. Debug events are rendered only if they are shown, others always. -/
def write (log : Log) (instant : Int) (event : LogEvent) : Except Fault Log :=
  if event.level = .debug ∧ !log.isEnabled .debug then .ok log
  else do
    let line ← log.render instant event
    return if log.isEnabled event.level then { log with lines := log.lines ++ [line] } else log

end Log

namespace LogEvent

def debug (message : Text) (values : List (Text × Value)) : LogEvent :=
  ⟨.debug, LogLevel.debug.name, message, values⟩

def info (message : Text) (values : List (Text × Value)) : LogEvent :=
  ⟨.info, LogLevel.info.name, message, values⟩

def warning (message : Text) (values : List (Text × Value)) : LogEvent :=
  ⟨.warning, LogLevel.warning.name, message, values⟩

def error (message : Text) (values : List (Text × Value)) : LogEvent :=
  ⟨.error, LogLevel.error.name, message, values⟩

def happened (message : Text) (values : List (Text × Value)) : LogEvent :=
  ⟨.info, "EVENT", message, values⟩

def metric (name : Text) (value : Value) (values : List (Text × Value)) : LogEvent :=
  ⟨.info, "METRIC", name, ("value", value) :: values⟩

end LogEvent

/-- The operations that log an event. -/
inductive LogCall where
  | debug | info | warning | error | event | metric
deriving DecidableEq

namespace LogCall

def name : LogCall → Text
  | debug => "debug"
  | info => "info"
  | warning => "warning"
  | error => "error"
  | event => "event"
  | metric => "metric"

def everyOne : List LogCall := [debug, info, warning, error, event, metric]

def ofName? (name : Text) : Option LogCall := everyOne.find? fun call => call.name = name

/-- The names of what a call is given besides the named values. -/
def parameters : LogCall → List Text
  | event => ["self", "event_type"]
  | metric => ["self", "name", "value"]
  | _ => ["self", "message"]

/-- The event that a call logs; only a metric has a value. -/
def toEvent (call : LogCall) (message : Text) (value : Value) (values : List (Text × Value)) :
    Except Fault LogEvent := do
  Log.checkNames call.name call.parameters values
  return match call with
    | debug => .debug message values
    | info => .info message values
    | warning => .warning message values
    | error => .error message values
    | event => .happened message values
    | metric => .metric message value values

end LogCall
end Vetting
