import Vetting.Command.Basic
import Vetting.Files
import Vetting.Resolver.Equation
import Vetting.Resolver.Setup

/-!
# Carrying out a command

A command reports what it prints and how it exits: with 0 if the record passed or the equation is
true, with 1 if not, and with 2 if an error of the engine kept it from telling.
-/

namespace Vetting

structure Report where
  exitCode : Nat
  output : Text
  errorOutput : Text

namespace Report

def codeOf (success : Bool) : Nat := if success then 0 else 1

def ofValue (v : Value) (success : Bool) : Except Fault Report := do
  let shown ← v.json (some 2)
  return ⟨codeOf success, shown ++ "\n", ""⟩

/-- The exit code of a command line that is wrong, and of a command that failed. -/
def errorCode : Nat := 2

end Report

def QueryResult.toValue (result : QueryResult) : Value :=
  .object (Fields.ofNamed [("summary", result.summary.toValue), ("data", result.data.toValue)])

namespace Command

variable {σ : Type}

def ofLanguage (language : Option Text) : Value := (language.map Value.text).getD .null

def builtinRegistry : Text := "builtin"

def logFailures (summary : Summary) (language : Value) : Engine σ Unit :=
  Engine.log (.metric "validation_failures" (.integer summary.failed.length)
    [("failed", .array (summary.failed.map (·.id))), ("language", language)])

def records (files : Files) : List Text → Except Failure (List Value)
  | [] => .ok []
  | path :: rest => do
    let first ← files.record path
    let others ← records files rest
    return first :: others

def runValidate (files : Files) (criteria data : Text) (language : Value) (query : Bool) :
    Engine σ Report := do
  let criteria ← files.criteria criteria []
  let r ← Resolver.create (.loaded criteria) language [] Catalog.bundled
  let record ← Engine.ofResult (files.record data)
  if query then
    let result ← r.processQuery record
    logFailures result.summary language
    Engine.ofFault (Report.ofValue result.toValue result.summary.overallSuccess)
  else
    let summary ← r.validateAll record
    logFailures summary language
    Engine.ofFault (Report.ofValue summary.toValue summary.overallSuccess)

def runEquation (files : Files) (template : Text) (criteria : Option Text) (data : List Text)
    (language : Value) (validates : Bool) : Engine σ Report := do
  let criteria ← match criteria with
    | some path => if path.isEmpty then pure [] else files.criteria path []
    | none => pure []
  let r ← Resolver.create (.loaded criteria) language [] Catalog.bundled
  let sources ← Engine.ofResult (records files data)
  if validates then
    let verdict ← r.validateEquation (.text template) (sources.headD (.object []))
    Engine.ofFault (Report.ofValue verdict.toValue verdict.success)
  else
    let processed ← r.processEquation (.text template) (.array sources)
    Engine.ofFault (Report.ofValue processed.toValue processed.result)

def run (files : Files) : Command → Engine σ Report
  | validate criteria data language query =>
    runValidate files criteria data (ofLanguage language) query
  | equation template criteria data language validates =>
    runEquation files template criteria data (ofLanguage language) validates
  | functions => pure ⟨0, (Registry.builtins builtinRegistry).documentation ++ "\n", ""⟩

end Command

namespace Invocation

variable {σ : Type}

def setLog (evaluationId : Value) (context : Fields) : Engine σ Unit :=
  modify fun session => { session with log := { session.log with evaluationId, context } }

/-- Carries out a command. Errors of the engine are reported; faults stay faults. `freshId` is the
evaluation id of an invocation that brings none. -/
def perform (files : Files) (freshId : Text) (invocation : Invocation) : Engine σ Report := do
  let own := invocation.evaluationId.getD ""
  setLog (.text (if own.isEmpty then freshId else own))
    (Fields.ofNamed [("command", .text invocation.command.name)])
  let outcome ← Engine.attempt do
    match ← Engine.attempt (invocation.command.run files) with
    | .ok report => return report
    | .error (.engine e) =>
      Engine.log (.error "Command failed" [("code", .text e.code), ("error", .text e.message)])
      return ⟨Report.errorCode, "", "Error: " ++ e.message ++ "\n"⟩
    | .error e => throw e
  setLog .null []
  Engine.ofResult outcome

end Invocation
end Vetting
