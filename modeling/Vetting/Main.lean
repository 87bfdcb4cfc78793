import Std.Time.DateTime.Timestamp
import Vetting.Command.Run

/-!
# The program

Reads the files that a command needs, carries the command out and prints its report. The log goes
to the standard error output, as JSON if `LOG_FORMAT` says so.
-/

namespace Vetting.Program

/-- A text as a string. A lone surrogate, which no string holds, becomes a replacement character. -/
def stringOf (text : Text) : String :=
  String.ofList (text.points.map fun c => if c.isValidChar then Char.ofNat c else '\uFFFD')

def fileAt (path : Text) : IO File := do
  try
    let content ← IO.FS.readFile (stringOf path)
    return .text (Text.ofString content)
  catch
    | .noFileOrDirectory .. => return .missing
    | .inappropriateType .. => return .directory
    | e => throw e

def filesAt (paths : List Text) : IO Files := do
  let found ← paths.mapM fun path => do
    let path := Path.normal path
    return (path, ← fileAt path)
  return fun path => (found.lookup path).getD .missing

def settingsVariable : String := "CRITERIA_ENGINE_SETTINGS"

def loggerName : Text := "criteria_engine"

def levelOf (settings : Fields) : LogLevel :=
  match (Settings.nested settings "logging.level" (.text "INFO")).display with
  | .ok name => (LogLevel.ofName? name.toUpper).getD .info
  | .error _ => .info

/-- The settings, and what is wrong with them. -/
def loadSettings : IO (Except Fault (Fields × List Text)) := do
  let path := Text.ofString ((← IO.getEnv settingsVariable).getD "")
  let files ← if path.isEmpty then pure fun _ => .missing else filesAt [path]
  return do
    let content ← Files.settings files (Path.normal path)
    let settings ← Settings.ofContent content
    let problems ← Settings.problems settings
    return (settings, problems)

def host (instant : Int) : Host Unit := ⟨fun _ _ => pure .null, instant⟩

def printLog (lines : List LogLine) : IO Unit := do
  for line in lines do
    match line.toText with
    | .ok text => IO.eprintln (stringOf text)
    | .error f => IO.eprintln (stringOf f.message)

def freshId : IO Text := do
  let bytes ← IO.getRandomBytes 6
  return Text.concat (bytes.toList.map fun byte => Text.hex 2 byte.toNat)

/-- The microseconds since the epoch. -/
def now : IO Int := do
  let instant ← Std.Time.Timestamp.now
  return instant.toNanosecondsSinceUnixEpoch.val / 1000

def faultCode : UInt32 := 1

def perform (settings : Fields) (invocation : Invocation) : IO UInt32 := do
  let structured := (← IO.getEnv "LOG_FORMAT") == some "json"
  let files ← filesAt invocation.command.paths
  let session : Session Unit :=
    ⟨host (← now), (), settings, ParseCache.empty, Log.new loggerName structured (levelOf settings), {}⟩
  let (outcome, session) := (invocation.perform files (← freshId)).run session
  printLog session.log.lines
  match outcome with
  | .ok report =>
    IO.print (stringOf report.output)
    IO.eprint (stringOf report.errorOutput)
    return UInt32.ofNat report.exitCode
  | .error e =>
    IO.eprintln (stringOf (e.className ++ ": " ++ e.message))
    return faultCode

def usage : List String := [
  "usage: vetting [-h] [--evaluation-id ID] COMMAND ...",
  "",
  "  validate -c CRITERIA -d DATA [-l LANGUAGE] [--query]",
  "  equation TEMPLATE [-c CRITERIA] [-d DATA ...] [-l LANGUAGE] [--validate]",
  "  functions"]

def run (arguments : List String) : IO UInt32 := do
  match CommandLine.parse (arguments.map Text.ofString) with
  | .error .help =>
    usage.forM IO.println
    return 0
  | .error .wrong =>
    usage.forM IO.eprintln
    return UInt32.ofNat Report.errorCode
  | .ok invocation =>
    match ← loadSettings with
    | .ok (settings, problems) =>
      for problem in problems do
        IO.eprintln (stringOf ("Invalid setting: " ++ problem))
      perform settings invocation
    | .error f =>
      IO.eprintln (stringOf f.message)
      return faultCode

end Vetting.Program

def main (arguments : List String) : IO UInt32 := Vetting.Program.run arguments
