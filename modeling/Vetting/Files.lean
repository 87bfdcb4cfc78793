import Vetting.Catalog
import Vetting.Criterion.Loading
import Vetting.Document.Reading

/-!
# Files

Criteria, records, catalogs and settings are documents in files. What is at a path is looked up in
`Files`; a path is looked up in its normal form, without empty and `.` parts.
-/

namespace Vetting

/-- What is at a path. -/
inductive File where
  | missing
  | directory
  | text (content : Text)

/-- What is at each path. -/
abbrev Files := Text → File

namespace Path

def slash : CodePoint := 47

def here : Text := "."

/-- A path without parts that lead nowhere. -/
def normal (path : Text) : Text :=
  let parts := (path.split slash).filter fun part => !part.isEmpty && part != here
  let relative := Text.join "/" parts
  if path.points.head? = some slash then "/" ++ relative
  else if parts.isEmpty then here else relative

end Path

def File.directoryFault (path : Text) : Fault :=
  .stated .directory ("[Errno 21] Is a directory: " ++ path.quoted)

namespace Files

variable {σ : Type}

def document (files : Files) (path : Text) : Except Failure Value :=
  let path := Path.normal path
  let unreadable (reason : Text) : Except Failure Value := .error (.engine (.load path reason))
  match files path with
  | .missing => unreadable "File not found"
  | .directory => unreadable (File.directoryFault path).message
  | .text content =>
    match Document.read content with
    | .ok v => .ok v
    | .error .malformedDocument => unreadable Fault.malformedDocument.message
    | .error f => .error (.fault f)

/-- The criteria in a file. Their expressions see the built-ins and these functions. -/
def criteria (files : Files) (path : Text) (functions : List (Text × Value)) :
    Engine σ (List Criterion) := do
  match ← Engine.ofResult (files.document path) with
  | .null => throw (.engine (.load path "File is empty"))
  | v => Criterion.ofDocument v functions

def record (files : Files) (path : Text) : Except Failure Value := do
  match ← files.document path with
  | .object fields => return .object fields
  | _ => throw (.engine (.load path "Data file must contain a mapping"))

/-- The catalog in a file. That there is a directory in place of the file stays a fault. -/
def catalog (files : Files) (path : Text) : Engine σ Catalog := do
  let path := Path.normal path
  match files path with
  | .directory => throw (.fault (File.directoryFault path))
  | _ =>
    let settings ← Engine.settings
    let content ← Engine.ofResult (files.document path)
    Engine.ofResult (Catalog.ofContent path content (Settings.defaultLanguage settings))

/-- The content of a settings file; a missing one is empty. -/
def settings (files : Files) (path : Text) : Except Fault Value :=
  match files path with
  | .missing => .ok .null
  | .directory => .error (File.directoryFault path)
  | .text content => Document.read content

end Files
end Vetting
