import Vetting.Error
import Vetting.Function.Builtin
import Vetting.Text.Blank
import Vetting.Text.Case

/-!
# Registries of functions

A registry holds functions by name, in the order of their registration. A name is registered
once: a second registration is an error and changes nothing.
-/

namespace Vetting

/-- A registered function and what is known about it. -/
structure Registration where
  name : Text
  function : Value
  description : Text
  category : Text
  builtin : Bool

structure Registry where
  name : Text
  entries : List Registration

namespace Registry

def empty (name : Text) : Registry := ⟨name, []⟩

/-! ## Registering -/

/-- The description that a function brings with it. -/
def ownDescription : Value → Text
  | .host f => (f.description.getD "").trim
  | .builtin b => b.description
  | _ => ""

def has (registry : Registry) (name : Text) : Bool :=
  registry.entries.any fun e => e.name = name

/-- The registry with one more function. The name is checked first, then the function. -/
def add (registry : Registry) (name function : Value) (description category : Text)
    (builtin : Bool) : Except Failure Registry :=
  let registryDetail : Text × Value := ("registry", .text registry.name)
  match name with
  | .text t =>
    if t.isEmpty then
      .error (.configuration "Function name must be a non-empty string" [registryDetail])
    else if !function.isCallable then
      .error (.configuration ("Function '" ++ t ++ "' is not callable")
        [registryDetail, ("function_name", .text t)])
    else if registry.has t then .error (.engine (.functionTaken t registry.name))
    else
      let description := if description.isEmpty then ownDescription function else description
      .ok { registry with entries := registry.entries ++ [⟨t, function, description, category, builtin⟩] }
  | _ => .error (.configuration "Function name must be a non-empty string" [registryDetail])

def defaultCategory : Text := "general"

/-- The category of functions that are registered at run time. -/
def customCategory : Text := "custom"

def addAll (registry : Registry) : List (Text × Value) → Except Failure Registry
  | [] => .ok registry
  | (name, function) :: rest => do
    let registry ← registry.add (.text name) function "" customCategory false
    registry.addAll rest

/-- An independent registry with the same functions. -/
def copy (registry : Registry) (name : Text) : Registry := { registry with name }

def ofBuiltin (b : Builtin) : Registration := ⟨b.name, .builtin b, b.description, b.category, true⟩

def builtins (name : Text) : Registry := ⟨name, Builtin.everyOne.map ofBuiltin⟩

/-! ## Asking -/

def get? (registry : Registry) (name : Text) : Option Registration :=
  registry.entries.find? fun e => e.name = name

def names (registry : Registry) : List Text := registry.entries.map (·.name)

def size (registry : Registry) : Nat := registry.entries.length

def functions (registry : Registry) : Scope := registry.entries.map fun e => (e.name, e.function)

def inCategory (registry : Registry) (category : Text) : List Text :=
  (registry.entries.filter fun e => e.category = category).map (·.name)

/-- The distinct texts, in the order of their first occurrence. -/
def distinctTexts (texts : List Text) : List Text :=
  texts.foldl (fun seen t => if t ∈ seen then seen else seen ++ [t]) []

def categories (registry : Registry) : List Text :=
  distinctTexts (registry.entries.map (·.category))

def display (registry : Registry) : Text :=
  "FunctionRegistry(name=" ++ registry.name.quoted ++ ", functions=" ++ Text.ofNat registry.size
    ++ ")"

/-! ## Documentation -/

def underscore : CodePoint := 95

def spaced (t : Text) : Text := ⟨t.points.map fun c => if c = underscore then 32 else c⟩

def entryLines (e : Registration) : List Text :=
  [("### \x60" ++ e.name ++ "\x60" : Text)]
    ++ (if e.description.isEmpty then [] else [("\n" ++ e.description : Text)]) ++ [("" : Text)]

/-- The lines about a category, its functions sorted by name. -/
def categoryLines (registry : Registry) (category : Text) : List Text :=
  [("\n## " ++ category.toTitle ++ "\n" : Text)]
    ++ (Text.sort (registry.inCategory category)).flatMap fun name =>
      (registry.get? name).toList.flatMap entryLines

def documentation (registry : Registry) : Text :=
  Text.join "\n" ([
    ("# " ++ (spaced registry.name).toTitle ++ " Functions\n" : Text),
    ("Total functions: " ++ Text.ofNat registry.size ++ "\n" : Text)]
    ++ (Text.sort registry.categories).flatMap registry.categoryLines)

end Registry
end Vetting
