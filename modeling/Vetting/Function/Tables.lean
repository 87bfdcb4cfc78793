import Vetting.Function.Registry

/-!
# The tables of registries

A registry can be kept in three tables by name: what is known of each function, the function itself, and
for each category the names in it. The tables are written one after the other. The lists of names grow in
place, so a table of categories only refers to them, and all registries have their lists in one store.
-/

namespace Vetting

/-! ## Tables -/

/-- A table of the things under names, in the order in which the names were first put. -/
abbrev Table (α : Type) := List (Text × α)

/-- The table with one thing more; a name that is present keeps its place. -/
def Table.put {α : Type} (table : Table α) (name : Text) (a : α) : Table α :=
  match table with
  | [] => [(name, a)]
  | (other, b) :: rest => if other = name then (other, a) :: rest else (other, b) :: put rest name a

/-- The tables of one registry. A category has the number of its list of names. -/
structure Tables where
  name : Text
  metadata : Table Registration
  functions : Table Value
  categories : Table Nat

namespace Tables

def empty (name : Text) : Tables := ⟨name, [], [], []⟩

/-- A registry that is written, and the lists of names of all registries. -/
structure Writing where
  tables : Tables
  lists : List (List Text)

abbrev Write (α : Type) := ExceptT Failure (StateM Writing) α

/-! ## Registering -/

def writeMetadata (e : Registration) : Write Unit :=
  modify fun w => { w with tables.metadata := w.tables.metadata.put e.name e }

def writeFunction (e : Registration) : Write Unit :=
  modify fun w => { w with tables.functions := w.tables.functions.put e.name e.function }

/-- The list of a category, a new one if the category has none. -/
def listOf (category : Text) : Write Nat := do
  let w ← get
  match w.tables.categories.lookup category with
  | some list => return list
  | none =>
    set { w with
      tables.categories := w.tables.categories.put category w.lists.length,
      lists := w.lists ++ [[]] }
    return w.lists.length

def append (list : Nat) (name : Text) : Write Unit :=
  modify fun w => { w with lists := w.lists.modify list (· ++ [name]) }

/-- The tables are written one after the other. -/
def enter (e : Registration) : Write Unit := do
  writeMetadata e
  writeFunction e
  let list ← listOf e.category
  append list e.name

/-- A function is registered with the description that it is given, if the name and it can be. -/
def add (name function : Value) (description category : Text) (builtin : Bool) : Write Unit := do
  let tables := (← get).tables
  let registryDetail : Text × Value := ("registry", .text tables.name)
  match name with
  | .text t =>
    if t.isEmpty then
      throw (.configuration "Function name must be a non-empty string" [registryDetail])
    else if !function.isCallable then
      throw (.configuration ("Function '" ++ t ++ "' is not callable")
        [registryDetail, ("function_name", .text t)])
    else if (tables.metadata.lookup t).isSome then
      throw (.engine (.functionTaken t tables.name))
    else enter ⟨t, function, description, category, builtin⟩
  | _ => throw (.configuration "Function name must be a non-empty string" [registryDetail])

/-- A function is registered by decorating it. Without a description it has the one that it brings along. -/
def decorate (name function : Value) (description category : Text) (builtin : Bool) : Write Unit :=
  add name function (if description.isEmpty then Registry.ownDescription function else description)
    category builtin

def register (name function : Value) (description category : Text) : Write Unit :=
  decorate name function description category false

def addEvery : List Registration → Write Unit
  | [] => pure ()
  | e :: rest => do
    add (.text e.name) e.function e.description e.category e.builtin
    addEvery rest

/-! ## Asking -/

section Asking
variable (lists : List (List Text)) (tables : Tables)

def inCategory (category : Text) : List Text :=
  ((tables.categories.lookup category).bind (lists[·]?)).getD []

/-- The functions of a category as they are documented, if their names are known. -/
def chapter? (category : Text) : Option (Text × List Registration) := do
  let list ← tables.categories.lookup category
  let names ← lists[list]?
  let entries ← (Text.sort names).mapM fun name => tables.metadata.lookup name
  return (category, entries)

def chapters? : Option (List (Text × List Registration)) :=
  (Text.sort (tables.categories.map (·.1))).mapM (chapter? lists tables)

def documentation? : Option Text := do
  let chapters ← chapters? lists tables
  return Text.join "\n" ([
    ("# " ++ (Registry.spaced tables.name).toTitle ++ " Functions\n" : Text),
    ("Total functions: " ++ Text.ofNat tables.metadata.length ++ "\n" : Text)]
    ++ chapters.flatMap fun (category, entries) =>
      ("\n## " ++ category.toTitle ++ "\n" : Text) :: entries.flatMap Registry.entryLines)

end Asking

/-! ## Several registries -/

/-- What is done with registries, which are numbered as they come up. -/
inductive Operation where
  | create (name : Text)
  | register (i : Nat) (name function : Value) (description category : Text)
  | decorate (i : Nat) (name function : Value) (description category : Text) (builtin : Bool)
  | copy (i : Nat) (name : Text)

/-- The registry that an operation is to change. -/
def Operation.target : Operation → Option Nat
  | .register i .. => some i
  | .decorate i .. => some i
  | _ => none

/-- Registries over one store of lists. -/
structure Store where
  registries : List Tables
  lists : List (List Text)

namespace Store

def start (name : Text) : Store := ⟨[.empty name], []⟩

def write (store : Store) (i : Nat) (m : Write Unit) : Option (Except Failure Unit) × Store :=
  match store.registries[i]? with
  | none => (none, store)
  | some tables =>
    match m.run ⟨tables, store.lists⟩ with
    | (answer, w) => (some answer, ⟨store.registries.set i w.tables, w.lists⟩)

/-- What an operation answers, if there is the registry, and the registries after it. -/
def step (store : Store) : Operation → Option (Except Failure Unit) × Store
  | .create name => (some (.ok ()), { store with registries := store.registries ++ [.empty name] })
  | .register i name function description category =>
    store.write i (Tables.register name function description category)
  | .decorate i name function description category builtin =>
    store.write i (Tables.decorate name function description category builtin)
  | .copy i name =>
    match store.registries[i]? with
    | none => (none, store)
    | some tables =>
      match (addEvery (tables.metadata.map (·.2))).run ⟨.empty name, store.lists⟩ with
      | (.ok (), w) => (some (.ok ()), ⟨store.registries ++ [w.tables], w.lists⟩)
      | (.error e, w) => (some (.error e), { store with lists := w.lists })

/-- The answers to operations one after the other, and the registries after them. -/
def run (store : Store) : List Operation → List (Option (Except Failure Unit)) × Store
  | [] => ([], store)
  | operation :: rest =>
    let (answer, next) := store.step operation
    let (answers, last) := next.run rest
    (answer :: answers, last)

end Store

end Tables
end Vetting
