import Vetting.Template
import Vetting.Value.Mapping

/-!
# Message catalogs

A catalog holds message templates by language and key. A template that a language lacks is looked
up in the default language.
-/

namespace Vetting

structure Catalog where
  /-- The templates of each language. -/
  messages : Fields
  defaultLanguage : Value

namespace Catalog

def languagesOf (done : Fields) : Fields → Except Fault Fields
  | [] => .ok done
  | (language, templates) :: rest => do
    let name ← language.display
    let templates ← templates.asFieldsOrNone
    languagesOf (done.put (.text name) (.object templates)) rest

/-- A catalog of messages; without a default language it takes the one of the settings. -/
def ofValues (messages : Value) (defaultLanguage settingsLanguage : Value) :
    Except Fault Catalog :=
  match messages with
  | .object fields => do
    let messages ← languagesOf [] fields
    return ⟨messages, if defaultLanguage.isSet then defaultLanguage else settingsLanguage⟩
  | _ => .error .missingAttribute

def languages (catalog : Catalog) : List Value := catalog.messages.map (·.1)

def hasLanguage (catalog : Catalog) (language : Value) : Except Fault Bool := do
  language.checkKey
  return catalog.messages.has language

def templates (catalog : Catalog) (language : Value) : Except Fault Fields := do
  language.checkKey
  match catalog.messages.get? language with
  | some (.object templates) => return templates
  | _ => return []

/-- The template of a language alone; null stands for none. -/
def templateIn (catalog : Catalog) (language key : Value) : Except Fault Value := do
  let templates ← catalog.templates language
  key.checkKey
  return (templates.get? key).getD .null

/-- The template of a key in a language, or else in the default language. -/
def get (catalog : Catalog) (language key : Value) : Except Fault Value := do
  match ← catalog.templateIn language key with
  | .null =>
    if Value.sameKey language catalog.defaultLanguage then return .null
    else catalog.templateIn catalog.defaultLanguage key
  | template => return template

/-- The message of a key in a language, or the fallback if there is no template. -/
def render (catalog : Catalog) (language key : Value) (parameters : Fields) (fallback : Value) :
    Except Fault Value := do
  match ← catalog.get language key with
  | .null => return fallback
  | .text template =>
    let shown ← Template.message template parameters
    return .text shown
  | .foreign (.bytes _) => throw .bytesNotText
  | v => throw (.notText v.familyTypeName)

def display (catalog : Catalog) : Except Fault Text := do
  let languages ← (Value.array catalog.languages).inspect
  let default ← catalog.defaultLanguage.inspect
  return "Catalog(languages=" ++ languages ++ ", default=" ++ default ++ ")"

def ofContent (path : Text) (content settingsLanguage : Value) : Except Failure Catalog :=
  let content := if content.isSet then content else .object []
  match content with
  | .object fields =>
    match Fields.field? fields "languages" with
    | some (.object languages) =>
      ofFault (ofValues (.object languages) ((Fields.field? fields "default_language").getD .null)
        settingsLanguage)
    | _ => .error (.engine (.load path "'languages' mapping is required"))
  | _ => .error (.engine (.load path "Catalog file must contain a mapping"))

end Catalog
end Vetting
