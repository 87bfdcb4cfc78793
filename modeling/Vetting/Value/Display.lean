import Vetting.Value.Equality

/-!
# Values in messages and JSON

`Value.inspect` is how a value stands inside a message or a list; `Value.display` is how it stands
on its own, a text without quotes. JSON keeps every code point, writes what has no JSON form as the
text that displays it, and is either on one line or indented.
-/

namespace Vetting.Value

def closureText (parameter : Text) : Text := "LambdaClosure(param=" ++ parameter.quoted ++ ")"

mutual

def inspect : Value → Except Fault Text
  | null => .ok "None"
  | boolean b => .ok (if b then "True" else "False")
  | number n => n.inspect
  | text t => .ok t.quoted
  | array items => do
    let texts ← inspectList items
    return "[" ++ Text.join ", " texts ++ "]"
  | tuple items => do
    match ← inspectList items with
    | [one] => return "(" ++ one ++ ",)"
    | texts => return "(" ++ Text.join ", " texts ++ ")"
  | object fields => do
    let texts ← inspectFields fields
    return "\x7b" ++ Text.join ", " texts ++ "\x7d"
  | foreign thing => .ok thing.inspect
  | host f => .ok ("<native " ++ f.name ++ ">")
  | builtin b => .ok ("<function " ++ b.signature.label ++ ">")
  | closure _ _ parameter _ _ => .ok (closureText parameter)

def inspectList : List Value → Except Fault (List Text)
  | [] => .ok []
  | v :: vs => do
    let first ← inspect v
    let rest ← inspectList vs
    return first :: rest

def inspectFields : Fields → Except Fault (List Text)
  | [] => .ok []
  | (k, v) :: rest => do
    let key ← inspect k
    let value ← inspect v
    let others ← inspectFields rest
    return (key ++ ": " ++ value) :: others

end

def display : Value → Except Fault Text
  | text t => .ok t
  | foreign thing => .ok thing.display
  | v => v.inspect

mutual

/-- The model value with arrays in place of tuples and texts in place of other keys. -/
def normalize : Value → Except Fault Value
  | array items => do
    let items ← normalizeList items
    return array items
  | tuple items => do
    let items ← normalizeList items
    return array items
  | object fields => do
    let fields ← normalizeFields [] fields
    return object fields
  | foreign thing => .error (.unsupportedValue thing.typeName)
  | host f => .error (.unsupportedValue (host f).typeName)
  | builtin b => .error (.unsupportedValue (builtin b).typeName)
  | closure a p x b s => .error (.unsupportedValue (closure a p x b s).typeName)
  | null => .ok null
  | boolean b => .ok (boolean b)
  | number n => .ok (number n)
  | text t => .ok (text t)

def normalizeList : List Value → Except Fault (List Value)
  | [] => .ok []
  | v :: vs => do
    let first ← normalize v
    let rest ← normalizeList vs
    return first :: rest

/-- The fields after those already normalised. -/
def normalizeFields (done : Fields) : Fields → Except Fault Fields
  | [] => .ok done
  | (k, v) :: rest => do
    let key ← display k
    let value ← normalize v
    normalizeFields (done.put (text key) value) rest

end

/-! ## JSON -/

/-- The names of NaN and the infinities in JSON. -/
def jsonLayout : Binary64.Layout := { Binary64.plainLayout with nan := "NaN", infinity := "Infinity" }

def jsonNumber : Number → Except Fault Text
  | .integer i => Number.writeInteger i
  | .float x => .ok (jsonLayout.write x)

/-- The text that a key becomes in JSON. -/
def jsonKey : Value → Except Fault Text
  | text t => .ok t
  | null => .ok "null"
  | boolean b => .ok (if b then "true" else "false")
  | number n => jsonNumber n
  | v => .error (.jsonKey v.typeName)

/-- How JSON is laid out: on one line, or indented by this many spaces for each level. -/
abbrev JsonLayout := Option Nat

def jsonBreak (layout : JsonLayout) (level : Nat) : Text :=
  match layout with
  | none => ""
  | some width => ⟨10 :: List.replicate (width * level) 32⟩

def jsonGroup (layout : JsonLayout) (level : Nat) (opening closing : Text) (parts : List Text) : Text :=
  if parts.isEmpty then opening ++ closing
  else
    let separator := match layout with
      | none => ", "
      | some _ => Text.ofString "," ++ jsonBreak layout (level + 1)
    opening ++ jsonBreak layout (level + 1) ++ Text.join separator parts
      ++ jsonBreak layout level ++ closing

mutual

def jsonAt (layout : JsonLayout) (level : Nat) : Value → Except Fault Text
  | null => .ok "null"
  | boolean b => .ok (if b then "true" else "false")
  | number n => jsonNumber n
  | text t => .ok t.jsonString
  | array items => do
    let parts ← jsonList layout (level + 1) items
    return jsonGroup layout level "[" "]" parts
  | tuple items => do
    let parts ← jsonList layout (level + 1) items
    return jsonGroup layout level "[" "]" parts
  | object fields => do
    let parts ← jsonFields layout (level + 1) fields
    return jsonGroup layout level "\x7b" "\x7d" parts
  | foreign thing => .ok thing.display.jsonString
  | host f => do
    let shown ← inspect (host f)
    return shown.jsonString
  | builtin b => do
    let shown ← inspect (builtin b)
    return shown.jsonString
  | closure a p x b s => do
    let shown ← inspect (closure a p x b s)
    return shown.jsonString

def jsonList (layout : JsonLayout) (level : Nat) : List Value → Except Fault (List Text)
  | [] => .ok []
  | v :: vs => do
    let first ← jsonAt layout level v
    let rest ← jsonList layout level vs
    return first :: rest

def jsonFields (layout : JsonLayout) (level : Nat) : Fields → Except Fault (List Text)
  | [] => .ok []
  | (k, v) :: rest => do
    let key ← jsonKey k
    let value ← jsonAt layout level v
    let others ← jsonFields layout level rest
    return (key.jsonString ++ ": " ++ value) :: others

end

def json (layout : JsonLayout) (v : Value) : Except Fault Text := jsonAt layout 0 v

end Vetting.Value
