import Vetting.Value.Display

/-!
# Values as expression source

Every null, boolean, finite number, text and array of these has a literal that an expression
reads back. Objects have no literal and are written as JSON.
-/

namespace Vetting.Value

mutual

def literal : Value → Except Fault Text
  | null => .ok "null"
  | boolean b => .ok (if b then "true" else "false")
  | number n => n.format
  | text t => .ok t.jsonString
  | array items => do
    let parts ← literalList items
    return "[" ++ Text.join ", " parts ++ "]"
  | tuple items => do
    let parts ← literalList items
    return "[" ++ Text.join ", " parts ++ "]"
  | object fields => json none (object fields)
  | foreign thing => json none (foreign thing)
  | host f => json none (host f)
  | builtin b => json none (builtin b)
  | closure a p x b s => json none (closure a p x b s)

def literalList : List Value → Except Fault (List Text)
  | [] => .ok []
  | v :: vs => do
    let first ← literal v
    let rest ← literalList vs
    return first :: rest

end

/-- The canonical text of a value: a text is itself, everything else is its literal. -/
def toText : Value → Except Fault Text
  | text t => .ok t
  | v => v.literal

end Vetting.Value
