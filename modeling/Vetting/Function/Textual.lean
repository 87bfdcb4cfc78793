import Vetting.Function.Argument
import Vetting.Text.Blank
import Vetting.Text.Case
import Vetting.Value.Literal

/-!
# Functions on texts
-/

namespace Vetting.Textual

def texts : List Value → Except Fault (List Text)
  | [] => .ok []
  | v :: rest => do
    let first ← v.toText
    let others ← texts rest
    return first :: others

def concat (arguments : List Value) : Except Fault Value := do
  let parts ← texts (Argument.spread arguments)
  return .text (Text.concat parts)

def onText (function : Text) (change : Text → Text) (v : Value) : Except Fault Value := do
  let text ← Argument.text function v
  return .text (change text)

def toLowerCase : Value → Except Fault Value := onText "toLowerCase" Text.toLower
def toUpperCase : Value → Except Fault Value := onText "toUpperCase" Text.toUpper
def trim : Value → Except Fault Value := onText "trim" Text.trim

end Vetting.Textual
