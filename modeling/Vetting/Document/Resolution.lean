import Vetting.Document.Moment
import Vetting.Document.Numeral
import Vetting.Document.Tag

/-!
# What bare scalars look like

A bare scalar is null, a boolean, a number, a date or a moment if it looks like one; two signs
have a meaning as keys. Any other bare scalar is a text.
-/

namespace Vetting.Document

def nullForms : List Text := ["~", "null", "Null", "NULL"]

def booleanForms : List Text :=
  ["yes", "Yes", "YES", "true", "True", "TRUE", "on", "On", "ON",
    "no", "No", "NO", "false", "False", "FALSE", "off", "Off", "OFF"]

/-- The signs of the document language, which are no scalars on their own. -/
def signForms : List Text := ["!", "&", "*"]

/-- The tag of a scalar by its looks. -/
def tagOf (points : List CodePoint) : Tag :=
  if points.isEmpty then .null
  else
    let points := withoutFinalBreak points
    let text : Text := ⟨points⟩
    if text ∈ booleanForms then .boolean
    else if isFloatForm points then .float
    else if isIntegerForm points then .integer
    else if text = "<<" then .merge
    else if text ∈ nullForms then .null
    else if isMomentForm points then .moment
    else if text = "=" then .value
    else if text ∈ signForms then .other
    else .text

end Vetting.Document
