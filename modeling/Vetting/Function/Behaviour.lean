import Vetting.Function.Collection
import Vetting.Function.Dated
import Vetting.Function.Inspection
import Vetting.Function.Numeric
import Vetting.Function.Textual

/-!
# What the built-in functions do
-/

namespace Vetting.Builtin

variable {σ : Type}

/-- What a built-in does at an instant with arguments that fit its signature. A missing argument
is null. -/
def body (instant : Int) (b : Builtin) (arguments : List Value) : Script σ Value :=
  let first := arguments.headD .null
  let second := arguments.getD 1 .null
  match b with
  | .sum => .ofResult (Numeric.sum arguments)
  | .avg => .ofResult (Numeric.avg arguments)
  | .max => .ofResult (Numeric.max arguments)
  | .min => .ofResult (Numeric.min arguments)
  | .abs => .ofResult (Numeric.abs first)
  | .round => .ofResult (Numeric.round first)
  | .ceil => .ofResult (Numeric.ceil first)
  | .floor => .ofResult (Numeric.floor first)
  | .count => .ofResult (Collection.count first)
  | .unique => .ofResult (Collection.unique first)
  | .filter => Collection.filter first second
  | .any => Collection.any first second
  | .all => Collection.all first second
  | .isEmpty => pure (.boolean (Inspection.isEmpty first))
  | .isNumber => .ofResult ((Inspection.isNumber first).map .boolean)
  | .isString => pure (.boolean first.isText)
  | .isBoolean => pure (.boolean (Inspection.isBoolean first))
  | .isArray => pure (.boolean (Inspection.isArray first))
  | .concat => .ofResult (Textual.concat arguments)
  | .toLowerCase => .ofResult (Textual.toLowerCase first)
  | .toUpperCase => .ofResult (Textual.toUpperCase first)
  | .trim => .ofResult (Textual.trim first)
  | .now => pure (.text (Calendar.Timestamp.textOf instant))
  | .isToday => .ofResult (Dated.isToday instant first)
  | .daysBetween => .ofResult (Dated.daysBetween first second)

def script (instant : Int) (b : Builtin) (arguments : List Value) : Script σ Value :=
  match b.signature.mismatch arguments.length with
  | some f => .fault (.argument f)
  | none => b.body instant arguments

end Vetting.Builtin
