import Vetting.Fault

/-!
# The built-in functions

Each built-in has a name for expressions, a category, a description and a signature. What the
functions compute is said in the modules of their categories.
-/

namespace Vetting

inductive Builtin where
  | sum | avg | max | min | abs | round | ceil | floor
  | count | unique | filter | any | all
  | isEmpty | isNumber | isString | isBoolean | isArray
  | concat | toLowerCase | toUpperCase | trim
  | now | isToday | daysBetween
deriving DecidableEq

namespace Builtin

/-- The built-ins in the order of their registration. -/
def everyOne : List Builtin :=
  [sum, avg, max, min, abs, round, ceil, floor, count, unique, filter, any, all,
   isEmpty, isNumber, isString, isBoolean, isArray, concat, toLowerCase, toUpperCase, trim,
   now, isToday, daysBetween]

def name : Builtin → Text
  | sum => "sum" | avg => "avg" | max => "max" | min => "min"
  | abs => "abs" | round => "round" | ceil => "ceil" | floor => "floor"
  | count => "count" | unique => "unique" | filter => "filter" | any => "any" | all => "all"
  | isEmpty => "isEmpty" | isNumber => "isNumber" | isString => "isString"
  | isBoolean => "isBoolean" | isArray => "isArray"
  | concat => "concat" | toLowerCase => "toLowerCase" | toUpperCase => "toUpperCase"
  | trim => "trim" | now => "now" | isToday => "isToday" | daysBetween => "daysBetween"

def category : Builtin → Text
  | sum | avg | max | min | abs | round | ceil | floor => "math"
  | count | unique | filter | any | all => "array"
  | isEmpty | isNumber | isString | isBoolean | isArray => "type"
  | concat | toLowerCase | toUpperCase | trim => "string"
  | now | isToday | daysBetween => "date"

def description : Builtin → Text
  | sum => "Sum of the arguments (0 when empty)."
  | avg => "Arithmetic mean of the arguments."
  | max => "Largest argument."
  | min => "Smallest argument."
  | abs => "Absolute value."
  | round => "Round to the nearest integer, halves away from negative infinity."
  | ceil => "Smallest integer not less than the value."
  | floor => "Largest integer not greater than the value."
  | count => "Number of elements in an array."
  | unique => "Distinct elements, first occurrence order kept."
  | filter => "Elements for which the predicate is truthy: filter(items, x => x > 3)."
  | any => "True if any element (or predicate result) is truthy."
  | all => "True if every element (or predicate result) is truthy."
  | isEmpty => "True for null, blank strings, empty arrays and empty objects."
  | isNumber => "True for numbers other than NaN."
  | isString | isBoolean | isArray => ""
  | concat => "Join the arguments as text."
  | toLowerCase | toUpperCase | trim => ""
  | now => "Current UTC time as an ISO-8601 string."
  | isToday => "True if the date falls on the current UTC day."
  | daysBetween => "Whole days between two dates, rounded up."

/-- The arguments that a function takes: the required ones by name, then some with a default,
then any number more if it is variadic. -/
structure Signature where
  label : Text
  required : List Text
  optional : Nat
  variadic : Bool

def signature : Builtin → Signature
  | sum => ⟨"fn_sum", [], 0, true⟩
  | avg => ⟨"fn_avg", [], 0, true⟩
  | max => ⟨"fn_max", [], 0, true⟩
  | min => ⟨"fn_min", [], 0, true⟩
  | abs => ⟨"fn_abs", ["value"], 0, false⟩
  | round => ⟨"fn_round", ["value"], 0, false⟩
  | ceil => ⟨"fn_ceil", ["value"], 0, false⟩
  | floor => ⟨"fn_floor", ["value"], 0, false⟩
  | count => ⟨"fn_count", ["value"], 0, false⟩
  | unique => ⟨"fn_unique", ["value"], 0, false⟩
  | filter => ⟨"fn_filter", ["value", "predicate"], 0, false⟩
  | any => ⟨"fn_any", ["value"], 1, false⟩
  | all => ⟨"fn_all", ["value"], 1, false⟩
  | isEmpty => ⟨"fn_is_empty", [], 1, false⟩
  | isNumber => ⟨"fn_is_number", [], 1, false⟩
  | isString => ⟨"fn_is_string", [], 1, false⟩
  | isBoolean => ⟨"fn_is_boolean", [], 1, false⟩
  | isArray => ⟨"fn_is_array", [], 1, false⟩
  | concat => ⟨"fn_concat", [], 0, true⟩
  | toLowerCase => ⟨"fn_to_lower_case", ["value"], 0, false⟩
  | toUpperCase => ⟨"fn_to_upper_case", ["value"], 0, false⟩
  | trim => ⟨"fn_trim", ["value"], 0, false⟩
  | now => ⟨"fn_now", [], 0, false⟩
  | isToday => ⟨"fn_is_today", ["value"], 0, false⟩
  | daysBetween => ⟨"fn_days_between", ["first", "second"], 0, false⟩

/-- Why a number of arguments does not fit a signature, if it does not. -/
def Signature.mismatch (s : Signature) (given : Nat) : Option ArgumentFault :=
  if given < s.required.length then some (.missing s.label (s.required.drop given))
  else if !s.variadic && s.required.length + s.optional < given then
    some (.tooMany s.label s.required.length (s.required.length + s.optional) given)
  else none

end Builtin
end Vetting
