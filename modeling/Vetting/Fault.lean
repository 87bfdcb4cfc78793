import Vetting.Text.Quoted

/-!
# Faults

A fault is a failure below the engine: an operation on values, a built-in function or a host
function could not go on. It has a kind, which logs name, and a message.
-/

namespace Vetting

/-- The kinds of faults. -/
inductive FaultKind where
  | type
  | value
  | overflow
  | zeroDivision
  | key
  | index
  | attribute
  | runtime
  | system
  | directory
  | document
deriving DecidableEq

def FaultKind.name : FaultKind → Text
  | .type => "TypeError"
  | .value => "ValueError"
  | .overflow => "OverflowError"
  | .zeroDivision => "ZeroDivisionError"
  | .key => "KeyError"
  | .index => "IndexError"
  | .attribute => "AttributeError"
  | .runtime => "RuntimeError"
  | .system => "OSError"
  | .directory => "IsADirectoryError"
  | .document => "YAMLError"

/-- What can be wrong with a calendar text or a point in time. -/
inductive DateFault where
  | malformed (text : Text)
  | yearOutOfRange (year : Int)
  | month
  | day
  | hour
  | minute
  | second
  | offset (micros : Int)
  | notANumber
  | beyondClock
  | uncountableYear
  | beyondCalendar
deriving DecidableEq

/-- What can be wrong with the arguments of a function. -/
inductive ArgumentFault where
  | numbersExpected (function found : Text)
  | numberExpected (function found : Text)
  | arrayExpected (function found : Text)
  | textExpected (function found : Text)
  | predicateExpected (function : Text)
  | dateExpected (found : Text)
  | noNumbers (function : Text)
  | missing (function : Text) (parameters : List Text)
  | tooMany (function : Text) (least most given : Nat)
  | repeated (function parameter : Text)
deriving DecidableEq

/-- Why an operation on values, a built-in or a host function failed. -/
inductive Fault where
  | integerTooLargeForFloat
  | quotientTooLargeForFloat
  | divisionByZero (floating : Bool)
  | notANumberToInteger
  | infinityToInteger
  | tooManyDigitsToWrite
  | tooManyDigitsToRead (count : Nat)
  | unsupportedValue (typeName : Text)
  | incomparable (left right : Text)
  | incomparableNotANumber
  | unordered (operator left right : Text)
  | dateWithMoment
  | mixedOffsets
  | notCallable (typeName : Text)
  | unhashable (typeName : Text)
  | notIterable (typeName : Text)
  | pairExpected (index : Nat)
  | pairLength (index length : Nat)
  | jsonKey (typeName : Text)
  | notText (typeName : Text)
  | bytesNotText
  | missingAttribute
  | missingSetting (key : Text)
  | argument (fault : ArgumentFault)
  | date (fault : DateFault)
  | malformedDocument
  | notACodePoint
  | beyondWord
  | emptyNumeral
  | notAnInteger (base : Nat) (text : Text)
  | notAFloat (text : Text)
  | notABoolean (text : Text)
  | stated (kind : FaultKind) (message : Text)
deriving DecidableEq

def DateFault.kind : DateFault → FaultKind
  | .beyondClock | .beyondCalendar => .overflow
  | .uncountableYear => .system
  | _ => .value

/-- A duration in days, seconds and microseconds; only the days can be negative. -/
def durationText (micros : Int) : Text :=
  let seconds := micros / 1000000
  let parts : List (Text × Int) :=
    [("days", seconds / 86400), ("seconds", seconds % 86400), ("microseconds", micros % 1000000)]
  let shown := (parts.filter fun part => part.2 != 0).map fun part =>
    part.1 ++ "=" ++ Text.ofInt part.2
  "datetime.timedelta(" ++ (if shown.isEmpty then Text.ofNat 0 else Text.join ", " shown) ++ ")"

def DateFault.message : DateFault → Text
  | .malformed text => "Invalid isoformat string: " ++ text.quoted
  | .yearOutOfRange year => "year " ++ Text.ofInt year ++ " is out of range"
  | .month => "month must be in 1..12"
  | .day => "day is out of range for month"
  | .hour => "hour must be in 0..23"
  | .minute => "minute must be in 0..59"
  | .second => "second must be in 0..59"
  | .offset micros =>
    "offset must be a timedelta strictly between -timedelta(hours=24) and timedelta(hours=24), not "
      ++ durationText micros ++ "."
  | .notANumber => "Invalid value NaN (not a number)"
  | .beyondClock => "timestamp out of range for platform time_t"
  | .uncountableYear => "[Errno 75] Value too large for defined data type"
  | .beyondCalendar => "date value out of range"

/-- Names in single quotes, the last joined by "and". -/
def quotedNames : List Text → Text
  | [] => ""
  | [a] => "'" ++ a ++ "'"
  | [a, b] => "'" ++ a ++ "' and '" ++ b ++ "'"
  | names => Text.join ", " ((names.dropLast).map fun n => "'" ++ n ++ "'")
      ++ ", and '" ++ names.getLastD "" ++ "'"

def ArgumentFault.kind : ArgumentFault → FaultKind
  | .noNumbers _ => .value
  | _ => .type

def ArgumentFault.message : ArgumentFault → Text
  | .numbersExpected function found => function ++ "() expects numbers, got " ++ found
  | .numberExpected function found => function ++ "() expects a number, got " ++ found
  | .arrayExpected function found => function ++ "() expects an array, got " ++ found
  | .textExpected function found => function ++ "() expects a string, got " ++ found
  | .predicateExpected function => function ++ "() expects a predicate such as x => x > 0"
  | .dateExpected found => "expected an ISO date string, got " ++ found
  | .noNumbers function => function ++ "() requires at least one number"
  | .missing function parameters =>
    function ++ "() missing " ++ Text.ofNat parameters.length ++ " required positional argument"
      ++ (if parameters.length = 1 then ": " else "s: ") ++ quotedNames parameters
  | .tooMany function least most given =>
    function ++ "() takes "
      ++ (if least = most then Text.ofNat most
          else "from " ++ Text.ofNat least ++ " to " ++ Text.ofNat most)
      ++ (if most = 1 && least = most then " positional argument" else " positional arguments")
      ++ " but " ++ Text.ofNat given ++ (if given = 1 then " was given" else " were given")
  | .repeated function parameter =>
    function ++ "() got multiple values for argument '" ++ parameter ++ "'"

namespace Fault

def kind : Fault → FaultKind
  | integerTooLargeForFloat | quotientTooLargeForFloat | infinityToInteger | beyondWord => .overflow
  | divisionByZero _ => .zeroDivision
  | notANumberToInteger | tooManyDigitsToWrite | tooManyDigitsToRead _ | pairLength ..
  | notACodePoint | notAnInteger .. | notAFloat _ => .value
  | notABoolean _ => .key
  | emptyNumeral => .index
  | missingAttribute | missingSetting _ => .attribute
  | argument fault => fault.kind
  | date fault => fault.kind
  | malformedDocument => .document
  | stated kind _ => kind
  | _ => .type

/-- The longest number, in decimal digits, that is converted from or to text. -/
def digitLimit : Nat := 4300

def digitLimitAdvice : Text := "use sys.set_int_max_str_digits() to increase the limit"

/-- How much of a text the message about an integer shows. -/
def shownLength : Nat := 200

def message : Fault → Text
  | integerTooLargeForFloat => "int too large to convert to float"
  | quotientTooLargeForFloat => "integer division result too large for a float"
  | divisionByZero floating => if floating then "float division by zero" else "division by zero"
  | notANumberToInteger => "cannot convert float NaN to integer"
  | infinityToInteger => "cannot convert float infinity to integer"
  | tooManyDigitsToWrite =>
    "Exceeds the limit (" ++ Text.ofNat digitLimit ++ " digits) for integer string conversion; "
      ++ digitLimitAdvice
  | tooManyDigitsToRead count =>
    "Exceeds the limit (" ++ Text.ofNat digitLimit
      ++ " digits) for integer string conversion: value has " ++ Text.ofNat count ++ " digits; "
      ++ digitLimitAdvice
  | unsupportedValue typeName => "unsupported value type " ++ typeName
  | incomparable left right => "cannot compare " ++ left ++ " with " ++ right
  | incomparableNotANumber => "cannot compare NaN"
  | unordered operator left right =>
    "'" ++ operator ++ "' not supported between instances of '" ++ left ++ "' and '" ++ right ++ "'"
  | dateWithMoment => "can't compare datetime.datetime to datetime.date"
  | mixedOffsets => "can't compare offset-naive and offset-aware datetimes"
  | notCallable typeName => "'" ++ typeName ++ "' object is not callable"
  | unhashable typeName => "unhashable type: '" ++ typeName ++ "'"
  | notIterable typeName => "'" ++ typeName ++ "' object is not iterable"
  | pairExpected index =>
    "cannot convert dictionary update sequence element #" ++ Text.ofNat index ++ " to a sequence"
  | pairLength index length =>
    "dictionary update sequence element #" ++ Text.ofNat index ++ " has length "
      ++ Text.ofNat length ++ "; 2 is required"
  | jsonKey typeName => "keys must be str, int, float, bool or None, not " ++ typeName
  | notText typeName => "expected string or bytes-like object, got '" ++ typeName ++ "'"
  | bytesNotText => "cannot use a string pattern on a bytes-like object"
  | missingAttribute => ""
  | missingSetting key => "Setting '" ++ key ++ "' not found"
  | argument fault => fault.message
  | date fault => fault.message
  | malformedDocument => "YAML parse error"
  | notACodePoint => "chr() arg not in range(0x110000)"
  | beyondWord => "Python int too large to convert to C int"
  | emptyNumeral => "string index out of range"
  | notAnInteger base text =>
    "invalid literal for int() with base " ++ Text.ofNat base ++ ": "
      ++ ⟨text.quoted.points.take shownLength⟩
  | notAFloat text => "could not convert string to float: " ++ text.quoted
  | notABoolean text => text.quoted
  | stated _ text => text

end Fault
end Vetting
