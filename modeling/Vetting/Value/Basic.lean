import Vetting.Function.Builtin
import Vetting.Number
import Vetting.Value.Foreign

/-!
# Values and expression trees

Values are what records hold, rules compare and expressions compute. Besides the six kinds of
model values there are tuples, which normalisation turns into arrays, functions, and foreign
objects. A closure holds the tree of its body, so values and trees are defined together.
-/

namespace Vetting

/-- A function supplied by the host. Two host functions are the same when their handles are. -/
structure HostFunction where
  name : Text
  handle : Nat
  description : Option Text
deriving DecidableEq, Inhabited

mutual

inductive Value where
  | null
  | boolean (b : Bool)
  | number (n : Number)
  | text (t : Text)
  | array (items : List Value)
  | tuple (items : List Value)
  /-- A mapping, in the order of its fields. -/
  | object (fields : List (Value × Value))
  /-- An object outside the model. -/
  | foreign (object : Foreign)
  | host (f : HostFunction)
  | builtin (b : Builtin)
  /-- A lambda with the names that were bound where it was evaluated, innermost first. The
  serial number tells the closures of one evaluation apart. -/
  | closure (serial : Nat) (position : Nat) (parameter : Text) (body : Node)
      (scope : List (Text × Value))

/-- Expression trees; every node knows the position of its first token, an operator node that of
its operator. -/
inductive Node where
  | literal (position : Nat) (value : Value)
  | identifier (position : Nat) (name : Text)
  | array (position : Nat) (items : List Node)
  /-- An array spread into the arguments of a call. -/
  | spread (position : Nat) (name : Text)
  | lambda (position : Nat) (parameter : Text) (body : Node)
  | call (position : Nat) (name : Text) (arguments : List Node)
  | unary (position : Nat) (operator : Text) (operand : Node)
  | binary (position : Nat) (operator : Text) (left right : Node)
  | logical (position : Nat) (operator : Text) (left right : Node)
  /-- A node of no known form. -/
  | bare (position : Nat)

end

instance : Inhabited Value := ⟨.null⟩
instance : Inhabited Node := ⟨.bare 0⟩

/-- Names bound to values, the innermost binding first. -/
abbrev Scope := List (Text × Value)

/-- The fields of an object, in order. -/
abbrev Fields := List (Value × Value)

namespace Node

def position : Node → Nat
  | literal p _ | identifier p _ | array p _ | spread p _ | lambda p _ _ | call p _ _
  | unary p _ _ | binary p _ _ _ | logical p _ _ _ | bare p => p

def form : Node → Text
  | literal .. => "Literal"
  | identifier .. => "Identifier"
  | array .. => "ArrayLiteral"
  | spread .. => "Spread"
  | lambda .. => "Lambda"
  | call .. => "Call"
  | unary .. => "Unary"
  | binary .. => "Binary"
  | logical .. => "Logical"
  | bare _ => "Node"

end Node

/-- The kinds of model values. -/
inductive Kind where
  | null | number | string | boolean | array | object
deriving DecidableEq

def Kind.name : Kind → Text
  | null => "null"
  | number => "number"
  | string => "string"
  | boolean => "boolean"
  | array => "array"
  | object => "object"

namespace Value

def integer (i : Int) : Value := .number (.integer i)

def float (x : Binary64) : Value := .number (.float x)

/-- The kind of a value; functions and foreign objects have none. -/
def kind? : Value → Option Kind
  | null => some .null
  | boolean _ => some .boolean
  | number _ => some .number
  | text _ => some .string
  | array _ | tuple _ => some .array
  | object _ => some .object
  | foreign _ | host _ | builtin _ | closure .. => none

/-- The name of the concrete type of a value, as messages of the host give it. -/
def typeName : Value → Text
  | null => "NoneType"
  | boolean _ => "bool"
  | number (.integer _) => "int"
  | number (.float _) => "float"
  | text _ => "str"
  | array _ => "list"
  | tuple _ => "tuple"
  | object _ => "dict"
  | foreign thing => thing.typeName
  | host _ => "Native"
  | builtin _ => "function"
  | closure .. => "LambdaClosure"

/-- The name of the concrete type of a value with its family, as messages about operations that the
type lacks give it. -/
def familyTypeName : Value → Text
  | foreign thing => thing.familyTypeName
  | v => v.typeName

/-- The kind of a value, or its type where it has none. -/
def describe (v : Value) : Text :=
  match v.kind? with
  | some k => k.name
  | none => v.typeName

def isCallable : Value → Bool
  | host _ | builtin _ | closure .. => true
  | _ => false

def isNumber : Value → Bool
  | number _ => true
  | _ => false

def isText : Value → Bool
  | text _ => true
  | _ => false

def items? : Value → Option (List Value)
  | array items | tuple items => some items
  | _ => none

def kind (v : Value) : Except Fault Kind :=
  match v.kind? with
  | some k => .ok k
  | none => .error (.unsupportedValue v.typeName)

mutual

/-- Whether a value is built from the six kinds alone, with texts as keys. -/
def isModel : Value → Bool
  | null | boolean _ | number _ | text _ => true
  | array items | tuple items => isModelList items
  | object fields => isModelFields fields
  | foreign _ | host _ | builtin _ | closure .. => false

def isModelList : List Value → Bool
  | [] => true
  | v :: vs => isModel v && isModelList vs

def isModelFields : Fields → Bool
  | [] => true
  | (k, v) :: rest => k.isText && isModel v && isModelFields rest

end

end Value
end Vetting
