import Vetting.Expression.Problem
import Vetting.Value.Order

/-!
# Failures

A failure is either a fault from below the engine or an error of the engine itself. An engine
error has a class, a code for programs, a message for people and details.
-/

namespace Vetting

/-- The classes of errors that carry only a message and details. -/
inductive ErrorCategory where
  | engine
  | configuration
  | validation
deriving DecidableEq

/-- The two steps at which an expression can fail; `any` leaves the step open. -/
inductive ExpressionStage where
  | any
  | parsing
  | evaluation
deriving DecidableEq

/-- What is wrong with an expression. -/
inductive ExpressionReason where
  | parsing (problem : ParseProblem)
  | evaluation (problem : EvaluationProblem)
  | stated (text : Text)

def ExpressionReason.message : ExpressionReason → Text
  | parsing problem => problem.reason
  | evaluation problem => problem.reason
  | stated text => text

/-- An expression that could not be parsed or evaluated: the reason, the source text if it is
known, and a position in it. -/
structure ExpressionError where
  stage : ExpressionStage
  reason : ExpressionReason
  source : Option Text
  position : Option Int

mutual

inductive Failure where
  | fault (fault : Fault)
  | engine (error : EngineError)
  /-- The evaluation nested deeper than its capacity. -/
  | exhausted

inductive EngineError where
  | general (category : ErrorCategory) (message : Text) (details : Value)
  /-- A file could not be loaded. -/
  | load (path reason : Text)
  /-- No criterion has this id; `shown` is the id as messages show it. -/
  | unknownCriterion (id : Value) (shown : Text)
  | functionTaken (name registry : Text)
  /-- The derivation of a criterion failed. -/
  | computation (criterion : Value) (shown : Text) (cause : Failure)
  | expression (error : ExpressionError)

end

instance : Inhabited Failure := ⟨.exhausted⟩

namespace ExpressionError

def message (e : ExpressionError) : Text :=
  match e.position with
  | none => e.reason.message
  | some position => e.reason.message ++ " (at position " ++ Text.ofInt position ++ ")"

def details (e : ExpressionError) : Fields :=
  Fields.ofNamed ((e.source.map fun s => (("expression" : Text), Value.text s)).toList
    ++ (e.position.map fun p => (("position" : Text), Value.integer p)).toList)

def ofParse (failure : ParseFailure) (source : Option Text) : ExpressionError :=
  ⟨.parsing, .parsing failure.problem, source, failure.position.map Int.ofNat⟩

/-- The error of an evaluation problem at a node, before the source text is known. -/
def ofEvaluation (problem : EvaluationProblem) (position : Option Nat) : ExpressionError :=
  ⟨.evaluation, .evaluation problem, none, position.map Int.ofNat⟩

/-- The error with the source text, unless it has one. -/
def within (source : Option Text) (e : ExpressionError) : ExpressionError :=
  { e with source := e.source.orElse fun _ => source }

end ExpressionError

namespace ErrorCategory

def code : ErrorCategory → Text
  | engine => "ENGINE_ERROR"
  | configuration => "CONFIGURATION_ERROR"
  | validation => "VALIDATION_ERROR"

def className : ErrorCategory → Text
  | engine => "CriteriaEngineError"
  | configuration => "ConfigurationError"
  | validation => "ValidationError"

end ErrorCategory

namespace ExpressionStage

def className : ExpressionStage → Text
  | any => "ExpressionError"
  | parsing => "ExpressionParseError"
  | evaluation => "ExpressionEvaluationError"

end ExpressionStage

mutual

def Failure.message : Failure → Text
  | .fault fault => fault.message
  | .engine error => error.message
  | .exhausted => "maximum recursion depth exceeded"

def EngineError.message : EngineError → Text
  | .general _ message _ => message
  | .load path reason => "Failed to load '" ++ path ++ "': " ++ reason
  | .unknownCriterion _ shown => "Criterion '" ++ shown ++ "' not found"
  | .functionTaken name registry =>
    "Function '" ++ name ++ "' already registered"
      ++ (if registry.isEmpty then Text.empty else " in registry '" ++ registry ++ "'")
  | .computation _ shown cause =>
    "Failed to compute value for criterion '" ++ shown ++ "': " ++ cause.message
  | .expression error => error.message

end

namespace EngineError

/-- The class of an error and the classes that it specialises, up to the class of all. -/
def classes : EngineError → List Text
  | general .engine .. => [ErrorCategory.engine.className]
  | general category .. => [category.className, ErrorCategory.engine.className]
  | load .. => ["ConfigLoadError", ErrorCategory.configuration.className, ErrorCategory.engine.className]
  | unknownCriterion .. =>
    ["UnknownCriterionError", ErrorCategory.configuration.className, ErrorCategory.engine.className]
  | functionTaken .. =>
    ["FunctionAlreadyRegisteredError", ErrorCategory.configuration.className,
      ErrorCategory.engine.className]
  | computation .. => ["ComputationError", ErrorCategory.engine.className]
  | expression ⟨.any, _, _, _⟩ => ["ExpressionError", ErrorCategory.engine.className]
  | expression ⟨stage, _, _, _⟩ => [stage.className, "ExpressionError", ErrorCategory.engine.className]

def className (e : EngineError) : Text := e.classes.headD ""

/-- The code that a program tells errors apart by. -/
def code : EngineError → Text
  | general category .. => category.code
  | load .. | unknownCriterion .. | functionTaken .. => ErrorCategory.configuration.code
  | computation .. => "COMPUTATION_ERROR"
  | expression _ => "EXPRESSION_ERROR"

def details : EngineError → Value
  | general _ _ details => if details.isSet then details else .object []
  | load path _ => .object (Fields.ofNamed [("file_path", .text path)])
  | unknownCriterion id _ => .object (Fields.ofNamed [("criterion_id", id)])
  | functionTaken name _ => .object (Fields.ofNamed [("function_name", .text name)])
  | computation criterion _ cause =>
    .object (Fields.ofNamed [("criterion_id", criterion), ("error", .text cause.message)])
  | expression error => .object error.details

def configuration (message : Text) (details : List (Text × Value)) : EngineError :=
  general .configuration message (.object (Fields.ofNamed details))

end EngineError

namespace Failure

def className : Failure → Text
  | fault f => f.kind.name
  | engine e => e.className
  | exhausted => "RecursionError"

def configuration (message : Text) (details : List (Text × Value)) : Failure :=
  .engine (.configuration message details)

def evaluation (problem : EvaluationProblem) (position : Option Nat) : Failure :=
  .engine (.expression (.ofEvaluation problem position))

/-- The failure of a derivation. Its message shows the criterion's id, which must be writable. -/
def computation (criterion : Value) (cause : Failure) : Failure :=
  match criterion.display with
  | .ok shown => .engine (.computation criterion shown cause)
  | .error f => .fault f

def unknownCriterion (id : Value) : Failure :=
  match id.display with
  | .ok shown => .engine (.unknownCriterion id shown)
  | .error f => .fault f

end Failure

/-- A result of an operation on values, as a result of the engine. -/
def ofFault {α : Type} : Except Fault α → Except Failure α
  | .ok a => .ok a
  | .error f => .error (.fault f)

end Vetting
