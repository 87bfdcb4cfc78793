import Vetting.Proofs.Evaluation.FreeNames
import Vetting.Proofs.Expression.Subtree

/-!
# Renaming the parameter of a lambda

The parameter of one lambda gets another name, and so do the occurrences that the lambda binds: as
identifier, as the name of a call and as what is spread. An error quotes the name that stands at its
position, and so is respelled where this name has changed.
-/

namespace Vetting

/-! ## Lambdas as tests -/

namespace Builtin

/-- The built-ins that call a predicate. -/
def tests : List Builtin := [filter, any, all]

def testNames : List Text := tests.map name

theorem mem_tests_of_name_mem {b : Builtin} (h : b.name ∈ testNames) : b ∈ tests := by
  revert h
  cases b <;> decide

end Builtin

mutual

/-- Trees whose lambdas are arguments of calls by the names of such built-ins, where no parameter has
such a name. -/
inductive Node.LambdasTest : Node → Prop
  | literal {position : Nat} {v : Value} : LambdasTest (.literal position v)
  | identifier {position : Nat} {name : Text} : LambdasTest (.identifier position name)
  | spread {position : Nat} {name : Text} : LambdasTest (.spread position name)
  | array {position : Nat} {items : List Node} (h : ∀ node ∈ items, LambdasTest node) :
      LambdasTest (.array position items)
  | call {position : Nat} {name : Text} {arguments : List Node}
      (h : ∀ node ∈ arguments, LambdasTestFor name node) : LambdasTest (.call position name arguments)
  | unary {position : Nat} {operator : Text} {operand : Node} (h : LambdasTest operand) :
      LambdasTest (.unary position operator operand)
  | binary {position : Nat} {operator : Text} {left right : Node} (hl : LambdasTest left)
      (hr : LambdasTest right) : LambdasTest (.binary position operator left right)
  | logical {position : Nat} {operator : Text} {left right : Node} (hl : LambdasTest left)
      (hr : LambdasTest right) : LambdasTest (.logical position operator left right)
  | bare {position : Nat} : LambdasTest (.bare position)

/-- The arguments of calls by a name in such trees. -/
inductive Node.LambdasTestFor : Text → Node → Prop
  | plain {name : Text} {node : Node} (h : LambdasTest node) : LambdasTestFor name node
  | lambda {name : Text} {position : Nat} {parameter : Text} {body : Node}
      (hn : name ∈ Builtin.testNames) (hp : parameter ∉ Builtin.testNames) (h : LambdasTest body) :
      LambdasTestFor name (.lambda position parameter body)

end

namespace Node

/-! ## Renaming -/

def name? : Node → Option Text
  | identifier _ name | spread _ name | lambda _ name _ | call _ name _ => some name
  | literal .. | array .. | unary .. | binary .. | logical .. | bare _ => none

def renamed (old new name : Text) : Text := if name = old then new else name

@[simp] theorem renamed_old (old new : Text) : renamed old new old = new := if_pos rfl

theorem renamed_of_ne {old new name : Text} (h : name ≠ old) : renamed old new name = name := if_neg h

mutual

/-- A tree with another name at the free occurrences of a name. -/
def rename (old new : Text) : Node → Node
  | literal p v => literal p v
  | identifier p name => identifier p (renamed old new name)
  | array p nodes => array p (renameIn old new nodes)
  | spread p name => spread p (renamed old new name)
  | lambda p parameter body =>
    lambda p parameter (if parameter = old then body else body.rename old new)
  | call p name nodes => call p (renamed old new name) (renameIn old new nodes)
  | unary p operator operand => unary p operator (operand.rename old new)
  | binary p operator left right => binary p operator (left.rename old new) (right.rename old new)
  | logical p operator left right => logical p operator (left.rename old new) (right.rename old new)
  | bare p => bare p

def renameIn (old new : Text) : List Node → List Node
  | [] => []
  | node :: rest => node.rename old new :: renameIn old new rest

end

mutual

/-- Whether a lambda within a tree would bind the new name at a free occurrence of the old one. -/
def captures (old new : Text) : Node → Bool
  | literal .. | identifier .. | spread .. | bare _ => false
  | array _ nodes | call _ _ nodes => capturesIn old new nodes
  | lambda _ parameter body =>
    parameter ≠ old && (parameter = new && old ∈ body.freeNames || body.captures old new)
  | unary _ _ operand => operand.captures old new
  | binary _ _ left right | logical _ _ left right => left.captures old new || right.captures old new

def capturesIn (old new : Text) : List Node → Bool
  | [] => false
  | node :: rest => node.captures old new || capturesIn old new rest

end

mutual

/-- A tree where the parameter of the lambda at a position has another name, and the occurrences that
this lambda binds have it as well. -/
def renameParameter (place : Nat) (new : Text) : Node → Node
  | literal p v => literal p v
  | identifier p name => identifier p name
  | array p nodes => array p (renameParameterIn place new nodes)
  | spread p name => spread p name
  | lambda p parameter body =>
    if p = place then lambda p new (body.rename parameter new)
    else lambda p parameter (body.renameParameter place new)
  | call p name nodes => call p name (renameParameterIn place new nodes)
  | unary p operator operand => unary p operator (operand.renameParameter place new)
  | binary p operator left right =>
    binary p operator (left.renameParameter place new) (right.renameParameter place new)
  | logical p operator left right =>
    logical p operator (left.renameParameter place new) (right.renameParameter place new)
  | bare p => bare p

def renameParameterIn (place : Nat) (new : Text) : List Node → List Node
  | [] => []
  | node :: rest => node.renameParameter place new :: renameParameterIn place new rest

end

/-! ## Positions -/

mutual

theorem positions_rename (old new : Text) (node : Node) :
    (node.rename old new).positions = node.positions := by
  match node with
  | literal .. | identifier .. | spread .. | bare _ => rfl
  | array _ nodes | call _ _ nodes =>
    rw [rename, positions, positions, positionsIn_renameIn old new nodes]
  | lambda p parameter body =>
    rw [rename, positions, positions]
    split
    · rfl
    · rw [body.positions_rename old new]
  | unary _ _ operand => rw [rename, positions, positions, operand.positions_rename old new]
  | binary _ _ left right | logical _ _ left right =>
    rw [rename, positions, positions, left.positions_rename old new, right.positions_rename old new]

theorem positionsIn_renameIn (old new : Text) (nodes : List Node) :
    positionsIn (renameIn old new nodes) = positionsIn nodes := by
  match nodes with
  | [] => rfl
  | node :: rest =>
    rw [renameIn, positionsIn, positionsIn, node.positions_rename old new,
      positionsIn_renameIn old new rest]

end

mutual

theorem positions_renameParameter (place : Nat) (new : Text) (node : Node) :
    (node.renameParameter place new).positions = node.positions := by
  match node with
  | literal .. | identifier .. | spread .. | bare _ => rfl
  | array _ nodes | call _ _ nodes =>
    rw [renameParameter, positions, positions, positionsIn_renameParameterIn place new nodes]
  | lambda p parameter body =>
    rw [renameParameter]
    split
    · rw [positions, positions, body.positions_rename parameter new]
    · rw [positions, positions, body.positions_renameParameter place new]
  | unary _ _ operand =>
    rw [renameParameter, positions, positions, operand.positions_renameParameter place new]
  | binary _ _ left right | logical _ _ left right =>
    rw [renameParameter, positions, positions, left.positions_renameParameter place new,
      right.positions_renameParameter place new]

theorem positionsIn_renameParameterIn (place : Nat) (new : Text) (nodes : List Node) :
    positionsIn (renameParameterIn place new nodes) = positionsIn nodes := by
  match nodes with
  | [] => rfl
  | node :: rest =>
    rw [renameParameterIn, positionsIn, positionsIn, node.positions_renameParameter place new,
      positionsIn_renameParameterIn place new rest]

end

theorem Spaced.renameParameter {tree : Node} (h : tree.Spaced) (place : Nat) (new : Text) :
    (tree.renameParameter place new).Spaced := by
  rw [Spaced, positions_renameParameter]
  exact h

/-! ## Names in errors -/

/-- How a name at a position is spelled after a renaming: the new name stands for the old one where
the renamed tree has it. -/
def respelling (old new : Text) (renamed : Node) (p : Nat) (name : Text) : Text :=
  if name = old ∧ ∃ node ∈ renamed.subtrees, node.position = p ∧ node.name? = some new then new
  else name

section Respelling
variable {old new : Text} {tree node : Node}

/-- A name that stands in the renamed tree has not changed. -/
theorem respelling_eq_self (h : tree.Spaced) (hn : node ∈ tree.subtrees) {name : Text}
    (hname : node.name? = some name) : respelling old new tree node.position name = name := by
  unfold respelling
  split
  · rename_i hrenamed
    obtain ⟨_, other, hother, hp, hnew⟩ := hrenamed
    obtain rfl := h.eq_of_position_eq hother hn hp
    exact Option.some.inj (hnew.symm.trans hname)
  · rfl

theorem respelling_eq_new (hn : node ∈ tree.subtrees) (hname : node.name? = some new) :
    respelling old new tree node.position old = new := if_pos ⟨rfl, node, hn, rfl, hname⟩

theorem respelling_eq_renamed (h : tree.Spaced) (hn : node ∈ tree.subtrees) {name : Text}
    (hname : node.name? = some (renamed old new name)) :
    respelling old new tree node.position name = renamed old new name := by
  by_cases ho : name = old
  · subst ho
    rw [renamed_old] at hname ⊢
    exact respelling_eq_new hn hname
  · rw [renamed_of_ne ho] at hname ⊢
    exact respelling_eq_self h hn hname

end Respelling

end Node

/-! ## Errors -/

/-- A problem that quotes another name. -/
def EvaluationProblem.respell (f : Text → Text) : EvaluationProblem → EvaluationProblem
  | unknownIdentifier name => unknownIdentifier (f name)
  | cannotSpread name found => cannotSpread (f name) found
  | notAFunction name => notAFunction (f name)
  | functionFailed name message => functionFailed (f name) message
  | unsupportedResult name found => unsupportedResult (f name) found
  | lambdaArity parameter given => lambdaArity (f parameter) given
  | problem => problem

/-- An error of an evaluation that quotes the name at its position as this spells it. -/
def ExpressionError.respell (f : Nat → Text → Text) (e : ExpressionError) : ExpressionError :=
  match e.reason, e.position with
  | .evaluation problem, some p => { e with reason := .evaluation (problem.respell (f p.toNat)) }
  | _, _ => e

def Failure.respell (f : Nat → Text → Text) : Failure → Failure
  | .engine (.expression e) => .engine (.expression (e.respell f))
  | e => e

end Vetting
