import Vetting.Expression.Limit
import Vetting.Expression.Problem
import Vetting.Expression.Token

/-!
# Steps of a cursor

A parser that moves a cursor through the text and then another one through the tokens. Nothing in a
step makes sure that it ends, that a loop gets on, that a list is read inside its bounds or that the
depth is counted back, so all of this has to be proved of the steps. What they do is recorded.
-/

namespace Vetting.Cursor

/-- What is done while a text is parsed. -/
inductive Event where
  /-- A round of a loop over the text, from the position where it starts to where it ends. -/
  | read (start finish : Nat)
  /-- A round of a loop over the tokens. -/
  | consumed (start finish : Nat)
  /-- The index of the next token has changed. -/
  | moved (index : Nat)
  /-- The depth has been counted up. -/
  | entered (depth : Int)

/-- Whether an event is as it should be for a text of a length with a number of tokens: the loops get
on, the index stays inside the tokens, and the depth is at most one more than the limit. -/
def Event.Sound (length count : Nat) (limit : Limit) : Event → Prop
  | .read start finish => start < finish ∧ finish ≤ length
  | .consumed start finish => start < finish ∧ finish < count
  | .moved index => index < count
  | .entered depth => ∀ bound ∈ limit.bound, depth ≤ bound + 1

/-- The position in the text, the index of the next token, the depth, and what was done so far, the
latest first. -/
structure Walk where
  position : Nat
  index : Nat
  depth : Int
  events : List Event

def Walk.start : Walk := ⟨0, 0, 0, []⟩

def Walk.leave (walk : Walk) : Walk := { walk with depth := walk.depth - 1 }

/-- Why a step stops: the text is not an expression, or a list was read outside of its bounds. -/
inductive Stop where
  | failure (failure : ParseFailure)
  | outside

/-- A step from a walk to a later one. It may not end. -/
abbrev Step (α : Type) := ExceptT Stop (StateT Walk Option) α

namespace Step

def position : Step Nat := return (← get).position

def index : Step Nat := return (← get).index

def record (event : Event) : Step Unit :=
  modify fun walk => { walk with events := event :: walk.events }

def fail {α : Type} (problem : ParseProblem) (position : Nat) : Step α :=
  throw (.failure ⟨problem, some position⟩)

/-- The element of a list that has to be there. -/
def require {α : Type} (element : Option α) : Step α :=
  match element with
  | some a => pure a
  | none => throw .outside

/-! ## Steps that end -/

/-- Whether a step ends, and how. -/
def Ends {α : Type} (step : Step α) (walk : Walk) (post : Except Stop α → Walk → Prop) : Prop :=
  ∃ result after, step.run.run walk = some (result, after) ∧ post result after

variable {α β : Type} {walk : Walk}

theorem ends_pure {a : α} {post : Except Stop α → Walk → Prop} (h : post (.ok a) walk) :
    Ends (pure a) walk post := ⟨.ok a, walk, rfl, h⟩

theorem ends_throw {stop : Stop} {post : Except Stop α → Walk → Prop} (h : post (.error stop) walk) :
    Ends (throw stop) walk post := ⟨.error stop, walk, rfl, h⟩

theorem Ends.mono {step : Step α} {post post' : Except Stop α → Walk → Prop}
    (h : step.Ends walk post) (hp : ∀ result after, post result after → post' result after) :
    step.Ends walk post' := by
  obtain ⟨result, after, hrun, hpost⟩ := h
  exact ⟨result, after, hrun, hp _ _ hpost⟩

theorem ends_bind {step : Step α} {next : α → Step β} {post : Except Stop β → Walk → Prop}
    (h : step.Ends walk fun result after =>
      match result with
      | .ok a => (next a).Ends after post
      | .error stop => post (.error stop) after) :
    (step >>= next).Ends walk post := by
  obtain ⟨result, after, hrun, h⟩ := h
  cases result with
  | ok a =>
    obtain ⟨result, last, hnext, hpost⟩ := h
    refine ⟨result, last, ?_, hpost⟩
    rw [ExceptT.run_bind, StateT.run_bind, hrun]
    exact hnext
  | error stop =>
    refine ⟨.error stop, after, ?_, h⟩
    rw [ExceptT.run_bind, StateT.run_bind, hrun]
    rfl

end Step
end Vetting.Cursor
