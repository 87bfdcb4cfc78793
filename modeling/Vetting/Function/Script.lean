import Vetting.Error

/-!
# What a function does

A script is what a function does when it is called: it finishes, or it first calls another
function, or it looks at or changes the state of the host. A function that calls another one sees
whether that one failed.
-/

namespace Vetting

inductive Script (σ α : Type) where
  | finish (result : Except Failure α)
  | call (callee : Value) (arguments : List Value) (resume : Except Failure Value → Script σ α)
  | read (resume : σ → Script σ α)
  | write (state : σ) (rest : Script σ α)

namespace Script

variable {σ α β : Type}

/-- The script that goes on with the result of another one, unless that one failed. -/
def bind (first : Script σ α) (next : α → Script σ β) : Script σ β :=
  match first with
  | finish (.ok a) => next a
  | finish (.error e) => finish (.error e)
  | call callee arguments resume => call callee arguments fun r => (resume r).bind next
  | read resume => read fun s => (resume s).bind next
  | write state rest => write state (rest.bind next)

instance : Monad (Script σ) where
  pure a := finish (.ok a)
  bind := bind

@[simp] theorem bind_eq (first : Script σ α) (next : α → Script σ β) :
    (first >>= next) = first.bind next := rfl

def fail (e : Failure) : Script σ α := finish (.error e)

def fault (f : Fault) : Script σ α := fail (.fault f)

def ofResult (result : Except Fault α) : Script σ α := finish (ofFault result)

def apply (callee : Value) (arguments : List Value) : Script σ Value :=
  call callee arguments finish

end Script
end Vetting
