import Vetting.Expression.Cache
import Vetting.Expression.Evaluation
import Vetting.Log
import Vetting.Settings

/-!
# Sessions

A session is all that the engine keeps from one operation to the next: the host with its state and
how deep it can nest, the settings, the cache of the parser and the log.
-/

namespace Vetting

structure Session (σ : Type) where
  host : Host σ
  state : σ
  settings : Fields
  cache : ParseCache
  log : Log
  capacity : Capacity := {}

/-- An operation of the engine. -/
abbrev Engine (σ α : Type) := ExceptT Failure (StateM (Session σ)) α

namespace Engine

variable {σ α : Type}

def ofResult (result : Except Failure α) : Engine σ α := ExceptT.mk (pure result)

def ofFault (result : Except Fault α) : Engine σ α := ofResult (Vetting.ofFault result)

def attempt (m : Engine σ α) : Engine σ (Except Failure α) := ExceptT.mk (Except.ok <$> m.run)

def settings : Engine σ Fields := do
  let session ← get
  return session.settings

/-! ## Logging -/

def log (event : LogEvent) : Engine σ Unit := do
  let session ← get
  let log ← ofFault (session.log.write session.host.instant event)
  set { session with log }

def logLine (line : Text) : Engine σ Unit :=
  modify fun session =>
    { session with log := { session.log with lines := session.log.lines ++ [.readable line] } }

/-! ## Settings -/

/-- Replaces the settings by those of a file's content, with a warning for each problem. A content
that is no settings changes nothing. -/
def reload (content : Except Fault Value) : Engine σ Unit := do
  let content ← ofFault content
  let fresh ← ofFault (Settings.ofContent content)
  let problems ← ofFault (Settings.problems fresh)
  for problem in problems do
    logLine ("Invalid setting: " ++ problem)
  modify fun session => { session with settings := fresh }

/-! ## Expressions -/

def parse (source : Value) : Engine σ Node :=
  match source with
  | .text text => do
    let session ← get
    let (result, cache) := session.cache.parse session.capacity.parsing
      (Settings.limits session.settings) text
    set { session with cache }
    ofResult result
  | v => do
    let session ← get
    ofResult (Expression.parse session.capacity.parsing (Settings.limits session.settings) v)

/-- The tree of a value within limits of its own; one that is null or zero is taken from the
settings. -/
def parseWithin (depth length source : Value) : Engine σ Node := do
  let session ← get
  let limits := Settings.limits session.settings
  ofResult (Expression.parse session.capacity.parsing
    ⟨if depth.isSet then depth else limits.depth, if length.isSet then length else limits.length⟩
    source)

def evaluateTree (functions : Scope) (tree : Node) (record : Value) (source : Option Text) :
    Engine σ Value := do
  let session ← get
  let (result, state) :=
    Expression.evaluateTree session.capacity.evaluation ⟨session.host, functions⟩ tree record source session.state
  set { session with state }
  ofResult result

def evaluate (functions : Scope) (source : Value) (record : Value) : Engine σ Value := do
  let tree ← parse source
  let text := match source with
    | .text t => some t
    | _ => none
  evaluateTree functions tree record text

def call (functions : Scope) (callee : Value) (arguments : List Value) : Engine σ Value := do
  let session ← get
  let (result, machine) :=
    (Evaluation.call ⟨session.host, functions⟩ session.capacity.evaluation callee arguments).run
      ⟨session.state, 0⟩
  set { session with state := machine.state }
  ofResult result

end Engine
end Vetting
