import Vetting.Resolver.Basic

/-!
# Setting up a resolver

The functions are registered first, over the built-ins. Then the criteria are defined in order:
of two with the same id the later one counts, at the place of the earlier one. At last the
language is chosen, which the catalog must have.
-/

namespace Vetting

/-- A criterion, or data that describes one. -/
inductive Definition where
  | criterion (c : Criterion)
  | data (v : Value)

/-- What a resolver is set up from: criteria, or a sequence of data about them. -/
inductive Definitions where
  | loaded (criteria : List Criterion)
  | data (v : Value)

namespace Definition

def resolve : Definition → Except Failure Criterion
  | criterion c => .ok c
  | data v => Criterion.ofValue v

end Definition

namespace Definitions

/-- The definitions one by one; what counts as nothing has none. -/
def items : Definitions → Except Fault (List Definition)
  | loaded criteria => .ok (criteria.map .criterion)
  | data v =>
    if v.isSet then do
      let items ← v.elements
      return items.map .data
    else .ok []

end Definitions

namespace Rule

variable {σ : Type}

/-- The rule with its expression parsed anew and without functions of its own. -/
def rebound : Rule → Engine σ Rule
  | custom (.expression source _ _) description => do
    let tree ← Engine.parse (.text source)
    return custom (.expression source tree none) description
  | rule => pure rule

def reboundAll : List Rule → Engine σ (List Rule)
  | [] => pure []
  | rule :: rest => do
    let first ← rebound rule
    let others ← reboundAll rest
    return first :: others

end Rule

namespace Resolver

variable {σ : Type}

/-- The criteria with one more: it takes the place of the one with its id, or comes last. -/
def define (criteria : List Criterion) (c : Criterion) : List Criterion :=
  match criteria with
  | [] => [c]
  | d :: rest => if d.id.sameKey c.id then c :: rest else d :: define rest c

/-- Defines criteria one after the other. Their expression rules see the functions of the
resolver. -/
def defineAll (criteria : List Criterion) : List Definition → Engine σ (List Criterion)
  | [] => pure criteria
  | definition :: rest => do
    let c ← Engine.ofResult definition.resolve
    Engine.ofFault c.id.checkKey
    if criteria.any fun d => d.id.sameKey c.id then
      Engine.log (.warning "Duplicate criterion id, last definition wins" [("criterion", c.id)])
    let rules ← Rule.reboundAll c.rules
    defineAll (define criteria { c with rules }) rest

/-- The wanted language or else that of the settings, if the catalog has it; otherwise the
default language of the catalog. -/
def chooseLanguage (catalog : Catalog) (wanted : Value) : Engine σ Value := do
  let settings ← Engine.settings
  let wanted := if wanted.isSet then wanted else Settings.language settings
  if ← Engine.ofFault (catalog.hasLanguage wanted) then return wanted
  Engine.log (.warning "Unknown language, falling back to default"
    [("language", wanted), ("default", catalog.defaultLanguage)])
  return catalog.defaultLanguage

def registryName : Text := "resolver"

def create (definitions : Definitions) (language : Value) (functions : List (Text × Value))
    (catalog : Catalog) : Engine σ Resolver := do
  let registry ← Engine.ofResult ((Registry.builtins registryName).addAll functions)
  let items ← Engine.ofFault definitions.items
  let criteria ← defineAll [] items
  let language ← chooseLanguage catalog language
  return ⟨registry, criteria, catalog, language⟩

end Resolver
end Vetting
