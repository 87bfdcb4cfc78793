import Vetting.Proofs.Advance
import Vetting.Proofs.Resolver.Equation
import Vetting.Proofs.Value.Fields

/-!
# The cache does not show

Texts are parsed one after the other while the limits change in between. The answers are those of a
parser that keeps nothing and knows the two limits only, whatever the cache has kept or let go.
-/

namespace Vetting

theorem Text.ofString_inj {a b : String} : ofString a = ofString b ↔ a = b := by
  have hpoint (c d : Char) (h : c.toNat = d.toNat) : c = d := Char.ext (UInt32.toNat_inj.mp h)
  rw [ofString, ofString, Text.mk.injEq, List.map_inj_right hpoint, String.toList_inj]

namespace Settings

/-! ## Changing a limit -/

def engineFields (settings : Fields) : Fields :=
  match settings.field? "engine" with
  | some (.object fields) => fields
  | _ => []

def setEngine (settings : Fields) (name : Text) (value : Value) : Fields :=
  settings.put (.text "engine") (.object ((engineFields settings).put (.text name) value))

theorem engineFields_setEngine (settings : Fields) (name : Text) (value : Value) :
    engineFields (setEngine settings name value) = (engineFields settings).put (.text name) value := by
  rw [engineFields, setEngine, Fields.field?, Fields.get?_put]
  simp

theorem nested_engine {settings : Fields} {path name : Text} (h : path.split 46 = [("engine" : Text), name])
    (default : Value) :
    nested settings path default = ((engineFields settings).field? name).getD default := by
  rw [nested, nested?, h, find?, engineFields]
  cases settings.field? "engine" with
  | none => rfl
  | some found =>
    cases found with
    | object fields =>
      dsimp only [find?]
      cases Fields.field? fields name <;> rfl
    | _ => rfl

theorem limits_eq (settings : Fields) :
    limits settings =
      ⟨((engineFields settings).field? "max_expression_depth").getD (.integer 32),
        ((engineFields settings).field? "max_expression_length").getD (.integer 10000)⟩ := by
  have hdepth : Text.split 46 "engine.max_expression_depth" =
      [("engine" : Text), "max_expression_depth"] := by decide
  have hlength : Text.split 46 "engine.max_expression_length" =
      [("engine" : Text), "max_expression_length"] := by decide
  rw [limits, maximumDepth, maximumLength, nested_engine hdepth, nested_engine hlength]

theorem limits_defaults : limits defaults = ⟨.integer 32, .integer 10000⟩ := by
  rw [limits_eq]
  simp [engineFields, defaults, Fields.ofNamed, Fields.field?, Fields.get?, Text.ofString_inj]

theorem limits_setEngine_depth (settings : Fields) (value : Value) :
    limits (setEngine settings "max_expression_depth" value) = ⟨value, (limits settings).length⟩ := by
  rw [limits_eq, limits_eq, engineFields_setEngine, Fields.field?, Fields.field?, Fields.get?_put,
    Fields.get?_put]
  rfl

theorem limits_setEngine_length (settings : Fields) (value : Value) :
    limits (setEngine settings "max_expression_length" value) = ⟨(limits settings).depth, value⟩ := by
  rw [limits_eq, limits_eq, engineFields_setEngine, Fields.field?, Fields.field?, Fields.get?_put,
    Fields.get?_put]
  rfl

end Settings

/-! ## Requests -/

/-- What is asked for: the tree of a value, or a new limit from here on. -/
inductive ParserRequest where
  | parse (source : Value)
  | depth (n : Int)
  | length (n : Int)

namespace ParserRequest

variable {σ : Type}

def sessionAfter (s : Session σ) : ParserRequest → Session σ
  | parse source => (outcome (Engine.parse source) s).2
  | depth n => { s with settings := Settings.setEngine s.settings "max_expression_depth" (.integer n) }
  | length n => { s with settings := Settings.setEngine s.settings "max_expression_length" (.integer n) }

def answers (s : Session σ) : List ParserRequest → List (Except Failure Node)
  | [] => []
  | parse source :: rest =>
    (outcome (Engine.parse source) s).1 :: answers (sessionAfter s (parse source)) rest
  | request :: rest => answers (sessionAfter s request) rest

/-- The answers of a parser that starts anew for each text, under the limits that were set last. -/
def plainAnswers (capacity : Nat) (maximumDepth maximumLength : Int) :
    List ParserRequest → List (Except Failure Node)
  | [] => []
  | parse source :: rest =>
    Expression.parse capacity ⟨.integer maximumDepth, .integer maximumLength⟩ source ::
      plainAnswers capacity maximumDepth maximumLength rest
  | depth n :: rest => plainAnswers capacity n maximumLength rest
  | length n :: rest => plainAnswers capacity maximumDepth n rest

/-- A session with integers for limits, and a cache that holds what the parser makes. -/
structure Bounded (s : Session σ) (maximumDepth maximumLength : Int) : Prop where
  limits : Settings.limits s.settings = ⟨.integer maximumDepth, .integer maximumLength⟩
  cache : s.cache.Sound s.capacity.parsing

section Step
variable {s : Session σ} {maximumDepth maximumLength : Int}

/-- Parsing in a session is parsing within its limits. -/
theorem Bounded.answer (h : Bounded s maximumDepth maximumLength) (source : Value) :
    (outcome (Engine.parse source) s).1 =
      Expression.parse s.capacity.parsing ⟨.integer maximumDepth, .integer maximumLength⟩ source := by
  cases source with
  | text text =>
    have hparse := (ParseCache.parseInteger_sound h.cache text maximumDepth maximumLength).1
    have hcache : (outcome (Engine.parse (.text text)) s).1 =
        (s.cache.parse s.capacity.parsing (Settings.limits s.settings) text).1 := rfl
    rw [hcache, h.limits]
    exact hparse
  | _ => rfl

theorem Bounded.after_parse (h : Bounded s maximumDepth maximumLength) (source : Value) :
    Bounded (sessionAfter s (parse source)) maximumDepth maximumLength := by
  have hlater := Engine.advances_parse source s h.cache
  refine ⟨?_, hlater.cache⟩
  rw [sessionAfter, hlater.settings, h.limits]

theorem Bounded.after_depth (h : Bounded s maximumDepth maximumLength) (n : Int) :
    Bounded (sessionAfter s (depth n)) n maximumLength := by
  refine ⟨?_, h.cache⟩
  rw [sessionAfter, Settings.limits_setEngine_depth, h.limits]

theorem Bounded.after_length (h : Bounded s maximumDepth maximumLength) (n : Int) :
    Bounded (sessionAfter s (length n)) maximumDepth n := by
  refine ⟨?_, h.cache⟩
  rw [sessionAfter, Settings.limits_setEngine_length, h.limits]

end Step

theorem capacity_sessionAfter (s : Session σ) (request : ParserRequest) :
    (sessionAfter s request).capacity = s.capacity := by
  cases request with
  | parse source => exact (Engine.keeps_parse source s).capacity
  | depth n => rfl
  | length n => rfl

theorem Bounded.answers {s : Session σ} {maximumDepth maximumLength : Int}
    (h : Bounded s maximumDepth maximumLength) (requests : List ParserRequest) :
    answers s requests = plainAnswers s.capacity.parsing maximumDepth maximumLength requests := by
  induction requests generalizing s maximumDepth maximumLength with
  | nil => rfl
  | cons request rest ih =>
    have hcapacity := capacity_sessionAfter s request
    cases request with
    | parse source =>
      have hrest := ih (h.after_parse source)
      rw [hcapacity] at hrest
      rw [ParserRequest.answers, plainAnswers, h.answer, hrest]
    | depth n => exact hcapacity ▸ ih (h.after_depth n)
    | length n => exact hcapacity ▸ ih (h.after_length n)

/-- In a session that starts with an empty cache and integers for limits, texts are parsed as by a
parser that keeps nothing, however often the limits are set to other integers in between. -/
theorem answers_eq_plainAnswers {s : Session σ} {maximumDepth maximumLength : Int}
    (hcache : s.cache = .empty)
    (hlimits : Settings.limits s.settings = ⟨.integer maximumDepth, .integer maximumLength⟩)
    (requests : List ParserRequest) :
    answers s requests = plainAnswers s.capacity.parsing maximumDepth maximumLength requests := by
  have hbounded : Bounded s maximumDepth maximumLength := ⟨hlimits, hcache ▸ ParseCache.sound_empty _⟩
  exact hbounded.answers requests

/-- A text that is kept, asked for again under a depth that it exceeds, and once more after that. -/
def tightened : List ParserRequest :=
  [parse (.text "((1))"), depth 2, parse (.text "((1))"), depth 32, parse (.text "((1))")]

/-- A kept tree is not handed out under limits that its text does not keep to. -/
theorem answers_tightened :
    Resolver.freshSession.cache = .empty ∧
      Settings.limits Resolver.freshSession.settings = ⟨.integer 32, .integer 10000⟩ ∧
      answers Resolver.freshSession tightened =
        plainAnswers Resolver.freshSession.capacity.parsing 32 10000 tightened ∧
      (plainAnswers Resolver.freshSession.capacity.parsing 32 10000 tightened).map (·.isOk) =
        [true, false, true] := by
  have hlimits : Settings.limits Resolver.freshSession.settings = ⟨.integer 32, .integer 10000⟩ :=
    Settings.limits_defaults
  refine ⟨rfl, hlimits, answers_eq_plainAnswers rfl hlimits tightened, ?_⟩
  decide +kernel

end ParserRequest
end Vetting
