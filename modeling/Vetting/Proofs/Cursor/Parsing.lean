import Vetting.Proofs.Cursor.Lexing
import Vetting.Proofs.Expression.Derived

/-!
# A parser with a cursor

The grammar methods share an index into the tokens and a count of the depth. An element of the
tokens is taken without a look at the bounds, and a loop goes on as long as there are operators or
commas. The methods end on the tokens of every text, with the tree or the failure of the parser that
takes the tokens apart.
-/

namespace Vetting.Cursor

open Vetting.Parser (operator? prefixOperator? isLiteral nameOf operation topTier)
open Step

/-- What the grammar methods look at: the tokens, the length of their text and the limit of the
depth. -/
structure Scene where
  tokens : List Token
  length : Nat
  limit : Limit

/-! ## The grammar methods -/

def consumed (start : Nat) : Step Unit := do
  record (.consumed start (← index))

namespace Scene

def current (scene : Scene) : Step Token := do
  require scene.tokens[← index]?

/-- The token after the current one, or the last token. -/
def following (scene : Scene) : Step Token := do
  require scene.tokens[min ((← index) + 1) (scene.tokens.length - 1)]?

def advance (scene : Scene) : Step Token := do
  let t ← scene.current
  if t.kind ≠ .ending then
    modify fun walk => { walk with index := walk.index + 1 }
    record (.moved (← index))
  return t

def raise {α : Type} (scene : Scene) (problem : ParseProblem) : Step α := do
  let t ← scene.current
  fail (if t.kind = .ending then .atEnd problem else problem) t.position

def raiseUnexpected {α : Type} (scene : Scene) : Step α := do
  let t ← scene.current
  fail (if t.kind = .ending then .unexpectedEnd else .unexpectedToken t.value) t.position

def expect (scene : Scene) (kind : TokenKind) (what : Text) : Step Token := do
  if (← scene.current).kind = kind then scene.advance else scene.raise (.expected what)

def enter (scene : Scene) : Step Unit := do
  modify fun walk => { walk with depth := walk.depth + 1 }
  let depth := (← get).depth
  record (.entered depth)
  if scene.limit.bound.any (· < depth) then scene.raise (.tooDeep scene.limit.label)

mutual

def expression (scene : Scene) : Step Node := do
  scene.enter
  fun walk => do
    let (result, walk) ← (scene |>.tier topTier).run.run walk
    return (result, walk.leave)
partial_fixpoint

def tier (scene : Scene) (n : Nat) : Step Node := do
  match n with
  | 0 => scene |>.unary
  | n + 1 => scene |>.chain n (← scene |>.tier n)
partial_fixpoint

def chain (scene : Scene) (n : Nat) (left : Node) : Step Node := do
  let t ← scene.current
  match operator? (n + 1) t.kind with
  | none => return left
  | some operator =>
    let start ← index
    let t ← scene.advance
    let right ← scene |>.tier n
    consumed start
    scene |>.chain n (operation (n + 1) t.position operator left right)
partial_fixpoint

def unary (scene : Scene) : Step Node := do
  let t ← scene.current
  match prefixOperator? t.kind with
  | none => scene |>.primary
  | some operator =>
    let t ← scene.advance
    scene.enter
    let operand ← fun walk => do
      let (result, walk) ← (scene |>.unary).run.run walk
      return (result, walk.leave)
    return .unary t.position operator operand
partial_fixpoint

def primary (scene : Scene) : Step Node := do
  let t ← scene.current
  if isLiteral t.kind then
    let _ ← scene.advance
    return .literal t.position t.value
  else if t.kind = .identifier then
    if (← scene.following).kind = .arrow then scene.raise .arrowOutsideArguments
    else
      let _ ← scene.advance
      if (← scene.current).kind = .openParen then
        let _ ← scene.expect .openParen "'('"
        return .call t.position (nameOf t) (← scene |>.list .closeParen "')' after function arguments" true)
      else return .identifier t.position (nameOf t)
  else if t.kind = .openParen then
    let _ ← scene.advance
    let node ← scene |>.expression
    let _ ← scene.expect .closeParen "')'"
    return node
  else if t.kind = .openBracket then
    let start ← scene.expect .openBracket "'['"
    return .array start.position (← scene |>.list .closeBracket "']'" false)
  else if t.kind = .spread then scene.raise .spreadOutsideArguments
  else scene.raiseUnexpected
partial_fixpoint

def list (scene : Scene) (closing : TokenKind) (what : Text) (ofCall : Bool) : Step (List Node) := do
  if (← scene.current).kind = closing then
    let _ ← scene.expect closing what
    return []
  else
    let first ← scene |>.item ofCall
    return first :: (← scene |>.items closing what ofCall)
partial_fixpoint

def items (scene : Scene) (closing : TokenKind) (what : Text) (ofCall : Bool) : Step (List Node) := do
  if (← scene.current).kind = .comma then
    let start ← index
    let _ ← scene.advance
    let first ← scene |>.item ofCall
    consumed start
    return first :: (← scene |>.items closing what ofCall)
  else
    let _ ← scene.expect closing what
    return []
partial_fixpoint

def item (scene : Scene) (ofCall : Bool) : Step Node := do
  let t ← scene.current
  if ofCall ∧ t.kind = .spread then
    let _ ← scene.advance
    let name ← scene.expect .identifier "identifier after '...'"
    return .spread t.position (nameOf name)
  else if ofCall ∧ t.kind = .identifier then
    if (← scene.following).kind = .arrow then
      let _ ← scene.advance
      let _ ← scene.advance
      scene.enter
      let body ← fun walk => do
        let (result, walk) ← (scene |>.expression).run.run walk
        return (result, walk.leave)
      return .lambda t.position (nameOf t) body
    else scene |>.expression
  else scene |>.expression
partial_fixpoint

end

def tree (scene : Scene) : Step Node := do
  if (← scene.current).kind = .ending then scene.raise .empty
  let node ← scene.expression
  if (← scene.current).kind ≠ .ending then scene.raiseUnexpected
  return node

end Scene

def parse (length depth : Limit) (text : Text) : Step Node := do
  if length.exceededBy text.length then throw (.failure ⟨.tooLong length.label, none⟩)
  let tokens ← Source.tokens ⟨text.points⟩
  Scene.tree ⟨tokens, text.length, depth⟩

/-! ## How a step follows a reader -/

/-- Tokens of which the last marks the end, and only the last. -/
def Ended (tokens : List Token) : Prop :=
  ∃ front ending, tokens = front ++ [ending] ∧ ending.kind = .ending ∧ ∀ t ∈ front, t.kind ≠ .ending

theorem Ended.exists_cons {tokens : List Token} (h : Ended tokens) :
    ∃ t rest, tokens = t :: rest ∧ (t.kind ≠ .ending → Ended rest) := by
  obtain ⟨front, ending, rfl, hk, hf⟩ := h
  cases front with
  | nil => exact ⟨ending, [], rfl, fun h => absurd hk h⟩
  | cons t front =>
    exact ⟨t, front ++ [ending], rfl, fun _ => ⟨front, ending, rfl, hk, fun s hs => hf s (.tail t hs)⟩⟩

theorem Ended.rest_eq_nil {t : Token} {rest : List Token} (h : Ended (t :: rest))
    (ht : t.kind = .ending) : rest = [] := by
  obtain ⟨front, ending, heq, _, hf⟩ := h
  cases front with
  | nil => exact (List.cons.inj heq).2
  | cons s front =>
    obtain rfl : t = s := (List.cons.inj heq).1
    exact absurd ht (hf t List.mem_cons_self)

section Following
variable {scene : Scene} {capacity : Nat} {α β : Type}

def Scene.Within (scene : Scene) (depth : Int) : Prop := ∀ bound ∈ scene.limit.bound, depth ≤ bound

/-- Whether a parser of this capacity can nest as deep as the limit allows. -/
def Scene.FitsIn (scene : Scene) (capacity : Nat) : Prop := ∀ n : Nat, scene.Within n → n ≤ capacity

variable (scene) in
/-- Whether a walk stands before the tokens at this depth, after events that are as they should be. -/
structure Stands (tokens : List Token) (depth : Nat) (walk : Walk) : Prop where
  suffix : tokens <:+ scene.tokens
  ended : Ended tokens
  index_eq : walk.index + tokens.length = scene.tokens.length
  depth_eq : walk.depth = depth
  within : scene.Within depth
  sound : ∀ e ∈ walk.events, e.Sound scene.length scene.tokens.length scene.limit

variable (scene) in
/-- Whether a step that starts before the tokens ends as a reader of them does, which may change the
depth. -/
def Follows {P : α × List Token → Prop} (step : Step α) (depth : Nat) (tokens : List Token)
    (last : Nat) (reading : Except ParseFailure { r // P r }) : Prop :=
  ∀ walk, Stands scene tokens depth walk → step.Ends walk fun answer after =>
    match reading with
    | .ok r => answer = .ok r.1.1 ∧ Stands scene r.1.2 last after
    | .error failure => answer = .error (.failure failure) ∧
        ∀ e ∈ after.events, e.Sound scene.length scene.tokens.length scene.limit

variable {P : α × List Token → Prop} {Q : β × List Token → Prop} {depth middle last : Nat}
  {tokens rest : List Token} {t : Token} {step : Step α}

theorem follows_nil {reading : Except ParseFailure { r // P r }} :
    Follows scene step depth [] last reading := by
  intro walk hw
  obtain ⟨_, _, h, _⟩ := hw.ended.exists_cons
  cases h

theorem follows_of_suffix {reading : Except ParseFailure { r // P r }}
    (h : tokens <:+ scene.tokens → Follows scene step depth tokens last reading) :
    Follows scene step depth tokens last reading :=
  fun walk hw => h hw.suffix walk hw

theorem follows_pure {a : α} (h : P (a, tokens)) :
    Follows scene (pure a) depth tokens depth (.ok ⟨(a, tokens), h⟩) :=
  fun _ hw => ends_pure ⟨rfl, hw⟩

theorem Follows.bind {reading : Except ParseFailure { r // P r }} {next : α → Step β}
    {more : { r // P r } → Except ParseFailure { r // Q r }}
    (h : Follows scene step depth tokens middle reading)
    (hn : ∀ a rest hr, reading = .ok ⟨(a, rest), hr⟩ →
      Follows scene (next a) middle rest last (more ⟨(a, rest), hr⟩)) :
    Follows scene (step >>= next) depth tokens last (reading >>= more) := by
  intro walk hw
  refine ends_bind ((h walk hw).mono fun answer after hpost => ?_)
  cases reading with
  | error failure =>
    obtain ⟨rfl, ha⟩ := hpost
    exact ⟨rfl, ha⟩
  | ok r =>
    obtain ⟨rfl, ha⟩ := hpost
    exact hn r.1.1 r.1.2 r.2 rfl after ha

/-- A reader may be held to leave less or more. -/
theorem Follows.repack {P' : α × List Token → Prop} {reading : Except ParseFailure { r // P r }}
    {more : { r // P r } → Except ParseFailure { r // P' r }}
    (h : Follows scene step depth tokens last reading)
    (hm : ∀ r hr, ∃ hr', more ⟨r, hr⟩ = .ok ⟨r, hr'⟩) :
    Follows scene step depth tokens last (reading >>= more) := by
  intro walk hw
  refine (h walk hw).mono fun answer after hpost => ?_
  cases reading with
  | error failure => exact hpost
  | ok r =>
    obtain ⟨_, hr⟩ := hm r.1 r.2
    have hmore : (.ok r >>= more) = .ok _ := hr
    rw [hmore]
    exact hpost

section Steps
variable {next : Token → Step β} {reading : Except ParseFailure { r // Q r }}

theorem Stands.getElem? {walk : Walk} (hw : Stands scene tokens depth walk) (offset : Nat) :
    scene.tokens[walk.index + offset]? = tokens[offset]? := by
  obtain ⟨front, hfront⟩ := hw.suffix
  have hindex := hw.index_eq
  rw [← hfront, List.length_append, Nat.add_right_cancel_iff] at hindex
  rw [hindex, ← hfront, List.getElem?_append_right (Nat.le_add_right _ _), Nat.add_sub_cancel_left]

theorem ends_current {walk : Walk} {post : Except Stop Token → Walk → Prop}
    (ht : scene.tokens[walk.index]? = some t) (h : post (.ok t) walk) :
    scene.current.Ends walk post := by
  refine ends_bind ⟨.ok walk.index, walk, rfl, ?_⟩
  dsimp only
  rw [ht]
  exact ends_pure h

theorem follows_current (h : Follows scene (next t) depth (t :: rest) last reading) :
    Follows scene (scene.current >>= next) depth (t :: rest) last reading :=
  fun walk hw => ends_bind (ends_current (hw.getElem? 0) (h walk hw))

/-- A token that does not mark the end has another one behind it. -/
theorem follows_following (ht : t.kind ≠ .ending)
    (h : ∀ u inner, rest = u :: inner → Follows scene (next u) depth (t :: rest) last reading) :
    Follows scene (scene.following >>= next) depth (t :: rest) last reading := by
  intro walk hw
  obtain ⟨_, _, heq, hrest⟩ := hw.ended.exists_cons
  cases heq
  obtain ⟨u, inner, rfl, _⟩ := (hrest ht).exists_cons
  have hindex := hw.index_eq
  rw [List.length_cons, List.length_cons] at hindex
  have hu : scene.tokens[min (walk.index + 1) (scene.tokens.length - 1)]? = some u := by
    rw [Nat.min_eq_left (by omega)]
    exact hw.getElem? 1
  refine ends_bind (ends_bind ⟨.ok walk.index, walk, rfl, ?_⟩)
  dsimp only
  rw [hu]
  exact ends_pure (h u inner rfl walk hw)

theorem follows_advance (ht : t.kind ≠ .ending) (h : Follows scene (next t) depth rest last reading) :
    Follows scene (scene.advance >>= next) depth (t :: rest) last reading := by
  intro walk hw
  obtain ⟨_, _, heq, hrest⟩ := hw.ended.exists_cons
  cases heq
  obtain ⟨u, inner, hinner, _⟩ := (hrest ht).exists_cons
  have hindex := hw.index_eq
  rw [List.length_cons] at hindex
  refine ends_bind (ends_bind (ends_current (hw.getElem? 0) ?_))
  dsimp only
  rw [if_pos ht]
  refine ⟨.ok t, _, rfl, h _ ⟨(List.suffix_cons t rest).trans hw.suffix, hrest ht, ?_, hw.depth_eq,
    hw.within, ?_⟩⟩
  · dsimp only
    omega
  · refine List.forall_mem_cons.mpr ⟨?_, hw.sound⟩
    have : 0 < rest.length := by rw [hinner]; exact Nat.succ_pos _
    show walk.index + 1 < scene.tokens.length
    omega

theorem follows_index {next : Nat → Step β}
    (h : Follows scene (next (scene.tokens.length - tokens.length)) depth tokens last reading) :
    Follows scene (index >>= next) depth tokens last reading := by
  intro walk hw
  have hindex : walk.index = scene.tokens.length - tokens.length := by
    rw [← hw.index_eq, Nat.add_sub_cancel]
  refine ends_bind ⟨.ok walk.index, walk, rfl, ?_⟩
  dsimp only
  rw [hindex]
  exact h walk hw

theorem follows_consumed {next : Unit → Step β} {before : List Token} (hb : before <:+ scene.tokens)
    (hlt : tokens.length < before.length) (h : Follows scene (next ()) depth tokens last reading) :
    Follows scene (consumed (scene.tokens.length - before.length) >>= next) depth tokens last
      reading := by
  intro walk hw
  obtain ⟨t, rest, htokens, _⟩ := hw.ended.exists_cons
  have hpos : 0 < tokens.length := by rw [htokens]; exact Nat.succ_pos _
  have hindex := hw.index_eq
  have hle := hb.length_le
  refine ends_bind ⟨.ok (), _, rfl, h _ ⟨hw.suffix, hw.ended, hindex, hw.depth_eq, hw.within, ?_⟩⟩
  refine List.forall_mem_cons.mpr ⟨?_, hw.sound⟩
  show scene.tokens.length - before.length < walk.index ∧ walk.index < scene.tokens.length
  omega

theorem follows_raise {P : α × List Token → Prop} (problem : ParseProblem) :
    Follows scene (scene.raise problem) depth tokens last
      (Parser.fail problem tokens : Except ParseFailure { r // P r }) := by
  intro walk hw
  obtain ⟨t, rest, rfl, _⟩ := hw.ended.exists_cons
  exact ends_bind (ends_current (hw.getElem? 0) (ends_throw ⟨rfl, hw.sound⟩))

theorem follows_raiseUnexpected {P : α × List Token → Prop} :
    Follows scene scene.raiseUnexpected depth tokens last
      (Parser.failUnexpected tokens : Except ParseFailure { r // P r }) := by
  intro walk hw
  obtain ⟨t, rest, rfl, _⟩ := hw.ended.exists_cons
  exact ends_bind (ends_current (hw.getElem? 0) (ends_throw ⟨rfl, hw.sound⟩))

theorem follows_expect_kind {kind : TokenKind} {what : Text} (hk : t.kind = kind) (ht : t.kind ≠ .ending)
    (h : Follows scene (next t) depth rest last reading) :
    Follows scene (scene.expect kind what >>= next) depth (t :: rest) last reading := by
  rw [Scene.expect, bind_assoc]
  refine follows_current ?_
  rw [if_pos hk]
  exact follows_advance ht h

theorem follows_expect_fail {kind : TokenKind} {what : Text} (ht : t.kind ≠ kind) :
    Follows scene (scene.expect kind what >>= next) depth (t :: rest) last
      (Parser.fail (.expected what) (t :: rest) : Except ParseFailure { r // Q r }) := by
  rw [Scene.expect, bind_assoc]
  refine follows_current ?_
  rw [if_neg ht]
  intro walk hw
  exact ends_bind (ends_bind (ends_current (hw.getElem? 0) (ends_throw ⟨rfl, hw.sound⟩)))

/-- A token that is expected is left behind, as the reader of it does. -/
theorem follows_expect {kind : TokenKind} {what : Text} (hk : kind ≠ .ending)
    {more : { r : List Token // r.length < tokens.length } → Except ParseFailure { r // Q r }}
    (h : ∀ t rest hr, tokens = t :: rest → t.kind = kind →
      Follows scene (next t) depth rest last (more ⟨rest, hr⟩)) :
    Follows scene (scene.expect kind what >>= next) depth tokens last
      (Parser.expect kind what tokens >>= more) := by
  cases tokens with
  | nil => exact follows_nil
  | cons t rest => ?_
  by_cases ht : t.kind = kind
  · have hexpect : Parser.expect kind what (t :: rest) = .ok ⟨rest, by simp⟩ := if_pos ht
    rw [hexpect]
    exact follows_expect_kind ht (ht ▸ hk) (h t rest _ rfl ht)
  · have hexpect : Parser.expect kind what (t :: rest) = Parser.fail (.expected what) (t :: rest) :=
      if_neg ht
    rw [hexpect]
    exact follows_expect_fail ht

end Steps

/-! ## The depth -/

theorem exceededBy_eq_false_iff {n : Nat} : scene.limit.exceededBy n = false ↔ scene.Within n := by
  unfold Limit.exceededBy Scene.Within
  cases scene.limit.bound with
  | none => simp
  | some bound => simp

theorem any_lt_iff {depth : Int} : scene.limit.bound.any (· < depth) = true ↔ ¬ scene.Within depth := by
  unfold Scene.Within
  cases scene.limit.bound with
  | none => simp
  | some bound => simp

theorem enter_of_within {n : Nat} (hc : scene.FitsIn capacity)
    (h : scene.Within n) : Parser.enter ⟨scene.limit, capacity⟩ n tokens = .ok () := by
  unfold Parser.enter
  rw [exceededBy_eq_false_iff.mpr h, if_neg Bool.false_ne_true, if_neg (Nat.not_lt.mpr (hc n h))]

theorem enter_of_not_within {n : Nat} (h : ¬ scene.Within n) :
    Parser.enter ⟨scene.limit, capacity⟩ n tokens =
      Parser.fail (.tooDeep scene.limit.label) tokens := by
  unfold Parser.enter
  rw [if_pos]
  exact Bool.eq_true_of_not_eq_false fun hf => h (exceededBy_eq_false_iff.mp hf)

theorem follows_enter {next : Unit → Step β} {more : Unit → Except ParseFailure { r // Q r }}
    (hc : scene.FitsIn capacity)
    (h : Follows scene (next ()) (depth + 1) tokens last (more ())) :
    Follows scene (scene.enter >>= next) depth tokens last
      (Parser.enter ⟨scene.limit, capacity⟩ (depth + 1) tokens >>= more) := by
  intro walk hw
  obtain ⟨t, rest, rfl, _⟩ := hw.ended.exists_cons
  have hdepth : walk.depth + 1 = (depth + 1 : Nat) := by rw [hw.depth_eq]; rfl
  have hsound : ∀ e ∈ Event.entered (walk.depth + 1) :: walk.events,
      e.Sound scene.length scene.tokens.length scene.limit := by
    refine List.forall_mem_cons.mpr ⟨fun bound hb => ?_, hw.sound⟩
    have := hw.within bound hb
    rw [hw.depth_eq]
    omega
  refine ends_bind (ends_bind ⟨.ok (), _, rfl, ends_bind ⟨.ok _, _, rfl, ends_bind ⟨.ok (), _, rfl, ?_⟩⟩⟩)
  dsimp only
  by_cases hwithin : scene.Within (depth + 1 : Nat)
  · rw [enter_of_within hc hwithin, if_neg (fun hany => any_lt_iff.mp hany (hdepth ▸ hwithin))]
    exact ends_pure (h _ ⟨hw.suffix, hw.ended, hw.index_eq, hdepth, hwithin, hsound⟩)
  · rw [enter_of_not_within hwithin, if_pos (any_lt_iff.mpr (hdepth ▸ hwithin))]
    exact ends_bind (ends_current (hw.getElem? 0) (ends_throw ⟨rfl, hsound⟩))

/-- The depth is counted back, however a step ends. -/
theorem Follows.leave {reading : Except ParseFailure { r // P r }}
    (h : Follows scene step (depth + 1) tokens (depth + 1) reading) :
    Follows scene (fun walk => do
      let (result, walk) ← step.run.run walk
      return (result, walk.leave)) (depth + 1) tokens depth reading := by
  intro walk hw
  obtain ⟨answer, after, hrun, hpost⟩ := h walk hw
  refine ⟨answer, after.leave, ?_, ?_⟩
  · show (do
      let (result, walk) ← step.run.run walk
      return (result, walk.leave)) = _
    rw [hrun]
    rfl
  · cases reading with
    | error failure => exact hpost
    | ok r =>
      obtain ⟨ha, hs⟩ := hpost
      refine ⟨ha, hs.suffix, hs.ended, hs.index_eq, ?_, ?_, hs.sound⟩
      · have := hs.depth_eq
        show after.depth - 1 = depth
        omega
      · intro bound hb
        have := hs.within bound hb
        omega

/-! ## The grammar methods follow the parser -/

theorem ne_ending_of_operator {n : Nat} {operator : Text} (h : operator? n t.kind = some operator) :
    t.kind ≠ .ending := by
  intro hk
  rw [hk] at h
  unfold operator? at h
  split at h <;> simp_all

theorem ne_ending_of_prefixOperator {operator : Text} (h : prefixOperator? t.kind = some operator) :
    t.kind ≠ .ending := by
  intro hk
  rw [hk] at h
  cases h

theorem ne_ending_of_isLiteral (h : isLiteral t.kind = true) : t.kind ≠ .ending := by
  intro hk
  rw [hk] at h
  cases h

-- The induction is on the tokens. A method that takes no token calls only methods of a lower rank, so
-- the rank is added to a multiple of the number of tokens.
mutual

theorem follows_expression (hc : scene.FitsIn capacity) (depth : Nat) (tokens : List Token) :
    Follows scene scene.expression depth tokens depth
      (Parser.expression ⟨scene.limit, capacity⟩ depth tokens) := by
  rw [Scene.expression, Parser.expression]
  exact follows_enter hc (follows_tier hc (depth + 1) topTier tokens).leave
termination_by 16 * tokens.length + 12
decreasing_by simp [topTier]

theorem follows_tier (hc : scene.FitsIn capacity) (depth n : Nat) (tokens : List Token) :
    Follows scene (scene.tier n) depth tokens depth
      (Parser.tier ⟨scene.limit, capacity⟩ depth n tokens) := by
  match n with
  | 0 =>
    rw [Scene.tier, Parser.tier]
    exact follows_unary hc depth tokens
  | n + 1 =>
    rw [Scene.tier, Parser.tier]
    refine (follows_tier hc depth n tokens).bind fun left rest hr _ => ?_
    have : rest.length < tokens.length := hr
    exact (follows_chain hc depth n left rest).repack fun r _ => ⟨_, rfl⟩
termination_by 16 * tokens.length + 2 + n

theorem follows_chain (hc : scene.FitsIn capacity) (depth n : Nat) (left : Node) (tokens : List Token) :
    Follows scene (scene.chain n left) depth tokens depth
      (Parser.chain ⟨scene.limit, capacity⟩ depth n left tokens) := by
  match tokens with
  | [] => exact follows_nil
  | t :: rest =>
    rw [Scene.chain, Parser.chain]
    refine follows_of_suffix fun hs => follows_current ?_
    cases ho : operator? (n + 1) t.kind with
    | none => exact follows_pure _
    | some operator =>
      refine follows_index (follows_advance (ne_ending_of_operator ho) ?_)
      refine (follows_tier hc depth n rest).bind fun right inner hr _ => ?_
      have : inner.length < rest.length := hr
      refine follows_consumed hs (Nat.lt_succ_of_lt hr) ?_
      exact (follows_chain hc depth n _ inner).repack fun r _ => ⟨_, rfl⟩
termination_by 16 * tokens.length + 3 + n

theorem follows_unary (hc : scene.FitsIn capacity) (depth : Nat) (tokens : List Token) :
    Follows scene scene.unary depth tokens depth
      (Parser.unary ⟨scene.limit, capacity⟩ depth tokens) := by
  match tokens with
  | [] => exact follows_nil
  | t :: rest =>
    rw [Scene.unary, Parser.unary]
    refine follows_current ?_
    cases ho : prefixOperator? t.kind with
    | none => exact follows_primary hc depth (t :: rest)
    | some operator =>
      refine follows_advance (ne_ending_of_prefixOperator ho) (follows_enter hc ?_)
      refine (follows_unary hc (depth + 1) rest).leave.bind fun operand inner hr _ => ?_
      exact follows_pure _
termination_by 16 * tokens.length + 1

theorem follows_primary (hc : scene.FitsIn capacity) (depth : Nat) (tokens : List Token) :
    Follows scene scene.primary depth tokens depth
      (Parser.primary ⟨scene.limit, capacity⟩ depth tokens) := by
  match tokens with
  | [] => exact follows_nil
  | t :: rest =>
    rw [Scene.primary, Parser.primary.eq_def]
    refine follows_current ?_
    by_cases hl : isLiteral t.kind = true
    · simp only [hl, ↓reduceIte]
      exact follows_advance (ne_ending_of_isLiteral hl) (follows_pure _)
    by_cases hi : t.kind = .identifier
    · simp only [hi, isLiteral, Bool.false_eq_true, ↓reduceIte]
      have ht : t.kind ≠ .ending := hi ▸ nofun
      refine follows_following ht fun u inner heq => ?_
      subst heq
      by_cases harrow : u.kind = .arrow
      · have hkind : Parser.kindAt (u :: inner) = .arrow := harrow
        rw [if_pos harrow, if_pos hkind]
        exact follows_raise _
      · have hkind : ¬ Parser.kindAt (u :: inner) = .arrow := harrow
        rw [if_neg harrow, if_neg hkind]
        refine follows_advance ht (follows_current ?_)
        dsimp only
        by_cases hopen : u.kind = .openParen
        · rw [if_pos hopen, if_pos hopen]
          refine follows_expect_kind hopen (hopen ▸ nofun) ?_
          refine (follows_list hc depth .closeParen "')' after function arguments" true inner
            (by decide)).bind fun arguments last hr _ => ?_
          exact follows_pure _
        · rw [if_neg hopen, if_neg hopen]
          exact follows_pure _
    by_cases hp : t.kind = .openParen
    · simp only [hp, isLiteral, Bool.false_eq_true, reduceCtorEq, ↓reduceIte]
      refine follows_advance (hp ▸ nofun) ?_
      refine (follows_expression hc depth rest).bind fun node inner hr _ => ?_
      exact follows_expect (by decide) fun _ last _ _ _ => follows_pure _
    by_cases hb : t.kind = .openBracket
    · simp only [hb, isLiteral, Bool.false_eq_true, reduceCtorEq, ↓reduceIte]
      refine follows_expect_kind hb (hb ▸ nofun) ?_
      refine (follows_list hc depth .closeBracket "']'" false rest (by decide)).bind
        fun items last hr _ => ?_
      exact follows_pure _
    by_cases hsp : t.kind = .spread
    · simp only [hsp, isLiteral, Bool.false_eq_true, reduceCtorEq, ↓reduceIte]
      exact follows_raise _
    · simp only [hl, hi, hp, hb, hsp, ↓reduceIte]
      exact follows_raiseUnexpected
termination_by 16 * tokens.length

theorem follows_list (hc : scene.FitsIn capacity) (depth : Nat) (closing : TokenKind) (what : Text)
    (ofCall : Bool) (tokens : List Token) (hclosing : closing ≠ .ending) :
    Follows scene (scene.list closing what ofCall) depth tokens depth
      (Parser.list ⟨scene.limit, capacity⟩ depth closing what ofCall tokens) := by
  match tokens with
  | [] => exact follows_nil
  | t :: rest =>
    rw [Scene.list, Parser.list]
    refine follows_current ?_
    split_ifs with hk
    · exact follows_expect_kind hk (hk ▸ hclosing) (follows_pure _)
    · refine (follows_item hc depth ofCall (t :: rest)).bind fun first inner hr _ => ?_
      have : inner.length < rest.length + 1 := hr
      refine (follows_items hc depth closing what ofCall inner hclosing).bind fun others last hl _ => ?_
      exact follows_pure _
termination_by 16 * tokens.length + 14

theorem follows_items (hc : scene.FitsIn capacity) (depth : Nat) (closing : TokenKind) (what : Text)
    (ofCall : Bool) (tokens : List Token) (hclosing : closing ≠ .ending) :
    Follows scene (scene.items closing what ofCall) depth tokens depth
      (Parser.items ⟨scene.limit, capacity⟩ depth closing what ofCall tokens) := by
  match tokens with
  | [] => exact follows_nil
  | t :: rest =>
    rw [Scene.items, Parser.items]
    refine follows_of_suffix fun hs => follows_current ?_
    split_ifs with hk
    · refine follows_index (follows_advance (hk ▸ nofun) ?_)
      refine (follows_item hc depth ofCall rest).bind fun first inner hr _ => ?_
      have : inner.length < rest.length := hr
      refine follows_consumed hs (Nat.lt_succ_of_lt hr) ?_
      refine (follows_items hc depth closing what ofCall inner hclosing).bind fun others last hl _ => ?_
      exact follows_pure _
    · exact follows_expect hclosing fun _ last _ _ _ => follows_pure _
termination_by 16 * tokens.length

theorem follows_item (hc : scene.FitsIn capacity) (depth : Nat) (ofCall : Bool) (tokens : List Token) :
    Follows scene (scene.item ofCall) depth tokens depth
      (Parser.item ⟨scene.limit, capacity⟩ depth ofCall tokens) := by
  match tokens with
  | [] => exact follows_nil
  | t :: rest =>
    rw [Scene.item, Parser.item.eq_def]
    refine follows_current ?_
    dsimp only
    by_cases hsp : ofCall = true ∧ t.kind = .spread
    · rw [if_pos hsp, if_pos hsp]
      refine follows_advance (hsp.2 ▸ nofun) ?_
      cases rest with
      | nil => exact follows_nil
      | cons u inner =>
        dsimp only
        by_cases hi : u.kind = .identifier
        · rw [if_pos hi]
          exact follows_expect_kind hi (hi ▸ nofun) (follows_pure _)
        · rw [if_neg hi]
          exact follows_expect_fail hi
    rw [if_neg hsp, if_neg hsp]
    by_cases hi : ofCall = true ∧ t.kind = .identifier
    · rw [if_pos hi]
      have ht : t.kind ≠ .ending := hi.2 ▸ nofun
      refine follows_following ht fun u inner heq => ?_
      subst heq
      dsimp only
      by_cases harrow : u.kind = .arrow
      · rw [if_pos harrow, if_pos ⟨hi.1, hi.2, harrow⟩]
        refine follows_advance ht (follows_advance (harrow ▸ nofun) (follows_enter hc ?_))
        refine (follows_expression hc (depth + 1) inner).leave.bind fun body last hr _ => ?_
        exact follows_pure _
      · rw [if_neg harrow, if_neg fun h => harrow h.2.2]
        exact follows_expression hc depth (t :: u :: inner)
    · rw [if_neg hi]
      cases rest with
      | nil => exact follows_expression hc depth [t]
      | cons u inner =>
        dsimp only
        rw [if_neg fun h => hi ⟨h.1, h.2.1⟩]
        exact follows_expression hc depth (t :: u :: inner)
termination_by 16 * tokens.length + 13

end

/-! ## Whole texts -/

variable (scene) in
/-- Whether a step has ended with a tree, with the depth counted back, or with a failure. -/
def Concludes (result : Except ParseFailure Node) (answer : Except Stop Node) (after : Walk) : Prop :=
  answer = result.mapError .failure ∧
    (∀ e ∈ after.events, e.Sound scene.length scene.tokens.length scene.limit) ∧
      ∀ tree, answer = .ok tree → after.depth = 0 ∧ after.index + 1 = scene.tokens.length

theorem ends_tree (hc : scene.FitsIn capacity) {walk : Walk} (hw : Stands scene (t :: rest) 0 walk) :
    scene.tree.Ends walk (Concludes scene
      (if Parser.kindAt (t :: rest) = .ending then .error ⟨.atEnd .empty, some t.position⟩
      else Parser.parse ⟨scene.limit, capacity⟩ (t :: rest))) := by
  rw [Scene.tree]
  refine ends_bind (ends_current (hw.getElem? 0) ?_)
  dsimp only
  by_cases hk : t.kind = .ending
  · have hparse : Parser.kindAt (t :: rest) = .ending := hk
    rw [if_pos hk, if_pos hparse]
    refine ends_bind (ends_bind (ends_current (hw.getElem? 0) (ends_throw ?_)))
    rw [if_pos hk]
    exact ⟨rfl, hw.sound, nofun⟩
  · have hparse : ¬ Parser.kindAt (t :: rest) = .ending := hk
    rw [if_neg hk, if_neg hparse, Parser.parse]
    refine ends_bind ((follows_expression hc 0 (t :: rest) walk hw).mono fun answer after hpost => ?_)
    cases hr : Parser.expression ⟨scene.limit, capacity⟩ 0 (t :: rest) with
    | error failure =>
      rw [hr] at hpost
      obtain ⟨rfl, hsound⟩ := hpost
      exact ⟨rfl, hsound, nofun⟩
    | ok r =>
      rw [hr] at hpost
      obtain ⟨⟨node, last⟩, _⟩ := r
      obtain ⟨rfl, hs⟩ := hpost
      obtain ⟨u, inner, hlast, _⟩ := hs.ended.exists_cons
      dsimp only at hlast hs
      subst hlast
      refine ends_bind (ends_current (hs.getElem? 0) ?_)
      dsimp only
      by_cases hu : u.kind = .ending
      · obtain rfl := hs.ended.rest_eq_nil hu
        have hparse : Parser.kindAt [u] = .ending := hu
        simp only [bind, Except.bind]
        rw [if_neg (not_not_intro hu), if_pos hparse]
        exact ends_pure ⟨rfl, hs.sound, fun _ _ => ⟨hs.depth_eq, hs.index_eq⟩⟩
      · have hparse : ¬ Parser.kindAt (u :: inner) = .ending := hu
        rw [if_pos hu]
        refine ends_bind (ends_bind (ends_current (hs.getElem? 0) (ends_throw ?_)))
        simp only [bind, Except.bind]
        rw [if_neg hparse]
        exact ⟨rfl, hs.sound, nofun⟩

end Following

/-! ## Every text is parsed -/

theorem ended_of_tokenize {text : Text} {tokens : List Token} (h : Lexer.tokenize text = .ok tokens) :
    Ended tokens := (Lexer.scans_of_scan h).exists_ending

def limitOf (bound : Int) : Limit := ⟨some bound, (Value.integer bound).display.toOption.getD ""⟩

/-- How parsing a text ends: with a tree or a failure, which are those of the parser. All that was done
on the way is as it should be, and a tree is returned when only the end is left and the depth is
counted back. -/
structure Parses (capacity : Nat) (depth length : Int) (text : Text) (answer : Except Stop Node)
    (after : Walk) : Prop where
  result : ∃ result : Except ParseFailure Node, answer = result.mapError .failure ∧
    Expression.parseText capacity ⟨.integer depth, .integer length⟩ text =
      result.mapError (Expression.parseError text)
  sound : ∀ e ∈ after.events,
    e.Sound text.length ((Lexer.tokenize text).toOption.getD []).length (limitOf depth)
  back : ∀ tree, answer = .ok tree →
    after.depth = 0 ∧ after.index + 1 = ((Lexer.tokenize text).toOption.getD []).length

/-- Parsing a text with a cursor ends, with a tree or a failure and never outside of a list. Each
round of a loop over the text moves the position, each round of a loop over the tokens moves the
index, the index stays inside the tokens, and the depth is at most one more than its limit. -/
theorem parsing_is_total (text : Text) {depth length : Int} {capacity : Nat} (hd : 1 ≤ depth)
    (hc : depth ≤ capacity) :
    ∃ answer after, (parse (limitOf length) (limitOf depth) text).run.run .start = some (answer, after) ∧
      Parses capacity depth length text answer after := by
  have hl : Expression.Bounded ⟨.integer depth, .integer length⟩ (limitOf length) (limitOf depth) :=
    ⟨rfl, rfl⟩
  have hstart : Before ⟨text.points⟩ text.points .start :=
    ⟨List.suffix_refl _, (Nat.sub_self _).symm, rfl, rfl, nofun⟩
  show (parse (limitOf length) (limitOf depth) text).Ends .start (Parses capacity depth length text)
  rw [parse]
  cases hx : (limitOf length).exceededBy text.length with
  | true =>
    refine ends_bind (ends_throw ⟨⟨.error _, rfl, Expression.parseText_of_exceeded hl hx⟩, nofun, nofun⟩)
  | false =>
    have htokens : Lexes ⟨text.points⟩ (Source.tokens ⟨text.points⟩) text.points _ := lexes_tokens text.points
    refine ends_bind ((htokens _ hstart).mono fun answer after hpost => ?_)
    have hplace : place ⟨text.points⟩ text.points = 0 := Nat.sub_self _
    rw [hplace] at hpost
    cases ht : Lexer.tokenize text with
    | error failure =>
      have hscan : Lexer.scan 0 text.points = .error failure := ht
      rw [hscan] at hpost
      obtain ⟨rfl, hrounds⟩ := hpost
      refine ⟨⟨.error failure, rfl, Expression.parseText_of_tokenize_error hl hx ht⟩, ?_, nofun⟩
      exact fun e he => (hrounds e he).sound _ _
    | ok tokens =>
      have hscan : Lexer.scan 0 text.points = .ok tokens := ht
      rw [hscan] at hpost
      obtain ⟨rfl, hw⟩ := hpost
      have hended := ended_of_tokenize ht
      obtain ⟨t, rest, rfl, _⟩ := hended.exists_cons
      let scene : Scene := ⟨t :: rest, text.length, limitOf depth⟩
      have hfits : scene.FitsIn capacity := by
        intro n hn
        have := hn depth rfl
        omega
      have hstands : Stands scene (t :: rest) 0 after := by
        refine ⟨List.suffix_refl _, hended, ?_, hw.depth_eq, ?_, fun e he => (hw.rounds e he).sound _ _⟩
        · rw [hw.index_eq, Nat.zero_add]
        · intro bound hb
          cases hb
          omega
      refine (ends_tree hfits hstands).mono fun answer last hlast => ?_
      obtain ⟨hanswer, hsound, hback⟩ := hlast
      have hcount : ((Lexer.tokenize text).toOption.getD []).length = (t :: rest).length := by
        rw [ht]
        rfl
      refine ⟨⟨_, hanswer, Expression.parseText_of_tokenize_ok hl hx ht⟩, ?_, fun tree htree => ?_⟩
      · rw [hcount]
        exact hsound
      · rw [hcount]
        exact hback tree htree

theorem parsing_negation_is_total :
    let tree : Node := .unary 0 "!" (.identifier 1 "a")
    (1 : Int) ≤ 2 ∧ (2 : Int) ≤ (1000 : Nat) ∧ ∃ after,
      (parse (limitOf 10) (limitOf 2) "!a").run.run .start = some (.ok tree, after) ∧
        Parses 1000 2 10 "!a" (.ok tree) after := by
  intro tree
  let e : Grammar.Tier 0 := .prefixed ⟨.not, .text "!", 0, "!"⟩ "!" rfl
    (.primary (.identifier ⟨⟨.identifier, .text "a", 1, "a"⟩, rfl⟩))
  have hscan : Lexer.tokenize "!a" = .ok (e.phrase.tokens ++ [⟨.ending, .null, 2, ""⟩]) :=
    @Lexer.scan_token 33 [] [97] _ _ 0 _ rfl rfl <|
      @Lexer.scan_token 97 [] [] _ _ 1 _ rfl rfl (Lexer.scan_nil 2)
  have hl : Expression.Bounded ⟨.integer 2, .integer 10⟩ (limitOf 10) (limitOf 2) := ⟨rfl, rfl⟩
  have hderives : Expression.Derives "!a" e.phrase := ⟨⟨.ending, .null, 2, ""⟩, rfl, hscan⟩
  have hparse : Expression.parseText 1000 ⟨.integer 2, .integer 10⟩ "!a" = .ok tree :=
    hderives.parseText_eq_ok hl (by decide) ⟨by decide, by decide⟩
  obtain ⟨answer, after, hrun, hp⟩ :=
    @parsing_is_total "!a" 2 10 1000 (by decide) (by decide)
  obtain ⟨result, hanswer, hresult⟩ := hp.result
  rw [hparse] at hresult
  cases result with
  | error failure => cases hresult
  | ok node =>
    cases hresult
    subst hanswer
    exact ⟨by decide, by decide, after, hrun, hp⟩

end Vetting.Cursor
