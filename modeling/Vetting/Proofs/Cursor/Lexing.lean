import Vetting.Proofs.Cursor.Step
import Vetting.Proofs.Expression.Layout

/-!
# A lexer with a cursor

The token readers share one position in the text, and their loops move it as long as they like. They
end on every text, each round of a loop moves the position, and the tokens are those of the lexer
that takes the text apart.
-/

namespace Vetting.Cursor

open CodePoint Text Step

/-- What the readers look at. -/
structure Source where
  points : List CodePoint

/-! ## The readers -/

def forward (n : Nat) : Step Unit := modify fun walk => { walk with position := walk.position + n }

/-- The round of a loop that began at a position. -/
def round (start : Nat) : Step Unit := do
  record (.read start (← position))

def isDigitAt (c : Option CodePoint) : Bool := (c.map isAsciiDigit).getD false

namespace Source

def here (source : Source) : Step CodePoint := do
  require source.points[← position]?

def peek (source : Source) (offset : Nat) : Step (Option CodePoint) :=
  return source.points[(← position) + offset]?

def slice (source : Source) (start : Nat) : Step (List CodePoint) :=
  return (source.points.drop start).take ((← position) - start)

def skipWhile (source : Source) (p : CodePoint → Bool) : Step Unit := do
  let start ← position
  if start < source.points.length then
    if p (← source.here) then
      forward 1
      round start
      source |>.skipWhile p
partial_fixpoint

def fraction (source : Source) : Step (Option (List CodePoint)) := do
  if (← source.peek 0) = some 46 ∧ isDigitAt (← source.peek 1) then
    forward 1
    let start ← position
    source.skipWhile isAsciiDigit
    return some (← source.slice start)
  else return none

def exponentDigits (source : Source) (mark : Nat) (negative : Bool) :
    Step (Option (Bool × List CodePoint)) := do
  if isDigitAt (← source.peek 0) then
    let start ← position
    source.skipWhile isAsciiDigit
    return some (negative, ← source.slice start)
  else fail .malformedExponent mark

def exponent (source : Source) : Step (Option (Bool × List CodePoint)) := do
  let c ← source.peek 0
  if c = some 101 ∨ c = some 69 then
    let mark ← position
    forward 1
    let sign ← source.peek 0
    if sign = some 43 ∨ sign = some 45 then forward 1
    source.exponentDigits mark (sign = some 45)
  else return none

def number (source : Source) : Step Token := do
  let start ← position
  source.skipWhile isAsciiDigit
  let whole ← source.slice start
  let fraction ← source.fraction
  let exponent ← source.exponent
  if ((← source.peek 0).map fun c => isLetter c || c = 95).getD false then
    fail .letterInNumber (← position)
  else match Lexer.NumeralParts.number? ⟨whole, fraction, exponent⟩ with
    | some n => return ⟨.number, .number n, start, ⟨← source.slice start⟩⟩
    | none => fail .numberTooLarge start

def escape (source : Source) : Step CodePoint := do
  let start ← position
  match ← source.peek 1 with
  | none => fail .unterminatedString start
  | some 117 =>
    match (source.points.drop (start + 2)).take 4 with
    | [a, b, c, d] =>
      if [a, b, c, d].all Lexer.isHexDigit then
        forward 6
        return [a, b, c, d].foldl (fun n d => n * 16 + Lexer.hexValue d) 0
      else fail .invalidUnicodeEscape start
    | _ => fail .invalidUnicodeEscape start
  | some c =>
    forward 2
    return Lexer.escaped c

def point (source : Source) (c : CodePoint) : Step CodePoint := do
  if c = 92 then source.escape
  else
    forward 1
    return c

def content (source : Source) (quote : CodePoint) (opening : Nat) : Step (List CodePoint) := do
  let start ← position
  if start < source.points.length then
    let c ← source.here
    if c = quote then
      forward 1
      return []
    else
      let c ← source.point c
      round start
      return c :: (← source |>.content quote opening)
  else fail .unterminatedString opening
partial_fixpoint

def string (source : Source) (quote : CodePoint) : Step Token := do
  let start ← position
  forward 1
  let content ← source.content quote start
  return ⟨.string, .text ⟨content⟩, start, ⟨← source.slice start⟩⟩

def word (source : Source) : Step Token := do
  let start ← position
  source.skipWhile Lexer.continuesWord
  let word : Text := ⟨← source.slice start⟩
  match Token.keyword? word with
  | some (kind, value) => return ⟨kind, value, start, word⟩
  | none => return ⟨.identifier, .text word, start, word⟩

def symbol (source : Source) : Step Token := do
  let start ← position
  match Token.symbols.find? fun symbol => symbol.1.points.isPrefixOf (source.points.drop start) with
  | some (symbol, kind) =>
    forward symbol.length
    return ⟨kind, .text symbol, start, ⟨← source.slice start⟩⟩
  | none => fail (.unexpectedCharacter (← source.here)) start

def token (source : Source) : Step Token := do
  let c ← source.here
  if isAsciiDigit c || (c = 46 && isDigitAt (← source.peek 1)) then source.number
  else if c = 39 || c = 34 then source.string c
  else if Lexer.startsWord c then source.word
  else source.symbol

def tokens (source : Source) : Step (List Token) := do
  let start ← position
  source.skipWhile isBlank
  if source.points.length ≤ (← position) then return [⟨.ending, .null, ← position, ""⟩]
  let t ← source.token
  round start
  return t :: (← source |>.tokens)
partial_fixpoint

end Source

/-! ## How a step reads the text -/

/-- Whether an event is the round of a loop that moves the position inside a text. -/
def Event.IsRound (length : Nat) : Event → Prop
  | .read start finish => start < finish ∧ finish ≤ length
  | _ => False

theorem Event.IsRound.sound {length : Nat} {e : Event} (h : e.IsRound length) (count : Nat)
    (limit : Limit) : e.Sound length count limit := by
  cases e with
  | read start finish => exact h
  | _ => exact h.elim

section Lexing
variable {source : Source} {α β : Type}

variable (source) in
def place (rest : List CodePoint) : Nat := source.points.length - rest.length

variable (source) in
/-- Whether a walk stands before a rest of the text, and the loops have got on. -/
structure Before (rest : List CodePoint) (walk : Walk) : Prop where
  suffix : rest <:+ source.points
  position_eq : walk.position = place source rest
  index_eq : walk.index = 0
  depth_eq : walk.depth = 0
  rounds : ∀ e ∈ walk.events, e.IsRound source.points.length

variable (source) in
/-- Whether a step that starts before a rest of the text ends with this result, which is what it has
read and the rest that it leaves. -/
def Lexes (step : Step α) (rest : List CodePoint) (result : Except ParseFailure (α × List CodePoint)) :
    Prop :=
  ∀ walk, Before source rest walk → step.Ends walk fun answer after =>
    match result with
    | .ok (a, rest) => answer = .ok a ∧ Before source rest after
    | .error failure => answer = .error (.failure failure) ∧
        ∀ e ∈ after.events, e.IsRound source.points.length

variable {body rest middle : List CodePoint} {step : Step α} {next : α → Step β} {a : α}

theorem drop_place (h : rest <:+ source.points) : source.points.drop (place source rest) = rest := by
  obtain ⟨front, hfront⟩ := h
  rw [place, ← hfront, List.length_append, Nat.add_sub_cancel, List.drop_left]

theorem place_add (h : body <:+ source.points) (hle : rest.length ≤ body.length) :
    place source body + (body.length - rest.length) = place source rest := by
  have := h.length_le
  rw [place, place]
  omega

theorem lexes_of_suffix {result : Except ParseFailure (α × List CodePoint)}
    (h : rest <:+ source.points → Lexes source step rest result) : Lexes source step rest result :=
  fun walk hw => h hw.suffix walk hw

theorem lexes_pure (a : α) : Lexes source (pure a) rest (.ok (a, rest)) :=
  fun _ hw => ends_pure ⟨rfl, hw⟩

theorem Lexes.bind {result : Except ParseFailure (β × List CodePoint)}
    (h : Lexes source step rest (.ok (a, middle))) (hn : Lexes source (next a) middle result) :
    Lexes source (step >>= next) rest result := by
  intro walk hw
  refine ends_bind ((h walk hw).mono fun answer after hpost => ?_)
  obtain ⟨rfl, ha⟩ := hpost
  exact hn after ha

theorem Lexes.bind_error {failure : ParseFailure} (h : Lexes source step rest (.error failure)) :
    Lexes source (step >>= next) rest (.error failure) := by
  intro walk hw
  refine ends_bind ((h walk hw).mono fun answer after hpost => ?_)
  obtain ⟨rfl, ha⟩ := hpost
  exact ⟨rfl, ha⟩

theorem lexes_fail (problem : ParseProblem) (position : Nat) :
    Lexes source (fail problem position : Step α) rest (.error ⟨problem, some position⟩) :=
  fun _ hw => ends_throw ⟨rfl, hw.rounds⟩

theorem lexes_position : Lexes source position rest (.ok (place source rest, rest)) :=
  fun walk hw => ⟨.ok walk.position, walk, rfl, congrArg Except.ok hw.position_eq, hw⟩

theorem lexes_peek (offset : Nat) : Lexes source (source.peek offset) rest (.ok (rest[offset]?, rest)) := by
  refine fun walk hw => ⟨.ok source.points[walk.position + offset]?, walk, rfl, ?_, hw⟩
  rw [hw.position_eq, ← List.getElem?_drop, drop_place hw.suffix]

theorem lexes_here {c : CodePoint} : Lexes source source.here (c :: rest) (.ok (c, c :: rest)) := by
  intro walk hw
  have hc : source.points[walk.position]? = some c := by
    rw [← Nat.add_zero walk.position, hw.position_eq, ← List.getElem?_drop, drop_place hw.suffix]
    rfl
  refine ends_bind ⟨.ok walk.position, walk, rfl, ?_⟩
  dsimp only
  rw [hc]
  exact ends_pure ⟨rfl, hw⟩

theorem lexes_forward (front : List CodePoint) :
    Lexes source (forward front.length) (front ++ rest) (.ok ((), rest)) := by
  intro walk hw
  refine ⟨.ok (), { walk with position := walk.position + front.length }, rfl, rfl, ?_⟩
  refine ⟨(List.suffix_append front rest).trans hw.suffix, ?_, hw.index_eq, hw.depth_eq, hw.rounds⟩
  have hle : rest.length ≤ (front ++ rest).length := (List.suffix_append front rest).length_le
  rw [← place_add hw.suffix hle, List.length_append, Nat.add_sub_cancel, hw.position_eq]

theorem lexes_slice {front : List CodePoint} (h : body <:+ source.points) (hb : body = front ++ rest) :
    Lexes source (source.slice (place source body)) rest (.ok (front, rest)) := by
  refine fun walk hw => ⟨.ok _, walk, rfl, ?_, hw⟩
  have hle : rest.length ≤ body.length := by rw [hb, List.length_append]; omega
  rw [hw.position_eq, ← place_add h hle, Nat.add_sub_cancel_left, drop_place h, hb, List.length_append,
    Nat.add_sub_cancel, List.take_left]

theorem lexes_round (h : body <:+ source.points) (hlt : rest.length < body.length) :
    Lexes source (round (place source body)) rest (.ok ((), rest)) := by
  intro walk hw
  refine ⟨.ok (), _, rfl, rfl, ⟨hw.suffix, hw.position_eq, hw.index_eq, hw.depth_eq, ?_⟩⟩
  refine List.forall_mem_cons.mpr ⟨⟨?_, ?_⟩, hw.rounds⟩
  · rw [hw.position_eq, ← place_add h (Nat.le_of_lt hlt)]
    exact Nat.lt_add_of_pos_right (Nat.sub_pos_of_lt hlt)
  · rw [hw.position_eq]
    exact Nat.sub_le _ _

theorem not_place_nil_lt : ¬ place source [] < source.points.length := Nat.lt_irrefl _

theorem place_cons_lt {c : CodePoint} (h : c :: rest <:+ source.points) :
    place source (c :: rest) < source.points.length :=
  Nat.sub_lt (Nat.lt_of_lt_of_le (Nat.succ_pos _) h.length_le) (Nat.succ_pos _)

/-! ## The readers end -/

theorem lexes_skipWhile (p : CodePoint → Bool) (rest : List CodePoint) :
    Lexes source (source.skipWhile p) rest (.ok ((), rest.dropWhile p)) := by
  induction rest with
  | nil =>
    rw [Source.skipWhile]
    refine lexes_position.bind ?_
    rw [if_neg not_place_nil_lt]
    exact lexes_pure ()
  | cons c rest ih =>
    rw [Source.skipWhile]
    refine lexes_of_suffix fun hs => lexes_position.bind ?_
    rw [if_pos (place_cons_lt hs)]
    refine lexes_here.bind ?_
    cases hc : p c with
    | false =>
      rw [List.dropWhile_cons_of_neg (by rw [hc]; exact Bool.false_ne_true)]
      exact lexes_pure ()
    | true =>
      rw [List.dropWhile_cons_of_pos hc]
      exact (lexes_forward [c]).bind ((lexes_round hs (Nat.lt_succ_self _)).bind ih)

theorem isDigitAt_zero (rest : List CodePoint) :
    isDigitAt rest[0]? = Lexer.startsWithDigit rest := by
  cases rest <;> rfl

theorem lexes_fraction (rest : List CodePoint) :
    Lexes source source.fraction rest
      (.ok ((Lexer.readFraction rest).1, (Lexer.readFraction rest).2)) := by
  rw [Source.fraction]
  refine lexes_of_suffix fun hs => (lexes_peek 0).bind ((lexes_peek 1).bind ?_)
  cases h : Lexer.startsWithFraction rest with
  | false =>
    rw [Lexer.readFraction_of_not_starts h, if_neg]
    · exact lexes_pure none
    · rintro ⟨hpoint, hdigit⟩
      cases rest with
      | nil => cases hpoint
      | cons c rest =>
        obtain rfl : c = 46 := Option.some.inj hpoint
        rw [List.getElem?_cons_succ, isDigitAt_zero] at hdigit
        rw [Lexer.startsWithFraction, hdigit] at h
        cases h
  | true =>
    unfold Lexer.startsWithFraction at h
    split at h
    · rename_i rest
      have hdigit : isDigitAt (46 :: rest)[1]? = true := by
        rwa [List.getElem?_cons_succ, isDigitAt_zero]
      have hrest : rest <:+ source.points := (List.suffix_cons 46 rest).trans hs
      rw [if_pos ⟨rfl, hdigit⟩]
      simp only [Lexer.readFraction, h, ↓reduceIte]
      refine (lexes_forward [46]).bind (lexes_position.bind ((lexes_skipWhile _ _).bind ?_))
      exact (lexes_slice hrest List.takeWhile_append_dropWhile.symm).bind (lexes_pure _)
    · cases h

/-- What an exponent is read as, if there are digits where they have to be. -/
def exponentAnswer (mark : Nat) (answer : Option (Option (Bool × List CodePoint) × List CodePoint)) :
    Except ParseFailure (Option (Bool × List CodePoint) × List CodePoint) :=
  match answer with
  | some r => .ok r
  | none => .error ⟨.malformedExponent, some mark⟩

theorem lexes_exponentDigits (mark : Nat) (negative : Bool) (digits : List CodePoint) :
    Lexes source (source.exponentDigits mark negative) digits
      (exponentAnswer mark (if Lexer.startsWithDigit digits then
        some (some (negative, digits.takeWhile isAsciiDigit), digits.dropWhile isAsciiDigit)
      else none)) := by
  rw [Source.exponentDigits]
  refine lexes_of_suffix fun hs => (lexes_peek 0).bind ?_
  rw [isDigitAt_zero]
  cases Lexer.startsWithDigit digits with
  | false => exact lexes_fail _ _
  | true =>
    refine lexes_position.bind ((lexes_skipWhile _ _).bind ?_)
    exact (lexes_slice hs List.takeWhile_append_dropWhile.symm).bind (lexes_pure _)

theorem lexes_exponent (rest : List CodePoint) :
    Lexes source source.exponent rest
      (exponentAnswer (place source rest) (Lexer.readExponent rest)) := by
  rw [Source.exponent]
  refine (lexes_peek 0).bind ?_
  cases rest with
  | nil => exact lexes_pure none
  | cons c rest =>
    unfold Lexer.readExponent
    by_cases hc : c = 101 ∨ c = 69
    · have hmark : (c = 101 || c = 69) = true := by simpa using hc
      have hmark' : (c :: rest)[0]? = some 101 ∨ (c :: rest)[0]? = some 69 := by simpa using hc
      simp only [hmark, hmark', ↓reduceIte]
      refine lexes_position.bind ((lexes_forward [c]).bind ((lexes_peek 0).bind ?_))
      match rest with
      | [] => exact lexes_exponentDigits _ false []
      | d :: digits =>
        by_cases hplus : d = 43
        · subst hplus
          exact (lexes_forward [43]).bind (lexes_exponentDigits _ false digits)
        · by_cases hminus : d = 45
          · subst hminus
            exact (lexes_forward [45]).bind (lexes_exponentDigits _ true digits)
          · have hsign : ¬ ((d :: digits)[0]? = some 43 ∨ (d :: digits)[0]? = some 45) := by
              simp [hplus, hminus]
            have hnegative : decide ((d :: digits)[0]? = some 45) = false := by simp [hminus]
            rw [if_neg hsign, hnegative]
            split
            · rename_i heq
              exact absurd (List.cons.inj heq).1 hplus
            · rename_i heq
              exact absurd (List.cons.inj heq).1 hminus
            · exact lexes_exponentDigits _ false (d :: digits)
    · have hmark : ¬ (c = 101 || c = 69) = true := by simpa using hc
      have hmark' : ¬ ((c :: rest)[0]? = some 101 ∨ (c :: rest)[0]? = some 69) := by simpa using hc
      simp only [hmark, hmark', Bool.false_eq_true, ↓reduceIte]
      exact lexes_pure none

/-! ## The token readers agree with the lexer -/

variable (source) in
def tokenAnswer (body : List CodePoint) (answer : Except ParseFailure Lexer.Reading) :
    Except ParseFailure (Token × List CodePoint) :=
  match answer with
  | .ok r => .ok (⟨r.kind, r.value, place source body, ⟨body.take (r.extra + 1)⟩⟩, body.drop (r.extra + 1))
  | .error failure => .error failure

theorem length_readFraction_le (rest : List CodePoint) :
    (Lexer.readFraction rest).2.length ≤ rest.length := by
  obtain ⟨written, _, hrest, _⟩ := Lexer.exists_writesFraction rest
  have := congrArg List.length hrest
  rw [List.length_append] at this
  omega

/-- A numeral has a digit before its point or behind it. -/
theorem length_readFraction_lt {c : CodePoint} {rest : List CodePoint}
    (hc : (isAsciiDigit c || (c = 46 && Lexer.startsWithDigit rest)) = true) :
    (Lexer.readFraction ((c :: rest).dropWhile isAsciiDigit)).2.length < (c :: rest).length := by
  cases hd : isAsciiDigit c with
  | true =>
    rw [List.dropWhile_cons_of_pos hd]
    refine Nat.lt_succ_of_le ((length_readFraction_le _).trans ?_)
    exact (List.dropWhile_suffix _).length_le
  | false =>
    rw [hd, Bool.false_or, Bool.and_eq_true, decide_eq_true_eq] at hc
    obtain ⟨rfl, hrest⟩ := hc
    rw [List.dropWhile_cons_of_neg (by rw [hd]; exact Bool.false_ne_true)]
    simp only [Lexer.readFraction, hrest, ↓reduceIte]
    exact Nat.lt_succ_of_le (List.dropWhile_suffix _).length_le

theorem lexes_number {c : CodePoint} {rest : List CodePoint}
    (hc : (isAsciiDigit c || (c = 46 && Lexer.startsWithDigit rest)) = true) :
    Lexes source source.number (c :: rest)
      (tokenAnswer source (c :: rest) (Lexer.readNumber (c :: rest) (place source (c :: rest)))) := by
  have hlt := length_readFraction_lt hc
  generalize c :: rest = body at hlt ⊢
  obtain ⟨a, hf, hfr, _, hfd⟩ := Lexer.exists_writesFraction (body.dropWhile isAsciiDigit)
  rw [Source.number, Lexer.readNumber]
  refine lexes_of_suffix fun hs => lexes_position.bind ((lexes_skipWhile _ _).bind ?_)
  refine (lexes_slice hs List.takeWhile_append_dropWhile.symm).bind ((lexes_fraction _).bind ?_)
  generalize Lexer.readFraction (body.dropWhile isAsciiDigit) = fraction at hf hfr hfd hlt ⊢
  obtain ⟨fraction, tail⟩ := fraction
  dsimp only at hfr hfd hlt ⊢
  have hexponent : Lexes source source.exponent tail _ := lexes_exponent tail
  cases he : Lexer.readExponent tail with
  | none =>
    rw [he] at hexponent
    dsimp only
    rw [Lexer.failAt, place_add hs (Nat.le_of_lt hlt)]
    exact hexponent.bind_error
  | some r =>
    obtain ⟨exponent, last⟩ := r
    obtain ⟨b, _, hbl, _⟩ := Lexer.exists_writesExponent he (hfd (Lexer.startsWithDigit_dropWhile body))
    have htail : last <:+ tail := hbl ▸ List.suffix_append b last
    have hlast : last <:+ body :=
      htail.trans ((hfr ▸ List.suffix_append a tail).trans (List.dropWhile_suffix _))
    rw [he] at hexponent
    refine Lexes.bind hexponent ((lexes_peek 0).bind ?_)
    rw [← List.head?_eq_getElem?]
    dsimp only
    split
    · rw [Lexer.failAt, place_add hs hlast.length_le]
      exact lexes_position.bind (lexes_fail _ _)
    · cases Lexer.NumeralParts.number? ⟨body.takeWhile isAsciiDigit, fraction, exponent⟩ with
      | none => exact lexes_fail _ _
      | some n =>
        have hlength : body.length - last.length - 1 + 1 = body.length - last.length :=
          Nat.sub_add_cancel (Nat.sub_pos_of_lt (Nat.lt_of_le_of_lt htail.length_le hlt))
        have hdrop : body.drop (body.length - last.length) = last :=
          (List.suffix_iff_eq_drop.mp hlast).symm
        dsimp only [tokenAnswer]
        rw [hlength, hdrop]
        have hbody := List.take_append_drop (body.length - last.length) body
        rw [hdrop] at hbody
        exact (lexes_slice hs hbody.symm).bind (lexes_pure _)

section Strings
variable {quote opening c e : CodePoint} {front : List CodePoint}

theorem drop_place_add_two {b : CodePoint} (h : c :: b :: rest <:+ source.points) :
    source.points.drop (place source (c :: b :: rest) + 2) = rest := by
  rw [← List.drop_drop, drop_place h]
  rfl

theorem lexes_point_unicode {a b c d : CodePoint} (h : [a, b, c, d].all Lexer.isHexDigit = true) :
    Lexes source (source.point 92) (92 :: 117 :: a :: b :: c :: d :: rest)
      (.ok ([a, b, c, d].foldl (fun n d => n * 16 + Lexer.hexValue d) 0, rest)) := by
  rw [Source.point, if_pos rfl, Source.escape]
  refine lexes_of_suffix fun hs => lexes_position.bind ((lexes_peek 1).bind ?_)
  simp only [List.getElem?_cons_succ, List.getElem?_cons_zero, drop_place_add_two hs, List.take_succ_cons,
    List.take_zero, h, ↓reduceIte]
  exact (lexes_forward [92, 117, a, b, c, d]).bind (lexes_pure _)

theorem lexes_point_invalid {tail : List CodePoint}
    (h : ∀ a b c d rest, tail = a :: b :: c :: d :: rest → [a, b, c, d].all Lexer.isHexDigit = false) :
    Lexes source (source.point 92) (92 :: 117 :: tail)
      (.error ⟨.invalidUnicodeEscape, some (place source (92 :: 117 :: tail))⟩) := by
  rw [Source.point, if_pos rfl, Source.escape]
  refine lexes_of_suffix fun hs => lexes_position.bind ((lexes_peek 1).bind ?_)
  simp only [List.getElem?_cons_succ, List.getElem?_cons_zero, drop_place_add_two hs]
  split
  · rename_i a b c d htake
    have htail : tail = a :: b :: c :: d :: tail.drop 4 := by
      rw [← List.take_append_drop 4 tail, htake]
      rfl
    rw [if_neg (by rw [h a b c d _ htail]; exact Bool.false_ne_true)]
    exact lexes_fail _ _
  · exact lexes_fail _ _

theorem lexes_point_plain (he : e ≠ 117) :
    Lexes source (source.point 92) (92 :: e :: rest) (.ok (Lexer.escaped e, rest)) := by
  rw [Source.point, if_pos rfl, Source.escape]
  refine lexes_position.bind ((lexes_peek 1).bind ?_)
  simp only [List.getElem?_cons_succ, List.getElem?_cons_zero]
  exact (lexes_forward [92, e]).bind (lexes_pure _)

theorem lexes_point_nil :
    Lexes source (source.point 92) [92] (.error ⟨.unterminatedString, some (place source [92])⟩) := by
  rw [Source.point, if_pos rfl, Source.escape]
  exact lexes_position.bind ((lexes_peek 1).bind (lexes_fail _ _))

theorem lexes_point (hc : c ≠ 92) : Lexes source (source.point c) (c :: rest) (.ok (c, rest)) := by
  rw [Source.point, if_neg hc]
  exact (lexes_forward [c]).bind (lexes_pure c)

def contentAnswer (rest : List CodePoint) (answer : Except ParseFailure (List CodePoint × Nat)) :
    Except ParseFailure (List CodePoint × List CodePoint) :=
  match answer with
  | .ok (content, n) => .ok (content, rest.drop n)
  | .error failure => .error failure

theorem lexes_content_cons {result : Except ParseFailure (List CodePoint × List CodePoint)}
    (h : Lexes source (do
      if c = quote then
        forward 1
        return []
      else
        let c' ← source.point c
        round (place source (c :: rest))
        return c' :: (← source.content quote opening)) (c :: rest) result) :
    Lexes source (source.content quote opening) (c :: rest) result := by
  rw [Source.content]
  refine lexes_of_suffix fun hs => lexes_position.bind ?_
  rw [if_pos (place_cons_lt hs)]
  exact lexes_here.bind h

theorem lexes_content_error {failure : ParseFailure} (hq : c ≠ quote)
    (h : Lexes source (source.point c) (c :: rest) (.error failure)) :
    Lexes source (source.content quote opening) (c :: rest) (.error failure) := by
  refine lexes_content_cons ?_
  rw [if_neg hq]
  exact h.bind_error

theorem lexes_content_next {tail : List CodePoint} {n : Nat}
    {answer : Except ParseFailure (List CodePoint × Nat)} (front : List CodePoint) (hq : c ≠ quote)
    (h : Lexes source (source.point c) (c :: tail) (.ok (e, rest))) (hr : c :: tail = front ++ rest)
    (hn : front.length = n + 1)
    (hc : rest <:+ source.points → place source (c :: tail) + (n + 1) = place source rest →
      Lexes source (source.content quote opening) rest (contentAnswer rest answer)) :
    Lexes source (source.content quote opening) (c :: tail)
      (contentAnswer (c :: tail) (Lexer.prepend e (n + 1) <$> answer)) := by
  refine lexes_of_suffix fun hs => lexes_content_cons ?_
  have hlength : (c :: tail).length = (n + 1) + rest.length := by rw [hr, List.length_append, hn]
  have hlt : rest.length < (c :: tail).length := by omega
  have hrest : rest <:+ source.points := ((hr ▸ List.suffix_append front rest).trans hs)
  have hplace : place source (c :: tail) + (n + 1) = place source rest := by
    rw [← place_add hs (Nat.le_of_lt hlt), hlength, Nat.add_sub_cancel]
  have hc := hc hrest hplace
  rw [if_neg hq]
  refine h.bind ((lexes_round hs hlt).bind ?_)
  cases answer with
  | error failure => exact hc.bind_error
  | ok r =>
    have hdrop : (c :: tail).drop (r.2 + (n + 1)) = rest.drop r.2 := by
      rw [hr, Nat.add_comm, ← hn, ← List.drop_drop, List.drop_left]
    refine Lexes.bind hc ?_
    dsimp only [Functor.map, Except.map, Lexer.prepend, contentAnswer]
    rw [hdrop]
    exact lexes_pure _

/-- The loop over a string stops where the lexer finds the end of the string, or fails as it does. -/
theorem lexes_content (quote opening position : Nat) (rest : List CodePoint) :
    rest <:+ source.points → position = place source rest →
      Lexes source (source.content quote opening) rest
        (contentAnswer rest (Lexer.readContent quote opening position rest)) := by
  -- the cases of the lexer: the end, the closing quote, the escapes, a plain code point
  induction position, rest using Lexer.readContent.induct quote with
  | case1 position =>
    intro _ _
    rw [Source.content, Lexer.readContent.eq_def]
    refine lexes_position.bind ?_
    rw [if_neg not_place_nil_lt]
    exact lexes_fail _ _
  | case2 position rest =>
    intro _ _
    refine lexes_content_cons ?_
    rw [Lexer.readContent.eq_def]
    simp only [↓reduceIte]
    exact (lexes_forward [quote]).bind (lexes_pure [])
  | case3 position hq =>
    intro _ hp
    rw [Lexer.readContent.eq_def]
    simp only [hq, ↓reduceIte]
    rw [hp]
    exact lexes_content_error hq lexes_point_nil
  | case4 position a b c d rest hx hq ih =>
    intro hs hp
    rw [Lexer.readContent_unicode opening position rest hq hx]
    exact lexes_content_next [92, 117, a, b, c, d] hq (lexes_point_unicode hx) rfl rfl
      fun hr hplace => ih hr (hp ▸ hplace)
  | case5 position a b c d rest hx hq =>
    intro hs hp
    rw [Lexer.readContent.eq_def]
    simp only [hq, hx, ↓reduceIte]
    rw [hp]
    refine lexes_content_error hq (lexes_point_invalid ?_)
    intro a' b' c' d' rest' heq
    cases heq
    exact Bool.eq_false_iff.mpr hx
  | case6 position tail hx hq =>
    intro hs hp
    rw [Lexer.readContent.eq_def]
    simp only [hq, ↓reduceIte]
    rw [hp]
    refine lexes_content_error hq (lexes_point_invalid ?_)
    intro a' b' c' d' rest' heq
    exact absurd heq (hx a' b' c' d' rest')
  | case7 position e rest hx he hq ih =>
    intro hs hp
    rw [Lexer.readContent_escape opening position rest hq he]
    exact lexes_content_next [92, e] hq (lexes_point_plain he) rfl rfl
      fun hr hplace => ih hr (hp ▸ hplace)
  | case8 position c rest hc hb ih =>
    intro hs hp
    rw [Lexer.readContent_plain opening position rest hc hb]
    exact lexes_content_next [c] hc (lexes_point hb) rfl rfl fun hr hplace => ih hr (hp ▸ hplace)

theorem lexes_string (quote : CodePoint) (rest : List CodePoint) :
    Lexes source (source.string quote) (quote :: rest)
      (tokenAnswer source (quote :: rest)
        (Lexer.readString quote rest (place source (quote :: rest)))) := by
  rw [Source.string, Lexer.readString]
  refine lexes_of_suffix fun hs => lexes_position.bind ((lexes_forward [quote]).bind ?_)
  have hrest : rest <:+ source.points := (List.suffix_cons quote rest).trans hs
  have hplace : place source (quote :: rest) + 1 = place source rest := by
    rw [← place_add hs (Nat.le_succ rest.length), List.length_cons, Nat.add_sub_cancel_left]
  have hcontent := lexes_content quote (place source (quote :: rest)) _ rest hrest hplace
  cases hr : Lexer.readContent quote (place source (quote :: rest))
      (place source (quote :: rest) + 1) rest with
  | error failure =>
    rw [hr] at hcontent
    exact hcontent.bind_error
  | ok r =>
    rw [hr] at hcontent
    refine Lexes.bind hcontent ?_
    refine (lexes_slice hs ?_).bind (lexes_pure _)
    exact (List.take_append_drop (r.2 + 1) (quote :: rest)).symm

end Strings

theorem continuesWord_of_startsWord {c : CodePoint} (h : Lexer.startsWord c = true) :
    Lexer.continuesWord c = true := by
  unfold Lexer.startsWord at h
  unfold Lexer.continuesWord isLetterOrNumeral
  grind

theorem lexes_word {c : CodePoint} {rest : List CodePoint} (hc : Lexer.startsWord c = true) :
    Lexes source source.word (c :: rest)
      (tokenAnswer source (c :: rest) (.ok (Lexer.readWord c rest))) := by
  rw [Source.word]
  refine lexes_of_suffix fun hs => lexes_position.bind ((lexes_skipWhile _ _).bind ?_)
  rw [List.dropWhile_cons_of_pos (continuesWord_of_startsWord hc)]
  have hbody : c :: rest = (c :: rest.takeWhile Lexer.continuesWord) ++
      rest.dropWhile Lexer.continuesWord :=
    congrArg (List.cons c) List.takeWhile_append_dropWhile.symm
  refine (lexes_slice hs hbody).bind ?_
  dsimp only [tokenAnswer]
  rw [Lexer.readWord_extra, List.take_succ_cons, Lexer.take_takeWhile, List.drop_succ_cons,
    Lexer.drop_takeWhile, Lexer.readWord]
  cases Token.keyword? ⟨c :: rest.takeWhile Lexer.continuesWord⟩ with
  | none => exact lexes_pure _
  | some keyword => exact lexes_pure _

theorem lexes_symbol (c : CodePoint) (rest : List CodePoint) :
    Lexes source source.symbol (c :: rest)
      (tokenAnswer source (c :: rest) (Lexer.readSymbol c rest (place source (c :: rest)))) := by
  rw [Source.symbol]
  refine lexes_of_suffix fun hs => lexes_position.bind ?_
  rw [drop_place hs, Lexer.readSymbol]
  cases hfind : Token.symbols.find? fun symbol => symbol.1.points.isPrefixOf (c :: rest) with
  | none => exact lexes_here.bind (lexes_fail _ _)
  | some s =>
    obtain ⟨symbol, kind⟩ := s
    have hfront := List.find?_some hfind
    obtain ⟨w, hw⟩ := Lexer.exists_points_of_symbol (List.mem_of_find?_eq_some hfind) hfront
    obtain ⟨tail, htail⟩ := List.isPrefixOf_iff_prefix.mp hfront
    have hlength : symbol.length - 1 + 1 = symbol.points.length := by rw [length, hw]; rfl
    have htake : (c :: rest).take symbol.points.length = symbol.points := by
      rw [← htail, List.take_left]
    have hdrop : (c :: rest).drop symbol.points.length = tail := by rw [← htail, List.drop_left]
    dsimp only [tokenAnswer]
    rw [hlength, htake, hdrop]
    have hforward : Lexes source (forward symbol.length) (c :: rest) (.ok ((), tail)) := by
      rw [← htail]
      exact lexes_forward symbol.points
    exact hforward.bind ((lexes_slice hs htail.symm).bind (lexes_pure _))

theorem lexes_token (c : CodePoint) (rest : List CodePoint) :
    Lexes source source.token (c :: rest)
      (tokenAnswer source (c :: rest) (Lexer.read c rest (place source (c :: rest)))) := by
  rw [Source.token, Lexer.read]
  refine lexes_here.bind ((lexes_peek 1).bind ?_)
  rw [List.getElem?_cons_succ, isDigitAt_zero]
  split_ifs with hnumber hquote hword
  · exact lexes_number hnumber
  · exact lexes_string c rest
  · exact lexes_word hword
  · exact lexes_symbol c rest

def tokensAnswer (answer : Except ParseFailure (List Token)) :
    Except ParseFailure (List Token × List CodePoint) :=
  match answer with
  | .ok tokens => .ok (tokens, [])
  | .error failure => .error failure

theorem scan_dropWhile (h : rest <:+ source.points) :
    Lexer.scan (place source (rest.dropWhile isBlank)) (rest.dropWhile isBlank) =
      Lexer.scan (place source rest) rest := by
  have hlength := congrArg List.length (List.takeWhile_append_dropWhile (p := isBlank) (l := rest))
  rw [List.length_append] at hlength
  have hplace := place_add h (List.dropWhile_suffix isBlank).length_le
  rw [← hlength, Nat.add_sub_cancel] at hplace
  conv => rhs; rw [← List.takeWhile_append_dropWhile (p := isBlank) (l := rest)]
  rw [Lexer.scan_blanks fun c hc => List.mem_takeWhile_imp hc, List.takeWhile_append_dropWhile, hplace]

/-- The loop over the tokens ends, with the tokens of the lexer or with its failure. -/
theorem lexes_tokens (rest : List CodePoint) :
    Lexes source source.tokens rest (tokensAnswer (Lexer.scan (place source rest) rest)) := by
  -- a round may take blanks and a token of any length away, so the induction is on what is left
  induction hn : rest.length using Nat.strongRecOn generalizing rest with
  | ind n ih =>
    subst hn
    rw [Source.tokens]
    refine lexes_of_suffix fun hs => lexes_position.bind ((lexes_skipWhile _ _).bind ?_)
    rw [← scan_dropWhile hs]
    have hle := (List.dropWhile_suffix isBlank (l := rest)).length_le
    refine lexes_of_suffix fun hd => lexes_position.bind ?_
    cases hrest : rest.dropWhile isBlank with
    | nil =>
      rw [if_pos (Nat.not_lt.mp not_place_nil_lt), Lexer.scan_nil]
      exact lexes_position.bind (lexes_pure _)
    | cons c tail =>
      rw [hrest] at hd hle
      have hb : isBlank c = false := by
        have := List.head_dropWhile_not isBlank (l := rest) (by rw [hrest]; exact List.cons_ne_nil c tail)
        simpa [hrest] using this
      have htoken : Lexes source source.token (c :: tail) _ := lexes_token c tail
      rw [if_neg (Nat.not_le.mpr (place_cons_lt hd)), Lexer.scan_cons hb]
      cases hr : Lexer.read c tail (place source (c :: tail)) with
      | error failure =>
        rw [hr] at htoken
        exact htoken.bind_error
      | ok r =>
        rw [hr] at htoken
        have hextra := Lexer.extra_le hr
        have hlength : (c :: tail).length = r.extra + 1 + (tail.drop r.extra).length := by
          rw [List.length_cons, List.length_drop]
          omega
        have hplace : place source (c :: tail) + r.extra + 1 = place source (tail.drop r.extra) := by
          have hadd := place_add hd (show (tail.drop r.extra).length ≤ (c :: tail).length by omega)
          omega
        have hlt : (tail.drop r.extra).length < rest.length := by omega
        have hmore := ih _ hlt (tail.drop r.extra) rfl
        refine Lexes.bind htoken ((lexes_round hs hlt).bind ?_)
        simp only [bind, Except.bind, hplace]
        cases hscan : Lexer.scan (place source (tail.drop r.extra)) (tail.drop r.extra) with
        | error failure =>
          rw [hscan] at hmore
          exact hmore.bind_error
        | ok more =>
          rw [hscan] at hmore
          exact Lexes.bind hmore (lexes_pure _)

end Lexing

end Vetting.Cursor
