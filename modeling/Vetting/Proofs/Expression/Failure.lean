import Vetting.Proofs.Expression.Layout
import Vetting.Proofs.Expression.Parsed

/-!
# Where parsing fails

A failure of the lexer or of the parser points to a place in the text, or to its end. The lexer fails
at or after the position that it has come to, the parser at one of the tokens that it is given.
-/

namespace Vetting

/-- Whether a failure is at a position up to this one, if it is at any. -/
def FailsUpTo {α : Type} (n : Nat) (r : Except ParseFailure α) : Prop :=
  ∀ failure, r = .error failure → ∀ p, failure.position = some p → p ≤ n

section Results
variable {α β : Type} {n m : Nat}

theorem failsUpTo_ok (a : α) : FailsUpTo n (.ok a) := nofun

theorem failsUpTo_failure {problem : ParseProblem} {p : Nat} (h : p ≤ n) :
    FailsUpTo n (.error ⟨problem, some p⟩ : Except ParseFailure α) := by
  rintro failure ⟨⟩ q ⟨⟩
  exact h

theorem FailsUpTo.mono {r : Except ParseFailure α} (h : FailsUpTo n r) (hm : n ≤ m) : FailsUpTo m r :=
  fun failure hf p hp => Nat.le_trans (h failure hf p hp) hm

theorem FailsUpTo.bind {r : Except ParseFailure α} {next : α → Except ParseFailure β}
    (h : FailsUpTo n r) (hn : ∀ a, r = .ok a → FailsUpTo n (next a)) : FailsUpTo n (r >>= next) := by
  cases r with
  | error failure =>
    rintro _ ⟨⟩
    exact h failure rfl
  | ok a => exact hn a rfl

theorem FailsUpTo.map {r : Except ParseFailure α} (h : FailsUpTo n r) (f : α → β) :
    FailsUpTo n (f <$> r) := by
  cases r with
  | error failure =>
    rintro _ ⟨⟩
    exact h failure rfl
  | ok a => exact failsUpTo_ok _

end Results

/-! ## The lexer -/

namespace Lexer

open CodePoint

theorem failsUpTo_readNumber (points : List CodePoint) (position : Nat) :
    FailsUpTo (position + points.length) (readNumber points position) := by
  unfold readNumber
  dsimp only
  split
  · exact failsUpTo_failure (Nat.add_le_add_left (Nat.sub_le _ _) position)
  · split
    · exact failsUpTo_failure (Nat.add_le_add_left (Nat.sub_le _ _) position)
    · split
      · exact failsUpTo_ok _
      · exact failsUpTo_failure (Nat.le_add_right _ _)

/-- A string fails where it starts or at one of its escapes. -/
theorem failsUpTo_readContent (quote : CodePoint) {start position : Nat} (points : List CodePoint)
    (h : start ≤ position) :
    FailsUpTo (position + points.length) (readContent quote start position points) := by
  induction position, points using readContent.induct quote with
  | case1 position => exact failsUpTo_failure h
  | case2 position rest =>
    rw [readContent.eq_def]
    simp only [↓reduceIte]
    exact failsUpTo_ok _
  | case3 position hq =>
    rw [readContent.eq_def]
    simp only [hq, ↓reduceIte]
    exact failsUpTo_failure (Nat.le_add_right _ _)
  | case4 position a b c d rest hx hq ih =>
    rw [readContent_unicode start position rest hq hx]
    exact ((ih (by omega)).mono (by simp only [List.length_cons]; omega)).map _
  | case5 position a b c d rest hx hq =>
    rw [readContent.eq_def]
    simp only [hq, hx, ↓reduceIte]
    exact failsUpTo_failure (Nat.le_add_right _ _)
  | case6 position tail hx hq =>
    rw [readContent.eq_def]
    simp only [hq, ↓reduceIte]
    exact failsUpTo_failure (Nat.le_add_right _ _)
  | case7 position e rest hx he hq ih =>
    rw [readContent_escape start position rest hq he]
    exact ((ih (by omega)).mono (by simp only [List.length_cons]; omega)).map _
  | case8 position c rest hc hb ih =>
    rw [readContent_plain start position rest hc hb]
    exact ((ih (by omega)).mono (by simp only [List.length_cons]; omega)).map _

theorem failsUpTo_read (first : CodePoint) (rest : List CodePoint) (position : Nat) :
    FailsUpTo (position + (first :: rest).length) (read first rest position) := by
  unfold read
  split
  · exact failsUpTo_readNumber (first :: rest) position
  · split
    · unfold readString
      have hcontent := failsUpTo_readContent first rest (Nat.le_succ position)
      refine (hcontent.mono ?_).bind fun content _ => failsUpTo_ok _
      rw [List.length_cons]
      omega
    · split
      · exact failsUpTo_ok _
      · unfold readSymbol
        split
        · exact failsUpTo_ok _
        · exact failsUpTo_failure (Nat.le_add_right _ _)

theorem failsUpTo_scan (position : Nat) (points : List CodePoint) :
    FailsUpTo (position + points.length) (scan position points) := by
  induction position, points using scan.induct with
  | case1 position =>
    rw [scan_nil]
    exact failsUpTo_ok _
  | case2 position c rest hb ih =>
    rw [scan_blank hb]
    exact ih.mono (by rw [List.length_cons]; omega)
  | case3 position c rest hb ih =>
    rw [scan_cons (Bool.eq_false_iff.mpr hb)]
    refine (failsUpTo_read c rest position).bind fun reading hr => ?_
    refine ((ih reading).mono ?_).bind fun tokens _ => failsUpTo_ok _
    have hextra := extra_le hr
    rw [List.length_drop, List.length_cons]
    omega

/-- The tokens of a text stand in it, the last one at its end. -/
theorem position_le_of_tokenize {text : Text} {tokens : List Token} (h : tokenize text = .ok tokens) :
    ∀ t ∈ tokens, t.position ≤ text.length := by
  intro t ht
  obtain ⟨before, rest, hpoints, hposition, _⟩ := (scans_of_scan h).exists_read ht
  rw [hposition, Text.length, hpoints, List.length_append]
  omega

/-- A token that does not mark the end stands before it. -/
theorem position_lt_of_tokenize {text : Text} {tokens : List Token} (h : tokenize text = .ok tokens)
    {t : Token} (ht : t ∈ tokens) (hk : t.kind ≠ .ending) : t.position < text.length := by
  obtain ⟨before, rest, hpoints, hposition, ⟨_, heq⟩ | ⟨c, tail, _, rfl, _⟩⟩ :=
    (scans_of_scan h).exists_read ht
  · exact absurd (heq ▸ rfl) hk
  · rw [hposition, Text.length, hpoints, List.length_append, List.length_cons]
    omega

end Lexer

/-! ## The parser -/

namespace Parser

section Readers
variable {α β : Type} {P : α × List Token → Prop} {Q : β × List Token → Prop} {n depth : Nat}
  {bounds : Bounds} {tokens : List Token}

def StandUpTo (n : Nat) (tokens : List Token) : Prop := ∀ t ∈ tokens, t.position ≤ n

/-- Whether a reader fails up to this position, and leaves tokens that stand up to it. -/
structure Stays (n : Nat) (reading : Except ParseFailure { r // P r }) : Prop where
  fails : FailsUpTo n reading
  leaves : ∀ r, reading = .ok r → StandUpTo n r.1.2

theorem stays_ok {a : α} {rest : List Token} (hr : P (a, rest)) (h : StandUpTo n rest) :
    Stays n (.ok ⟨(a, rest), hr⟩ : Except ParseFailure { r // P r }) := by
  refine ⟨failsUpTo_ok _, ?_⟩
  rintro _ ⟨⟩
  exact h

theorem stays_failure {failure : ParseFailure}
    (h : FailsUpTo n (.error failure : Except ParseFailure { r // P r })) :
    Stays n (.error failure : Except ParseFailure { r // P r }) := by
  refine ⟨h, ?_⟩
  rintro _ ⟨⟩

theorem Stays.bind {reading : Except ParseFailure { r // P r }}
    {next : { r // P r } → Except ParseFailure { r // Q r }} (h : Stays n reading)
    (hn : ∀ a rest hr, StandUpTo n rest → Stays n (next ⟨(a, rest), hr⟩)) :
    Stays n (reading >>= next) := by
  cases reading with
  | error failure =>
    refine stays_failure ?_
    rintro _ ⟨⟩
    exact h.fails failure rfl
  | ok r => exact hn r.1.1 r.1.2 r.2 (h.leaves r rfl)

theorem positionAt_le (h : StandUpTo n tokens) : positionAt tokens ≤ n := by
  cases tokens with
  | nil => exact Nat.zero_le n
  | cons t rest => exact h t List.mem_cons_self

theorem failsUpTo_fail {problem : ParseProblem} (h : StandUpTo n tokens) :
    FailsUpTo n (fail problem tokens : Except ParseFailure α) := failsUpTo_failure (positionAt_le h)

theorem failsUpTo_failUnexpected (h : StandUpTo n tokens) :
    FailsUpTo n (failUnexpected tokens : Except ParseFailure α) := by
  cases tokens with
  | nil => exact failsUpTo_failure (Nat.zero_le n)
  | cons t rest => exact failsUpTo_failure (h t List.mem_cons_self)

theorem stays_fail {problem : ParseProblem} (h : StandUpTo n tokens) :
    Stays n (fail problem tokens : Except ParseFailure { r // P r }) :=
  stays_failure (failsUpTo_fail h)

theorem stays_failUnexpected (h : StandUpTo n tokens) :
    Stays n (failUnexpected tokens : Except ParseFailure { r // P r }) := by
  cases tokens with
  | nil => exact stays_failure (failsUpTo_failUnexpected h)
  | cons t rest => exact stays_failure (failsUpTo_failUnexpected h)

theorem stays_enter {next : Unit → Except ParseFailure { r // P r }} (h : StandUpTo n tokens)
    (hn : Stays n (next ())) : Stays n (enter bounds depth tokens >>= next) := by
  unfold enter
  split
  · exact stays_failure (failsUpTo_fail h)
  · split
    · refine stays_failure ?_
      rintro _ ⟨⟩ _ ⟨⟩
    · exact hn

theorem stays_expect {kind : TokenKind} {what : Text}
    {next : { r : List Token // r.length < tokens.length } → Except ParseFailure { r // P r }}
    (h : StandUpTo n tokens) (hn : ∀ rest hr, StandUpTo n rest → Stays n (next ⟨rest, hr⟩)) :
    Stays n (expect kind what tokens >>= next) := by
  cases tokens with
  | nil => exact stays_failure (failsUpTo_fail h)
  | cons t rest =>
    rw [expect]
    split
    · exact hn rest _ (List.forall_mem_cons.mp h).2
    · exact stays_failure (failsUpTo_fail h)

end Readers

variable {n : Nat} {bounds : Bounds}

mutual

theorem stays_expression (depth : Nat) (tokens : List Token) (h : StandUpTo n tokens) :
    Stays n (expression bounds depth tokens) := by
  rw [expression]
  exact stays_enter h (stays_tier (depth + 1) topTier tokens h)
termination_by 16 * tokens.length + 12
decreasing_by simp [topTier]

theorem stays_tier (depth m : Nat) (tokens : List Token) (h : StandUpTo n tokens) :
    Stays n (tier bounds depth m tokens) := by
  match m with
  | 0 =>
    rw [tier]
    exact stays_unary depth tokens h
  | m + 1 =>
    rw [tier]
    refine (stays_tier depth m tokens h).bind fun left rest hr hrest => ?_
    have : rest.length < tokens.length := hr
    exact (stays_chain depth m left rest hrest).bind fun node last _ hlast => stays_ok _ hlast
termination_by 16 * tokens.length + 2 + m

theorem stays_chain (depth m : Nat) (left : Node) (tokens : List Token) (h : StandUpTo n tokens) :
    Stays n (chain bounds depth m left tokens) := by
  match tokens with
  | [] =>
    rw [chain]
    exact stays_ok _ h
  | t :: rest =>
    rw [chain]
    split
    · exact stays_ok _ h
    · rename_i operator known
      refine (stays_tier depth m rest (List.forall_mem_cons.mp h).2).bind fun right inner hr hinner => ?_
      have : inner.length < rest.length := hr
      exact (stays_chain depth m _ inner hinner).bind fun node last _ hlast => stays_ok _ hlast
termination_by 16 * tokens.length + 3 + m

theorem stays_unary (depth : Nat) (tokens : List Token) (h : StandUpTo n tokens) :
    Stays n (unary bounds depth tokens) := by
  match tokens with
  | [] =>
    rw [unary]
    exact stays_failUnexpected h
  | t :: rest =>
    rw [unary]
    split
    · have hrest := (List.forall_mem_cons.mp h).2
      refine stays_enter hrest ?_
      exact (stays_unary (depth + 1) rest hrest).bind fun operand last _ hlast => stays_ok _ hlast
    · exact stays_primary depth (t :: rest) h
termination_by 16 * tokens.length + 1

theorem stays_primary (depth : Nat) (tokens : List Token) (h : StandUpTo n tokens) :
    Stays n (primary bounds depth tokens) := by
  match tokens with
  | [] =>
    rw [primary]
    exact stays_failUnexpected h
  | t :: rest =>
    have hrest := (List.forall_mem_cons.mp h).2
    unfold primary
    dsimp only
    split_ifs
    · exact stays_ok _ hrest
    · exact stays_fail h
    · cases rest with
      | nil => exact stays_ok _ hrest
      | cons u inner =>
        dsimp only
        split
        · have hinner := (List.forall_mem_cons.mp hrest).2
          refine (stays_list depth .closeParen _ true inner hinner).bind fun nodes last _ hlast => ?_
          exact stays_ok _ hlast
        · exact stays_ok _ hrest
    · refine (stays_expression depth rest hrest).bind fun node inner _ hinner => ?_
      exact stays_expect hinner fun last _ hlast => stays_ok _ hlast
    · refine (stays_list depth .closeBracket _ false rest hrest).bind fun nodes last _ hlast => ?_
      exact stays_ok _ hlast
    · exact stays_fail h
    · exact stays_failUnexpected h
termination_by 16 * tokens.length

theorem stays_list (depth : Nat) (closing : TokenKind) (what : Text) (ofCall : Bool)
    (tokens : List Token) (h : StandUpTo n tokens) :
    Stays n (list bounds depth closing what ofCall tokens) := by
  match tokens with
  | [] =>
    rw [list]
    exact (stays_item depth ofCall [] h).bind fun node last _ hlast => stays_ok _ hlast
  | t :: rest =>
    rw [list]
    split
    · exact stays_ok _ (List.forall_mem_cons.mp h).2
    · refine (stays_item depth ofCall (t :: rest) h).bind fun first inner hr hinner => ?_
      have : inner.length < rest.length + 1 := hr
      refine (stays_items depth closing what ofCall inner hinner).bind fun others last _ hlast => ?_
      exact stays_ok _ hlast
termination_by 16 * tokens.length + 14

theorem stays_items (depth : Nat) (closing : TokenKind) (what : Text) (ofCall : Bool)
    (tokens : List Token) (h : StandUpTo n tokens) :
    Stays n (items bounds depth closing what ofCall tokens) := by
  match tokens with
  | [] =>
    rw [items]
    exact stays_fail h
  | t :: rest =>
    rw [items]
    split
    · have hrest := (List.forall_mem_cons.mp h).2
      refine (stays_item depth ofCall rest hrest).bind fun first inner hr hinner => ?_
      have : inner.length < rest.length := hr
      refine (stays_items depth closing what ofCall inner hinner).bind fun others last _ hlast => ?_
      exact stays_ok _ hlast
    · exact stays_expect h fun last _ hlast => stays_ok _ hlast
termination_by 16 * tokens.length

theorem stays_item (depth : Nat) (ofCall : Bool) (tokens : List Token) (h : StandUpTo n tokens) :
    Stays n (item bounds depth ofCall tokens) := by
  match tokens with
  | [] =>
    rw [item]
    exact stays_expression depth [] h
  | t :: rest =>
    have hrest := (List.forall_mem_cons.mp h).2
    rw [item.eq_def]
    dsimp only
    split
    · cases rest with
      | nil => exact stays_fail hrest
      | cons u inner =>
        dsimp only
        split
        · exact stays_ok _ (List.forall_mem_cons.mp hrest).2
        · exact stays_fail hrest
    · cases rest with
      | nil => exact stays_expression depth [t] h
      | cons u inner =>
        dsimp only
        split
        · have hinner := (List.forall_mem_cons.mp hrest).2
          refine stays_enter hinner ?_
          refine (stays_expression (depth + 1) inner hinner).bind fun body last _ hlast => ?_
          exact stays_ok _ hlast
        · exact stays_expression depth (t :: u :: inner) h
termination_by 16 * tokens.length + 13

end

theorem failsUpTo_parse {tokens : List Token} (h : StandUpTo n tokens) :
    FailsUpTo n (parse bounds tokens) := by
  have hs : Stays n (expression bounds 0 tokens) := stays_expression 0 tokens h
  refine hs.fails.bind fun r hr => ?_
  dsimp only
  split
  · exact failsUpTo_ok _
  · exact failsUpTo_failUnexpected (hs.leaves r hr)

end Parser

/-! ## Whole texts -/

namespace Expression

/-- An error of a text that cannot be parsed carries the text, and a position in it or none. -/
theorem exists_failure_of_parseText {capacity : Nat} {limits : Limits} {text : Text}
    {x : ExpressionError} (h : parseText capacity limits text = .error (.engine (.expression x))) :
    ∃ failure : ParseFailure, x = .ofParse failure (some text) ∧
      ∀ p, failure.position = some p → p ≤ text.length := by
  cases hasNoTree_of_parseText h with
  | tooLong => exact ⟨_, rfl, nofun⟩
  | @lexer failure ht =>
    have hscan := Lexer.failsUpTo_scan 0 text.points failure ht
    rw [Nat.zero_add] at hscan
    exact ⟨failure, rfl, hscan⟩
  | empty ht =>
    refine ⟨_, rfl, ?_⟩
    rintro _ ⟨⟩
    exact Parser.positionAt_le (Lexer.position_le_of_tokenize ht)
  | @parser _ _ failure ht hp =>
    have hstand : Parser.StandUpTo text.length _ := Lexer.position_le_of_tokenize ht
    exact ⟨failure, rfl, Parser.failsUpTo_parse hstand failure hp⟩

end Expression
end Vetting
