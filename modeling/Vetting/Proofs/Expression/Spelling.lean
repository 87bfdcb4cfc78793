import Vetting.Expression.Lexer
import Vetting.Proofs.Expression.Numeral
import Vetting.Proofs.Grammar.Placement
import Vetting.Text.Quoted

/-!
# Texts that spell tokens

Text that spells tokens in front of a given rest spells them wherever it stands, so spellings can
be joined. A JSON string spells the string token of its text; the escapes that JSON writes are read
back one by one.
-/

namespace Vetting.Lexer

open CodePoint Text

/-- Whether these points, in front of the rest, are read as these tokens wherever they stand. -/
def Spells (points : List CodePoint) (tokens : List Token) (rest : List CodePoint) : Prop :=
  ∀ position more, scan (position + points.length) rest = .ok more →
    ∃ placed, scan position (points ++ rest) = .ok (placed ++ more) ∧
      placed.map Token.unplaced = tokens

theorem scan_nil (position : Nat) : scan position [] = .ok [⟨.ending, .null, position, ""⟩] := by
  rw [scan]

theorem scan_blank {c : CodePoint} (h : isBlank c = true) (position : Nat) (rest : List CodePoint) :
    scan position (c :: rest) = scan (position + 1) rest := by
  rw [scan, if_pos h]

theorem scan_cons {c : CodePoint} (h : isBlank c = false) (position : Nat) (rest : List CodePoint) :
    scan position (c :: rest) = (do
      let reading ← read c rest position
      let tokens ← scan (position + reading.extra + 1) (rest.drop reading.extra)
      return ⟨reading.kind, reading.value, position, ⟨c :: rest.take reading.extra⟩⟩ :: tokens) := by
  rw [scan, if_neg (by rw [h]; exact Bool.false_ne_true)]

theorem scan_token {c : CodePoint} {tail rest : List CodePoint} {kind : TokenKind} {value : Value}
    {position : Nat} {more : List Token} (hb : isBlank c = false)
    (hr : read c (tail ++ rest) position = .ok ⟨kind, value, tail.length⟩)
    (hm : scan (position + tail.length + 1) rest = .ok more) :
    scan position (c :: (tail ++ rest)) = .ok (⟨kind, value, position, ⟨c :: tail⟩⟩ :: more) := by
  rw [scan_cons hb, hr]
  simp only [bind, Except.bind, List.drop_left, List.take_left, hm]
  rfl

/-! ## Joining spellings -/

namespace Spells
variable {a b points rest : List CodePoint} {s t tokens : List Token}

theorem nil (rest : List CodePoint) : Spells [] [] rest :=
  fun _ _ h => ⟨[], h, rfl⟩

theorem append (ha : Spells a s (b ++ rest)) (hb : Spells b t rest) : Spells (a ++ b) (s ++ t) rest := by
  intro position more hm
  rw [List.length_append, ← Nat.add_assoc] at hm
  obtain ⟨second, hsecond, ht⟩ := hb (position + a.length) more hm
  obtain ⟨first, hfirst, hs⟩ := ha position _ hsecond
  refine ⟨first ++ second, ?_, by rw [List.map_append, hs, ht]⟩
  rw [List.append_assoc, List.append_assoc, hfirst]

theorem blank {c : CodePoint} (h : isBlank c = true) (rest : List CodePoint) : Spells [c] [] rest := by
  intro position more hm
  exact ⟨[], by rwa [List.singleton_append, scan_blank h], rfl⟩

theorem token {c : CodePoint} {tail : List CodePoint} {kind : TokenKind} {value : Value}
    (hb : isBlank c = false)
    (hr : ∀ position, read c (tail ++ rest) position = .ok ⟨kind, value, tail.length⟩) :
    Spells (c :: tail) [⟨kind, value, 0, ⟨c :: tail⟩⟩] rest := by
  intro position more hm
  rw [List.length_cons, ← Nat.add_assoc] at hm
  exact ⟨[⟨kind, value, position, ⟨c :: tail⟩⟩], scan_token hb (hr position) hm, rfl⟩

/-- A text that is a spelling has these tokens and the end. -/
theorem tokenize {text : Text} (h : Spells text.points tokens []) :
    ∃ placed, Lexer.tokenize text = .ok (placed ++ [⟨.ending, .null, text.length, ""⟩]) ∧
      placed.map Token.unplaced = tokens := by
  have key := h 0 _ (scan_nil _)
  rwa [List.append_nil, Nat.zero_add] at key

end Spells

/-! ## What may follow a literal -/

/-- Whether a text ends or goes on with a blank, a comma or a closing bracket. -/
def Delimited (rest : List CodePoint) : Prop :=
  ∀ c ∈ rest.head?, isBlank c = true ∨ c = 44 ∨ c = 93

theorem delimited_nil : Delimited [] := fun _ h => nomatch h

theorem delimited_cons {c : CodePoint} (h : isBlank c = true ∨ c = 44 ∨ c = 93)
    (rest : List CodePoint) : Delimited (c :: rest) := by
  intro d hd
  obtain rfl : c = d := by simpa using hd
  exact h

def delimiters : List CodePoint :=
  44 :: 93 :: blankRanges.flatMap fun r => List.range' r.1 (r.2 + 1 - r.1)

theorem mem_delimiters {c : CodePoint} (h : isBlank c = true ∨ c = 44 ∨ c = 93) : c ∈ delimiters := by
  rcases h with h | rfl | rfl
  · obtain ⟨r, hr, hlow, hhigh⟩ := exists_range_of_inRanges h
    refine List.mem_cons_of_mem _ (List.mem_cons_of_mem _ (List.mem_flatMap.mpr ⟨r, hr, ?_⟩))
    refine List.mem_range'_1.mpr ⟨hlow, ?_⟩
    rw [Nat.add_sub_cancel' (Nat.le_succ_of_le (hlow.trans hhigh))]
    exact Nat.lt_succ_of_le hhigh
  · exact List.mem_cons_self
  · exact List.mem_cons_of_mem _ List.mem_cons_self

theorem Delimited.head?_eq_false {rest : List CodePoint} (h : Delimited rest) {p : CodePoint → Bool}
    (hp : ∀ c ∈ delimiters, p c = false) : (rest.head?.map p).getD false = false := by
  cases rest with
  | nil => rfl
  | cons c rest => exact hp c (mem_delimiters (h c rfl))

theorem Delimited.takeWhile_eq_nil {rest : List CodePoint} (h : Delimited rest) {p : CodePoint → Bool}
    (hp : ∀ c ∈ delimiters, p c = false) : rest.takeWhile p = [] := by
  cases rest with
  | nil => rfl
  | cons c rest => rw [List.takeWhile_cons, hp c (mem_delimiters (h c rfl)), if_neg Bool.false_ne_true]

theorem Delimited.startsWithFraction_eq_false {rest : List CodePoint} (h : Delimited rest) :
    startsWithFraction rest = false := by
  have hpoint : (rest.head?.map fun c => decide (c = 46)).getD false = false :=
    h.head?_eq_false (by decide +kernel)
  unfold startsWithFraction
  split
  · cases hpoint
  · rfl

theorem Delimited.stops {rest : List CodePoint} (h : Delimited rest) (parts : NumeralParts) :
    parts.Stops rest :=
  ⟨h.head?_eq_false (by decide +kernel), h.head?_eq_false (by decide +kernel),
    fun _ _ => h.startsWithFraction_eq_false⟩

/-! ## Numbers, words and symbols -/

theorem isBlank_of_isAsciiDigit {c : CodePoint} (h : isAsciiDigit c = true) : isBlank c = false := by
  rw [isAsciiDigit, Bool.and_eq_true, decide_eq_true_eq, decide_eq_true_eq] at h
  obtain ⟨n, rfl⟩ := Nat.exists_eq_add_of_le h.1
  have hn : n < 10 := Nat.lt_of_add_lt_add_left (Nat.lt_succ_of_le h.2)
  exact (show ∀ n < 10, isBlank (48 + n) = false by decide) n hn

theorem Spells.number {points rest : List CodePoint} {parts : NumeralParts} {n : Number}
    (hd : startsWithDigit points = true) (hw : parts.Writes points) (hn : parts.number? = some n)
    (hs : parts.Stops rest) : Spells points [⟨.number, .number n, 0, ⟨points⟩⟩] rest := by
  cases points with
  | nil => cases hd
  | cons c tail =>
    rw [startsWithDigit_cons] at hd
    refine .token (isBlank_of_isAsciiDigit hd) fun position => ?_
    have hnumber := hw.readNumber_append hs hn position
    rw [read, hd, Bool.true_or, if_pos rfl, ← List.cons_append, hnumber]
    rfl

/-- A word is read up to the first point that does not continue it. -/
theorem readWord_append {first : CodePoint} {tail rest : List CodePoint}
    (ht : ∀ c ∈ tail, continuesWord c = true) (hr : rest.takeWhile continuesWord = []) :
    readWord first (tail ++ rest) = readWord first tail := by
  have htail : (tail ++ rest).takeWhile continuesWord = tail.takeWhile continuesWord := by
    rw [List.takeWhile_append_of_pos ht, hr, List.append_nil, List.takeWhile_eq_self_iff.mpr ht]
  rw [readWord, readWord, htail]

theorem Delimited.spells_word {first : CodePoint} {tail rest : List CodePoint} {kind : TokenKind}
    {value : Value} (h : Delimited rest) (hb : isBlank first = false)
    (hf : ∀ rest position, read first rest position = .ok (readWord first rest))
    (ht : ∀ c ∈ tail, continuesWord c = true) (hw : readWord first tail = ⟨kind, value, tail.length⟩) :
    Spells (first :: tail) [⟨kind, value, 0, ⟨first :: tail⟩⟩] rest := by
  refine .token hb fun position => ?_
  rw [hf, readWord_append ht (h.takeWhile_eq_nil (by decide +kernel)), hw]

theorem Delimited.spells_null {rest : List CodePoint} (h : Delimited rest) :
    Spells ("null" : Text).points [⟨.null, .null, 0, "null"⟩] rest :=
  h.spells_word rfl (fun _ _ => rfl) (by decide) rfl

theorem Delimited.spells_boolean {rest : List CodePoint} (h : Delimited rest) (b : Bool) :
    Spells (if b then ("true" : Text) else "false").points
      [⟨if b then .true else .false, .boolean b, 0, if b then "true" else "false"⟩] rest := by
  cases b with
  | true => exact h.spells_word rfl (fun _ _ => rfl) (by decide) rfl
  | false => exact h.spells_word rfl (fun _ _ => rfl) (by decide) rfl

theorem spells_minus (rest : List CodePoint) :
    Spells [45] [⟨.minus, .text "-", 0, "-"⟩] rest := .token rfl fun _ => rfl

theorem spells_comma (rest : List CodePoint) :
    Spells [44] [⟨.comma, .text ",", 0, ","⟩] rest := .token rfl fun _ => rfl

theorem spells_openBracket (rest : List CodePoint) :
    Spells [91] [⟨.openBracket, .text "[", 0, "["⟩] rest := .token rfl fun _ => rfl

theorem spells_closeBracket (rest : List CodePoint) :
    Spells [93] [⟨.closeBracket, .text "]", 0, "]"⟩] rest := .token rfl fun _ => rfl

/-! ## Strings -/

def controlDigits (c : CodePoint) : List CodePoint :=
  [48 + c / 16, if c % 16 < 10 then 48 + c % 16 else 87 + c % 16]

theorem points_control : ∀ c < 32, (hex 4 c).points = 48 :: 48 :: controlDigits c := by
  decide

theorem hexValue_control : ∀ c < 32, (48 :: 48 :: controlDigits c).all isHexDigit = true ∧
    (48 :: 48 :: controlDigits c).foldl (fun n d => n * 16 + hexValue d) 0 = c := by
  decide

section Content
variable {quote : CodePoint} (start position : Nat) (rest : List CodePoint)

/-- A content that begins with a code point, which was written with `n` points. -/
def prepend (c : CodePoint) (n : Nat) (content : List CodePoint × Nat) : List CodePoint × Nat :=
  (c :: content.1, content.2 + n)

theorem readContent_plain {c : CodePoint} (hq : c ≠ quote) (hb : c ≠ 92) :
    readContent quote start position (c :: rest) =
      prepend c 1 <$> readContent quote start (position + 1) rest := by
  rw [readContent.eq_def]
  simp [hq, hb]
  rfl

theorem readContent_escape {e : CodePoint} (hq : 92 ≠ quote) (he : e ≠ 117) :
    readContent quote start position (92 :: e :: rest) =
      prepend (escaped e) 2 <$> readContent quote start (position + 2) rest := by
  rw [readContent.eq_def]
  simp [hq, he]
  rfl

theorem readContent_unicode {a b c d : CodePoint} (hq : 92 ≠ quote)
    (h : [a, b, c, d].all isHexDigit = true) :
    readContent quote start position (92 :: 117 :: a :: b :: c :: d :: rest) =
      prepend ([a, b, c, d].foldl (fun n d => n * 16 + hexValue d) 0) 6 <$>
        readContent quote start (position + 6) rest := by
  rw [readContent.eq_def]
  simp [hq, h]
  rfl

/-- What JSON writes for a code point is read back as the code point. -/
theorem readContent_jsonPoint (c : CodePoint) :
    readContent 34 start position ((jsonPoint c).points ++ rest) =
      prepend c (jsonPoint c).length <$>
        readContent 34 start (position + (jsonPoint c).length) rest := by
  unfold jsonPoint
  split_ifs with hquote hbackslash hn hr ht hf hb hcontrol
  · subst hquote
    exact readContent_escape (e := 34) start position rest (by decide) (by decide)
  · subst hbackslash
    exact readContent_escape (e := 92) start position rest (by decide) (by decide)
  · subst hn
    exact readContent_escape (e := 110) start position rest (by decide) (by decide)
  · subst hr
    exact readContent_escape (e := 114) start position rest (by decide) (by decide)
  · subst ht
    exact readContent_escape (e := 116) start position rest (by decide) (by decide)
  · subst hf
    exact readContent_escape (e := 102) start position rest (by decide) (by decide)
  · subst hb
    exact readContent_escape (e := 98) start position rest (by decide) (by decide)
  · obtain ⟨hhex, hvalue⟩ := hexValue_control c hcontrol
    have hpoints : ("\\u" ++ hex 4 c).points = 92 :: 117 :: 48 :: 48 :: controlDigits c := by
      rw [points_append, points_control c hcontrol]
      rfl
    have key := readContent_unicode start position rest (show 92 ≠ 34 by decide) hhex
    rw [show [48, 48, 48 + c / 16, _].foldl (fun n d => n * 16 + hexValue d) 0 = c from hvalue] at key
    rw [length, hpoints]
    exact key
  · exact readContent_plain start position rest hquote hbackslash

theorem readContent_jsonPoints (points : List CodePoint) :
    readContent 34 start position ((concat (points.map jsonPoint)).points ++ 34 :: rest) =
      .ok (points, (concat (points.map jsonPoint)).length + 1) := by
  induction points generalizing position with
  | nil => rw [List.map_nil, concat, empty, List.nil_append, readContent.eq_def]; rfl
  | cons c points ih =>
    rw [List.map_cons, concat, points_append, List.append_assoc, readContent_jsonPoint, ih]
    have hlength : (concat (points.map jsonPoint)).length + 1 + (jsonPoint c).length =
        (jsonPoint c ++ concat (points.map jsonPoint)).length + 1 := by
      rw [length_append]
      omega
    exact congrArg (fun n => Except.ok (c :: points, n)) hlength

end Content

theorem spells_jsonString (t : Text) (rest : List CodePoint) :
    Spells t.jsonString.points [⟨.string, .text t, 0, t.jsonString⟩] rest := by
  have hpoints : t.jsonString.points = 34 :: ((concat (t.points.map jsonPoint)).points ++ [34]) := rfl
  rw [hpoints]
  refine .token rfl fun position => ?_
  have hread : read 34 ((concat (t.points.map jsonPoint)).points ++ [34] ++ rest) position =
      readString 34 ((concat (t.points.map jsonPoint)).points ++ [34] ++ rest) position := rfl
  rw [hread, readString, List.append_assoc, List.singleton_append, readContent_jsonPoints,
    List.length_append]
  rfl

end Vetting.Lexer
