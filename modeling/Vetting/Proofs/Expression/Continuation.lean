import Vetting.Proofs.Expression.Spelling
import Vetting.Proofs.Result

/-!
# Tokens and what follows them

Which token stands at the front of a text depends on its own code points and on little of what
follows: the next code point, and whether a fraction begins there. What follows may be exchanged
for a text that agrees in this, or that begins with a blank.
-/

namespace Vetting.Lexer

open CodePoint Text

/-- A text that may follow a token in the place of another one. -/
def Resembles (rest' rest : List CodePoint) : Prop :=
  Delimited rest' ∨
    rest'.head? = rest.head? ∧ startsWithFraction rest' = startsWithFraction rest

theorem Resembles.head?_eq_false {rest rest' : List CodePoint} (h : Resembles rest' rest)
    {p : CodePoint → Bool} (hp : ∀ c ∈ delimiters, p c = false)
    (hr : (rest.head?.map p).getD false = false) : (rest'.head?.map p).getD false = false := by
  rcases h with h | ⟨h, _⟩
  · exact h.head?_eq_false hp
  · rwa [h]

/-! ## Numbers -/

theorem Resembles.stops {rest rest' : List CodePoint} {parts : NumeralParts}
    (h : Resembles rest' rest) (hs : parts.Stops rest) : parts.Stops rest' := by
  rcases h with h | ⟨hhead, hfraction⟩
  · exact h.stops parts
  · refine ⟨?_, ?_, fun hf he => hfraction ▸ hs.fraction hf he⟩
    · rw [startsWithDigit, hhead]
      exact hs.digit
    · rw [startsWithLetter, hhead]
      exact hs.letter

/-- A numeral that begins with a point goes on with a digit. -/
theorem NumeralParts.Writes.startsWithDigit_of_point {parts : NumeralParts} {points : List CodePoint}
    (h : parts.Writes (46 :: points)) : startsWithDigit points = true := by
  generalize hp : 46 :: points = written at h
  obtain ⟨hw, hf, he⟩ := h
  rename_i whole a b fraction exponent
  cases whole with
  | cons c whole =>
    obtain rfl : 46 = c := (List.cons.inj hp).1
    exact absurd (hw 46 List.mem_cons_self) (by decide)
  | nil =>
    cases hf with
    | point hd =>
      obtain rfl := (List.cons.inj hp).2
      exact hd.startsWithDigit_append b
    | absent =>
      cases he with
      | absent => cases hp
      | unsigned hm _ => exact absurd ((List.cons.inj hp).1 ▸ hm) (by decide)
      | positive hm _ => exact absurd ((List.cons.inj hp).1 ▸ hm) (by decide)
      | negative hm _ => exact absurd ((List.cons.inj hp).1 ▸ hm) (by decide)

theorem NumeralParts.Writes.ne_nil {parts : NumeralParts} {rest : List CodePoint} {c : CodePoint}
    (h : parts.Writes []) (hs : parts.Stops (c :: rest)) :
    ¬ (isAsciiDigit c || (c = 46 && startsWithDigit rest)) = true := by
  generalize hp : [] = written at h
  obtain ⟨hw, hf, he⟩ := h
  rename_i whole a b fraction exponent
  obtain ⟨rfl, hab⟩ := List.append_eq_nil_iff.mp hp.symm
  obtain ⟨rfl, rfl⟩ := List.append_eq_nil_iff.mp hab
  cases hf
  cases he
  have hdigit : isAsciiDigit c = false := hs.digit
  have hfraction := hs.fraction rfl rfl
  rw [hdigit, Bool.false_or, Bool.and_eq_true, decide_eq_true_eq]
  rintro ⟨rfl, hr⟩
  rw [startsWithFraction, hr] at hfraction
  cases hfraction

/-- The numeral at the front of a text stays the longest one there. -/
theorem Resembles.number {c : CodePoint} {rest rest' : List CodePoint} {position : Nat}
    {r : Reading} (hc : (isAsciiDigit c || (c = 46 && startsWithDigit rest)) = true)
    (hr : readNumber (c :: rest) position = .ok r) (h : Resembles rest' (rest.drop r.extra))
    (position' : Nat) :
    r.extra ≤ rest.length ∧
      (isAsciiDigit c || (c = 46 && startsWithDigit (rest.take r.extra ++ rest'))) = true ∧
      readNumber (c :: (rest.take r.extra ++ rest')) position' = .ok r := by
  obtain ⟨parts, written, tail, n, hw, hp, hs, hn, rfl⟩ := exists_writes_of_readNumber hr
  cases written with
  | nil => exact absurd hc (hw.ne_nil (hp ▸ hs))
  | cons d w =>
    obtain ⟨hd, ht⟩ := List.cons.inj hp
    have hrest : rest = w ++ tail := ht
    subst hd hrest
    dsimp only [List.length_cons] at h ⊢
    rw [Nat.add_sub_cancel] at h ⊢
    rw [List.drop_left] at h
    rw [List.take_left]
    refine ⟨by rw [List.length_append]; omega, ?_, hw.readNumber_append (h.stops hs) hn position'⟩
    rw [Bool.or_eq_true, Bool.and_eq_true, decide_eq_true_eq] at hc ⊢
    refine hc.imp_right ?_
    rintro ⟨rfl, _⟩
    obtain ⟨e, tail', rfl⟩ : ∃ e tail', w = e :: tail' := by
      cases w with
      | nil => exact absurd hw.startsWithDigit_of_point (by decide)
      | cons e tail' => exact ⟨e, tail', rfl⟩
    exact ⟨rfl, hw.startsWithDigit_of_point⟩

/-! ## Strings -/

theorem prepend_map_eq_ok {c : CodePoint} {k n : Nat} {content : List CodePoint}
    {r : Except ParseFailure (List CodePoint × Nat)} (h : prepend c k <$> r = .ok (content, n)) :
    ∃ content' n', r = .ok (content', n') ∧ content = c :: content' ∧ n = n' + k := by
  cases r with
  | error e => cases h
  | ok r =>
    cases h
    exact ⟨r.1, r.2, rfl, rfl, rfl⟩

/-- Whether a content at the front of a text is read from its own points alone. -/
def IsSelfContained (quote : CodePoint) (points : List CodePoint) : Prop :=
  ∀ start position content n, readContent quote start position points = .ok (content, n) →
    n ≤ points.length ∧ ∀ start position tail,
      readContent quote start position (points.take n ++ tail) = .ok (content, n)

theorem IsSelfContained.append {quote c : CodePoint} {rest : List CodePoint} (front : List CodePoint)
    (h : IsSelfContained quote rest)
    (hread : ∀ start position rest, readContent quote start position (front ++ rest) =
      prepend c front.length <$> readContent quote start (position + front.length) rest) :
    IsSelfContained quote (front ++ rest) := by
  intro start position content n hr
  rw [hread] at hr
  obtain ⟨content, n, hrest, rfl, rfl⟩ := prepend_map_eq_ok hr
  obtain ⟨hle, htake⟩ := h _ _ _ _ hrest
  refine ⟨by rw [List.length_append]; omega, fun start position tail => ?_⟩
  rw [Nat.add_comm n, List.take_length_add_append, List.append_assoc, hread, htake, Nat.add_comm]
  rfl

/-- The content of a string ends at its closing quote, whatever follows. -/
theorem isSelfContained (quote : CodePoint) (position : Nat) (points : List CodePoint) :
    IsSelfContained quote points := by
  induction position, points using readContent.induct quote with
  | case1 position => exact fun _ _ _ _ h => nomatch h
  | case2 position rest =>
    intro start position content n h
    rw [readContent.eq_def] at h
    simp only [↓reduceIte] at h
    cases h
    refine ⟨Nat.succ_le_succ (Nat.zero_le _), fun start position tail => ?_⟩
    rw [List.take_succ_cons, List.take_zero, List.singleton_append, readContent.eq_def]
    simp only [↓reduceIte]
  | case3 position hq =>
    intro start position content n h
    rw [readContent.eq_def] at h
    simp only [hq, ↓reduceIte] at h
    cases h
  | case4 position a b c d rest hx hq ih =>
    exact ih.append [92, 117, a, b, c, d] fun start position rest =>
      readContent_unicode start position rest hq hx
  | case5 position a b c d rest hx hq =>
    intro start position content n h
    rw [readContent.eq_def] at h
    simp only [hq, hx, ↓reduceIte] at h
    cases h
  | case6 position tail hx hq =>
    intro start position content n h
    rw [readContent.eq_def] at h
    simp only [hq, ↓reduceIte] at h
    cases h
  | case7 position e rest hx he hq ih =>
    exact ih.append [92, e] fun start position rest => readContent_escape start position rest hq he
  | case8 position c rest hc hb ih =>
    exact ih.append [c] fun start position rest => readContent_plain start position rest hc hb

theorem readString_take {quote : CodePoint} {rest : List CodePoint} {position : Nat} {r : Reading}
    (hr : readString quote rest position = .ok r) (position' : Nat) (rest' : List CodePoint) :
    r.extra ≤ rest.length ∧ readString quote (rest.take r.extra ++ rest') position' = .ok r := by
  cases hc : readContent quote position (position + 1) rest with
  | error e =>
    rw [readString, hc] at hr
    cases hr
  | ok result =>
    obtain ⟨content, n⟩ := result
    rw [readString, hc] at hr
    cases hr
    obtain ⟨hle, htake⟩ := isSelfContained quote position rest _ _ content n hc
    exact ⟨hle, by rw [readString, htake]; rfl⟩

/-! ## Symbols -/

/-- A symbol that begins with another one goes on with an equals sign, and the shorter one with that
sign is a symbol that is tried before it. -/
theorem symbols_prefix :
    ∀ i (hi : i < Token.symbols.length), ∀ j (hj : j < i),
      Token.symbols[i].1.points.isPrefixOf Token.symbols[j].1.points = true →
        (Token.symbols[i].1.points ++ [61]).isPrefixOf Token.symbols[j].1.points = true ∧
          ((Token.symbols.take i).any fun s => s.1.points == Token.symbols[i].1.points ++ [61]) = true := by
  decide +kernel

theorem Resembles.equalsSign {rest rest' : List CodePoint} (h : Resembles rest' rest)
    (hp : [61] <+: rest') : [61] <+: rest := by
  obtain ⟨tail', rfl⟩ := hp
  rcases h with h | ⟨h, _⟩
  · rcases h 61 rfl with h | h | h <;> exact absurd h (by decide)
  · cases rest with
    | nil => cases h
    | cons c tail =>
      obtain rfl : 61 = c := Option.some.inj h
      exact ⟨tail, rfl⟩

theorem Resembles.not_prefix {rest rest' : List CodePoint} (h : Resembles rest' rest) {i : Nat}
    (hi : i < Token.symbols.length)
    (hbefore : ∀ j (hj : j < i), ¬ Token.symbols[j].1.points <+: Token.symbols[i].1.points ++ rest)
    (j : Nat) (hj : j < i) : ¬ Token.symbols[j].1.points <+: Token.symbols[i].1.points ++ rest' := by
  intro hp
  have hfront : Token.symbols[i].1.points <+: Token.symbols[i].1.points ++ rest' :=
    List.prefix_append ..
  rcases List.prefix_or_prefix_of_prefix hp hfront with hle | hle
  · exact hbefore j hj (hle.trans (List.prefix_append ..))
  -- a longer symbol can only be the one with an equals sign, which the old text did not have
  · obtain ⟨hsign, hearlier⟩ := symbols_prefix i hi j hj (List.isPrefixOf_iff_prefix.mpr hle)
    have hrest : [61] <+: rest := by
      refine h.equalsSign ((List.prefix_append_right_inj Token.symbols[i].1.points).mp ?_)
      exact (List.isPrefixOf_iff_prefix.mp hsign).trans hp
    obtain ⟨s, hs, heq⟩ := List.any_eq_true.mp hearlier
    obtain ⟨k, hk, rfl⟩ := List.mem_take_iff_getElem.mp hs
    have hki : k < i := (Nat.lt_min.mp hk).1
    refine hbefore k hki ?_
    rw [beq_iff_eq.mp heq]
    exact (List.prefix_append_right_inj _).mpr hrest

theorem exists_points_of_symbol {first : CodePoint} {rest : List CodePoint} {s : Text × TokenKind}
    (h : s ∈ Token.symbols) (hp : s.1.points.isPrefixOf (first :: rest) = true) :
    ∃ w, s.1.points = first :: w := by
  have hne : s.1.points ≠ [] := (show ∀ s ∈ Token.symbols, s.1.points ≠ [] by decide) s h
  cases hs : s.1.points with
  | nil => exact absurd hs hne
  | cons c w =>
    rw [hs, List.isPrefixOf_iff_prefix] at hp
    exact ⟨w, by rw [(List.cons_prefix_cons.mp hp).1]⟩

/-- The symbol at the front of a text stays the longest one there. -/
theorem Resembles.symbol {first : CodePoint} {rest rest' : List CodePoint} {position : Nat}
    {r : Reading} (hs : readSymbol first rest position = .ok r)
    (h : Resembles rest' (rest.drop r.extra)) (position' : Nat) :
    r.extra ≤ rest.length ∧
      readSymbol first (rest.take r.extra ++ rest') position' = .ok r := by
  unfold readSymbol at hs
  split at hs
  · rename_i symbol kind hfind
    cases hs
    obtain ⟨hfront, i, hi, hget, hbefore⟩ := List.find?_eq_some_iff_getElem.mp hfind
    obtain ⟨w, hw⟩ := exists_points_of_symbol (List.mem_of_find?_eq_some hfind) hfront
    obtain ⟨tail, rfl⟩ : w <+: rest := by
      rw [List.isPrefixOf_iff_prefix, hw] at hfront
      exact (List.cons_prefix_cons.mp hfront).2
    have hextra : symbol.length - 1 = w.length := by
      rw [length, hw]
      rfl
    dsimp only at h ⊢
    rw [hextra] at h ⊢
    rw [List.drop_left] at h
    refine ⟨by rw [List.length_append]; omega, ?_⟩
    rw [List.take_left, readSymbol]
    have hnew : Token.symbols.find? (fun s => s.1.points.isPrefixOf (first :: (w ++ rest'))) =
        some (symbol, kind) := by
      refine List.find?_eq_some_iff_getElem.mpr ⟨?_, i, hi, hget, fun j hj => ?_⟩
      · rw [List.isPrefixOf_iff_prefix, hw]
        exact List.prefix_append (first :: w) rest'
      · have hpoints : Token.symbols[i].1.points = first :: w := by rw [hget, hw]
        rw [Bool.not_eq_true', Bool.eq_false_iff, ne_eq, List.isPrefixOf_iff_prefix, ← List.cons_append,
          ← hpoints]
        refine h.not_prefix hi (fun j hj hp => ?_) j hj
        have hold := hbefore j hj
        rw [Bool.not_eq_true', Bool.eq_false_iff] at hold
        refine hold (List.isPrefixOf_iff_prefix.mpr ?_)
        rwa [hpoints] at hp
    rw [hnew]
    dsimp only
    rw [hextra]
  · cases hs

/-- The only symbol that begins with a point is the spread. -/
theorem exists_points_of_readSymbol {rest : List CodePoint} {position : Nat} {r : Reading}
    (hr : readSymbol 46 rest position = .ok r) : ∃ tail, rest = 46 :: 46 :: tail ∧ r.extra = 2 := by
  unfold readSymbol at hr
  split at hr
  · rename_i symbol kind hfind
    cases hr
    have hfront := List.find?_some hfind
    have hmem := List.mem_of_find?_eq_some hfind
    obtain ⟨w, hw⟩ := exists_points_of_symbol hmem hfront
    have hpoints : symbol.points = [46, 46, 46] :=
      (show ∀ s ∈ Token.symbols, s.1.points.head? = some 46 → s.1.points = [46, 46, 46] by decide)
        _ hmem (by rw [hw]; rfl)
    rw [hpoints, List.isPrefixOf_iff_prefix, List.cons_prefix_cons] at hfront
    obtain ⟨tail, rfl⟩ := hfront.2
    exact ⟨tail, rfl, by rw [length, hpoints]; rfl⟩
  · cases hr

/-! ## Words -/

theorem readWord_extra (first : CodePoint) (rest : List CodePoint) :
    (readWord first rest).extra = (rest.takeWhile continuesWord).length := by
  unfold readWord
  dsimp only
  split <;> rfl

theorem take_takeWhile (rest : List CodePoint) :
    rest.take (rest.takeWhile continuesWord).length = rest.takeWhile continuesWord :=
  (List.prefix_iff_eq_take.mp (List.takeWhile_prefix continuesWord)).symm

theorem drop_takeWhile (rest : List CodePoint) :
    rest.drop (rest.takeWhile continuesWord).length = rest.dropWhile continuesWord := by
  conv => lhs; arg 2; rw [← List.takeWhile_append_dropWhile (p := continuesWord) (l := rest)]
  exact List.drop_left

theorem readWord_kind (first : CodePoint) (rest : List CodePoint) :
    (readWord first rest).kind ≠ .ending ∧ ((readWord first rest).kind = .identifier →
      (readWord first rest).value = .text ⟨first :: rest.take (readWord first rest).extra⟩) := by
  rw [readWord_extra, take_takeWhile]
  unfold readWord
  dsimp only
  split
  · rename_i kind value hk
    have hkind : kind ≠ .ending ∧ kind ≠ .identifier := by
      unfold Token.keyword? at hk
      repeat' split at hk
      all_goals cases hk
      all_goals decide
    exact ⟨hkind.1, fun h => absurd h hkind.2⟩
  · exact ⟨nofun, fun _ => rfl⟩

/-- The word at the front of a text stays the longest one there. -/
theorem Resembles.word {first : CodePoint} {rest rest' : List CodePoint}
    (h : Resembles rest' (rest.drop (readWord first rest).extra)) :
    (readWord first rest).extra ≤ rest.length ∧
      readWord first (rest.take (readWord first rest).extra ++ rest') = readWord first rest := by
  rw [readWord_extra] at h ⊢
  rw [drop_takeWhile] at h
  have hstop : (rest'.head?.map continuesWord).getD false = false := by
    refine h.head?_eq_false (by decide +kernel) ?_
    cases hd : rest.dropWhile continuesWord with
    | nil => rfl
    | cons c tail =>
      have := List.head_dropWhile_not continuesWord (l := rest) (by rw [hd]; exact List.cons_ne_nil c tail)
      simpa [hd] using this
  have hnil : rest'.takeWhile continuesWord = [] := by
    cases rest' with
    | nil => rfl
    | cons c tail =>
      have hc : continuesWord c = false := hstop
      rw [List.takeWhile_cons_of_neg (by rw [hc]; exact Bool.false_ne_true)]
  have hword (tail : List CodePoint) (ht : tail.takeWhile continuesWord = rest.takeWhile continuesWord) :
      readWord first tail = readWord first rest := by
    unfold readWord
    rw [ht]
  refine ⟨(List.takeWhile_prefix _).length_le, hword _ ?_⟩
  rw [take_takeWhile, List.takeWhile_append_of_pos fun c hc => List.mem_takeWhile_imp hc, hnil,
    List.append_nil]

/-! ## Tokens -/

/-- The token at the front of a text is read from its own points, whatever follows in the place of
what followed. -/
theorem Resembles.token {first : CodePoint} {rest rest' : List CodePoint} {position : Nat}
    {r : Reading} (hr : read first rest position = .ok r) (h : Resembles rest' (rest.drop r.extra))
    (position' : Nat) :
    r.extra ≤ rest.length ∧ read first (rest.take r.extra ++ rest') position' = .ok r := by
  unfold read at hr
  split at hr
  · rename_i hc
    obtain ⟨hle, hc', hr'⟩ := h.number hc hr position'
    exact ⟨hle, by rw [read, if_pos hc', hr']⟩
  · rename_i hc
    rw [Bool.not_eq_true, Bool.or_eq_false_iff] at hc
    have hdigit (rest : List CodePoint) (hp : first = 46 → startsWithDigit rest = false) :
        ¬ (isAsciiDigit first || (first = 46 && startsWithDigit rest)) = true := by
      rw [hc.1, Bool.false_or, Bool.and_eq_true, decide_eq_true_eq]
      rintro ⟨h46, hr⟩
      rw [hp h46] at hr
      cases hr
    split at hr
    · rename_i hquote
      obtain ⟨hle, hs⟩ := readString_take hr position' rest'
      refine ⟨hle, ?_⟩
      have h46 : first ≠ 46 := by
        rintro rfl
        exact absurd hquote (by decide)
      rw [read, if_neg (hdigit _ fun h => absurd h h46), if_pos hquote, hs]
    · rename_i hquote
      split at hr
      · rename_i hword
        cases hr
        obtain ⟨hle, hw⟩ := h.word
        refine ⟨hle, ?_⟩
        have h46 : first ≠ 46 := by
          rintro rfl
          exact absurd hword (by decide)
        rw [read, if_neg (hdigit _ fun h => absurd h h46), if_neg hquote, if_pos hword, hw]
      · rename_i hword
        obtain ⟨hle, hs⟩ := h.symbol hr position'
        refine ⟨hle, ?_⟩
        rw [read, if_neg (hdigit _ ?_), if_neg hquote, if_neg hword, hs]
        rintro rfl
        obtain ⟨tail, rfl, hextra⟩ := exists_points_of_readSymbol hr
        rw [hextra]
        rfl

/-- What a token of the lexer is: it does not mark the end, and an identifier is a text that spells
itself. -/
theorem read_kind {first : CodePoint} {rest : List CodePoint} {position : Nat} {r : Reading}
    (hr : read first rest position = .ok r) :
    r.kind ≠ .ending ∧
      (r.kind = .identifier → r.value = .text ⟨first :: rest.take r.extra⟩) := by
  unfold read at hr
  split at hr
  · obtain ⟨_, _, _, _, _, _, _, _, rfl⟩ := exists_writes_of_readNumber hr
    exact ⟨nofun, nofun⟩
  · split at hr
    · unfold readString at hr
      cases hc : readContent first position (position + 1) rest with
      | error e =>
        rw [hc] at hr
        cases hr
      | ok result =>
        rw [hc] at hr
        cases hr
        exact ⟨nofun, nofun⟩
    · split at hr
      · cases hr
        exact readWord_kind first rest
      · unfold readSymbol at hr
        split at hr
        · rename_i symbol kind hfind
          cases hr
          have hkind := (show ∀ s ∈ Token.symbols, s.2 ≠ .ending ∧ s.2 ≠ .identifier by decide) _
            (List.mem_of_find?_eq_some hfind)
          exact ⟨hkind.1, fun h => absurd h hkind.2⟩
        · cases hr

theorem extra_le {first : CodePoint} {rest : List CodePoint} {position : Nat} {r : Reading}
    (hr : read first rest position = .ok r) : r.extra ≤ rest.length :=
  (Resembles.token hr (.inr ⟨rfl, rfl⟩) position).1

/-- A token that begins with a point goes on. -/
theorem extra_pos_of_point {rest : List CodePoint} {position : Nat} {r : Reading}
    (hr : read 46 rest position = .ok r) : 0 < r.extra := by
  unfold read at hr
  split at hr
  · rename_i hc
    obtain ⟨parts, written, tail, n, hw, hp, hs, _, rfl⟩ := exists_writes_of_readNumber hr
    match written with
    | [] =>
      rw [← show 46 :: rest = tail from hp] at hs
      exact absurd hc (hw.ne_nil hs)
    | [c] =>
      obtain rfl : 46 = c := (List.cons.inj hp).1
      exact absurd hw.startsWithDigit_of_point (by decide)
    | _ :: _ :: w => exact Nat.succ_pos w.length
  · obtain ⟨tail, rfl, hextra⟩ := exists_points_of_readSymbol hr
    rw [hextra]
    decide

/-! ## The tokens of a text -/

/-- The tokens of a text from a position on, token by token. -/
inductive Scans : Nat → List CodePoint → List Token → Prop where
  | done {position : Nat} : Scans position [] [⟨.ending, .null, position, ""⟩]
  | blank {position : Nat} {c : CodePoint} {rest : List CodePoint} {tokens : List Token}
      (hb : isBlank c = true) (h : Scans (position + 1) rest tokens) : Scans position (c :: rest) tokens
  | token {position : Nat} {c : CodePoint} {rest : List CodePoint} {tokens : List Token} {r : Reading}
      (hb : isBlank c = false) (hr : read c rest position = .ok r)
      (h : Scans (position + r.extra + 1) (rest.drop r.extra) tokens) :
      Scans position (c :: rest) (⟨r.kind, r.value, position, ⟨c :: rest.take r.extra⟩⟩ :: tokens)

theorem scans_of_scan {position : Nat} {points : List CodePoint} {tokens : List Token}
    (h : scan position points = .ok tokens) : Scans position points tokens := by
  induction position, points using scan.induct generalizing tokens with
  | case1 position =>
    rw [scan_nil] at h
    cases h
    exact .done
  | case2 position c rest hb ih =>
    rw [scan_blank hb] at h
    exact .blank hb (ih h)
  | case3 position c rest hb ih =>
    have hb : isBlank c = false := Bool.eq_false_iff.mpr hb
    rw [scan_cons hb] at h
    obtain ⟨r, hr, h⟩ := bind_eq_ok_iff.mp h
    obtain ⟨more, hm, h⟩ := bind_eq_ok_iff.mp h
    cases h
    exact .token hb hr (ih r hm)

/-- The last token marks the end, and only the last. -/
theorem Scans.exists_ending {position : Nat} {points : List CodePoint} {tokens : List Token}
    (h : Scans position points tokens) :
    ∃ front ending, tokens = front ++ [ending] ∧ ending.kind = .ending ∧
      ∀ t ∈ front, t.kind ≠ .ending := by
  induction h with
  | done => exact ⟨[], _, rfl, rfl, nofun⟩
  | blank hb h ih => exact ih
  | token hb hr h ih =>
    obtain ⟨front, ending, rfl, hk, hf⟩ := ih
    exact ⟨_ :: front, ending, rfl, hk, List.forall_mem_cons.mpr ⟨(read_kind hr).1, hf⟩⟩

/-- The tokens stand at or after the position. -/
theorem Scans.exists_cons {position : Nat} {points : List CodePoint} {tokens : List Token}
    (h : Scans position points tokens) : ∃ t rest, tokens = t :: rest ∧ position ≤ t.position := by
  induction h with
  | done => exact ⟨_, [], rfl, Nat.le_refl _⟩
  | blank hb h ih =>
    obtain ⟨t, rest, rfl, ht⟩ := ih
    exact ⟨t, rest, rfl, Nat.le_of_succ_le ht⟩
  | token hb hr h ih => exact ⟨_, _, rfl, Nat.le_refl _⟩

end Vetting.Lexer
