import Vetting.Proofs.Binary64.Layout
import Vetting.Proofs.Expression.Spelling
import Vetting.Value.Literal

/-!
# Literals and their derivations

The literal of a value spells the tokens of a derivation: a literal token, after a minus sign if
the number is negative, or an array of derivations. The number of a literal may be of another type
than the number written: integral binary64 numbers below `10^21` are written as integers.
-/

namespace Vetting

open Grammar Lexer

/-! ## Numbers -/

namespace Number

/-- Numbers that have a literal: integers that can be written, and finite binary64 numbers. -/
inductive Encodable : Number → Prop where
  | integer {i : Int} (h : i.natAbs < unwritable) : Encodable (.integer i)
  | float {negative : Bool} {m p : Nat} (h : Binary64.Canonical m p) :
      Encodable (.float (.finite negative m p h))

def reread : Number → Number
  | integer i => integer i
  | float x =>
    match x.toInt? with
    | some i => if i.natAbs < integralLimit then integer i else float x
    | none => float x

def isNegative : Number → Bool
  | integer i => i < 0
  | float x => x.isNegative

def magnitudeText : Number → Text
  | integer i => Text.ofNat i.natAbs
  | float (.finite _ m p h) => expressionLayout.numeral (Binary64.shortest m p h)
  | float _ => Text.empty

theorem integralLimit_le_unwritable : integralLimit ≤ unwritable := by
  have h : 21 ≤ Fault.digitLimit := by decide
  unfold integralLimit unwritable
  generalize Fault.digitLimit = k at *
  exact Nat.pow_le_pow_right (by decide) h

theorem length_digitsOfNat_le {n : Nat} (h : n < unwritable) :
    (Text.digitsOfNat n).length ≤ Fault.digitLimit := by
  have hpos : 0 < Fault.digitLimit := by decide
  unfold unwritable at h
  generalize Fault.digitLimit = k at *
  exact (Text.length_digitsOfNat_le_iff hpos).mpr h

theorem reread_float_of_none {x : Binary64} (h : x.toInt? = none) : (float x).reread = float x := by
  rw [Number.reread, h]

theorem reread_float_of_some {x : Binary64} {i : Int} (h : x.toInt? = some i) :
    (float x).reread = if i.natAbs < integralLimit then integer i else float x := by
  rw [Number.reread, h]

theorem Encodable.reread {n : Number} (h : n.Encodable) : n.reread.Encodable := by
  cases h with
  | integer h => exact .integer h
  | @float negative m p h =>
    cases hi : (Binary64.finite negative m p h).toInt? with
    | none =>
      rw [reread_float_of_none hi]
      exact .float h
    | some i =>
      rw [reread_float_of_some hi]
      split
      · rename_i hlt
        exact .integer (Nat.lt_of_lt_of_le hlt integralLimit_le_unwritable)
      · exact .float h

theorem writeInteger_eq {i : Int} (h : i.natAbs < unwritable) :
    writeInteger i = .ok (Binary64.signText (i < 0) ++ Text.ofNat i.natAbs) := by
  rw [writeInteger, if_neg (Nat.not_le.mpr h), Text.ofInt]
  by_cases hi : i < 0
  · rw [if_pos hi, decide_eq_true hi]
    rfl
  · rw [if_neg hi, decide_eq_false hi]
    rfl

/-- The text of a number is its sign and its magnitude. -/
theorem Encodable.format_eq {n : Number} (h : n.Encodable) :
    n.format = .ok (Binary64.signText n.reread.isNegative ++ n.reread.magnitudeText) := by
  have hr := h.reread
  cases h with
  | integer h => exact writeInteger_eq h
  | @float negative m p h =>
    cases hi : (Binary64.finite negative m p h).toInt? with
    | none =>
      rw [reread_float_of_none hi, format, hi]
      rfl
    | some i =>
      rw [reread_float_of_some hi] at hr ⊢
      rw [format, hi]
      dsimp only
      by_cases hlt : i.natAbs < integralLimit
      · rw [if_pos hlt] at hr
        rw [if_pos hlt, if_pos hlt]
        cases hr with
        | integer hr => exact writeInteger_eq hr
      · rw [if_neg hlt, if_neg hlt]
        rfl

/-- The magnitude of a number begins with a digit and is a numeral of its absolute value. -/
theorem Encodable.magnitude {n : Number} (h : n.Encodable) :
    startsWithDigit n.magnitudeText.points = true ∧
      ∃ parts, NumeralParts.Writes parts n.magnitudeText.points ∧ parts.number? = some n.abs := by
  cases h with
  | @integer i h =>
    have hd : Digits (Binary64.shown (Text.digitsOfNat i.natAbs)) :=
      Binary64.digits_shown (Text.digitsOfNat_ne_nil _) fun d hd => Text.lt_ten_of_mem_digitsOfNat hd
    have hw := NumeralParts.Writes.intro hd.isDigit .absent .absent
    rw [List.append_nil, List.append_nil] at hw
    have hstart := hd.startsWithDigit_append []
    rw [List.append_nil] at hstart
    refine ⟨hstart, _, hw, ?_⟩
    have hlen : ¬ Fault.digitLimit < (Binary64.shown (Text.digitsOfNat i.natAbs)).length := by
      rw [Binary64.length_shown, Nat.not_lt]
      exact length_digitsOfNat_le h
    rw [NumeralParts.number?, if_neg hlen, Binary64.shown, Text.natOfDigits_map_digitPoint,
      Text.numberOf_digitsOfNat]
    rfl
  | @float negative m p h =>
    obtain ⟨hwf, hread⟩ := Binary64.shortest_read h
    have key := expressionLayout.written_numeral hwf
    rwa [hread] at key

theorem Encodable.spells_magnitude {n : Number} (h : n.Encodable) {rest : List CodePoint}
    (hr : Delimited rest) :
    Spells n.magnitudeText.points [⟨.number, .number n.abs, 0, n.magnitudeText⟩] rest := by
  obtain ⟨hd, parts, hw, hn⟩ := h.magnitude
  exact .number hd hw hn (hr.stops parts)

/-- A number is the magnitude of its literal, negated if it is written with a minus sign. -/
theorem Encodable.neg_abs {n : Number} (h : n.Encodable) :
    (if n.isNegative then n.abs.neg else n.abs) = n := by
  cases h with
  | @integer i h =>
    by_cases hi : i < 0
    · simp only [isNegative, hi, decide_true, ↓reduceIte, abs, neg, integer.injEq]
      omega
    · simp only [isNegative, hi, decide_false, Bool.false_eq_true, ↓reduceIte, abs, integer.injEq]
      omega
  | @float negative m p h => cases negative <;> rfl

def derivation (n : Number) : Tier 0 :=
  let magnitude : Tier 0 := .primary (.literal ⟨.number, .number n.abs, 0, n.magnitudeText⟩ rfl)
  if n.isNegative then .prefixed ⟨.minus, .text "-", 0, "-"⟩ "-" rfl magnitude else magnitude

theorem derivation_nesting (n : Number) : n.derivation.nesting = if n.isNegative then 1 else 0 := by
  rw [derivation]
  split <;> rfl

theorem Encodable.spells_derivation {n : Number} (h : n.Encodable) {rest : List CodePoint}
    (hr : Delimited rest) :
    Spells (Binary64.signText n.isNegative ++ n.magnitudeText).points n.derivation.tokens rest := by
  have key := h.spells_magnitude hr
  rw [derivation, Text.points_append]
  cases n.isNegative with
  | true => exact (spells_minus _).append key
  | false => exact key

end Number

/-! ## Values -/

namespace Value

mutual

/-- Values that have a literal. -/
def Encodable : Value → Prop
  | null | boolean _ | text _ => True
  | number n => n.Encodable
  | array items | tuple items => EncodableList items
  | object _ | foreign _ | host _ | builtin _ | closure .. => False

def EncodableList : List Value → Prop
  | [] => True
  | v :: vs => Encodable v ∧ EncodableList vs

end

mutual

def reread : Value → Value
  | number n => number n.reread
  | array items | tuple items => array (rereadList items)
  | v => v

def rereadList : List Value → List Value
  | [] => []
  | v :: vs => reread v :: rereadList vs

end

mutual

def derivation : Value → Tier 0
  | boolean b =>
    .primary (.literal ⟨if b then .true else .false, .boolean b, 0, if b then "true" else "false"⟩
      (by cases b <;> rfl))
  | number n => n.reread.derivation
  | text t => .primary (.literal ⟨.string, .text t, 0, t.jsonString⟩ rfl)
  | array items | tuple items =>
    .primary (.array ⟨⟨.openBracket, .text "[", 0, "["⟩, rfl⟩ (listing items)
      ⟨⟨.closeBracket, .text "]", 0, "]"⟩, rfl⟩)
  | _ => .primary (.literal ⟨.null, .null, 0, "null"⟩ rfl)

def listing : List Value → Listing false
  | [] => .empty
  | v :: vs => .items (.expression (derivation v).phrase) (following vs)

def following : List Value → Items false
  | [] => .done
  | v :: vs =>
    .next ⟨⟨.comma, .text ",", 0, ","⟩, rfl⟩ (.expression (derivation v).phrase) (following vs)

end

theorem following_nodes (vs : List Value) :
    (following vs).nodes = vs.map fun v => v.derivation.node := by
  induction vs with
  | nil => rfl
  | cons v vs ih => rw [following, Items.nodes, ih, Item.node, Tier.phrase_node, List.map_cons]

/-- The trees of the items of an array literal. -/
theorem listing_nodes (vs : List Value) : (listing vs).nodes = vs.map fun v => v.derivation.node := by
  cases vs with
  | nil => rfl
  | cons v vs => rw [listing, Listing.nodes, following_nodes, Item.node, Tier.phrase_node, List.map_cons]

theorem following_nesting_le_iff {vs : List Value} {k : Nat} :
    (following vs).nesting ≤ k ↔ ∀ v ∈ vs, v.derivation.nesting < k := by
  induction vs with
  | nil => simp [following, Items.nesting]
  | cons v vs ih =>
    rw [following, Items.nesting, Nat.max_le, ih, Item.nesting, Tier.phrase_nesting,
      List.forall_mem_cons]
    rfl

/-- An array literal nests one level more than its items. -/
theorem listing_nesting_le_iff {vs : List Value} {k : Nat} :
    (listing vs).nesting ≤ k ↔ ∀ v ∈ vs, v.derivation.nesting < k := by
  cases vs with
  | nil => simp [listing, Listing.nesting]
  | cons v vs =>
    rw [listing, Listing.nesting, Nat.max_le, following_nesting_le_iff, Item.nesting,
      Tier.phrase_nesting, List.forall_mem_cons]
    rfl

theorem listing_tokens_cons_cons (v w : Value) (vs : List Value) :
    (listing (v :: w :: vs)).tokens =
      v.derivation.tokens ++ ([⟨.comma, .text ",", 0, ","⟩] ++ (listing (w :: vs)).tokens) := by
  simp [listing, following, Listing.tokens, Items.tokens, Item.tokens]

theorem listing_tokens_singleton (v : Value) : (listing [v]).tokens = v.derivation.tokens := by
  simp [listing, following, Listing.tokens, Items.tokens, Item.tokens]

/-- The tokens of an array literal around those of its items. -/
theorem spells_array {parts : List Text} {items : Listing false}
    (h : ∀ rest, Delimited rest → Spells (Text.join ", " parts).points items.tokens rest)
    (rest : List CodePoint) :
    Spells ("[" ++ Text.join ", " parts ++ "]" : Text).points
      (Primary.array ⟨⟨.openBracket, .text "[", 0, "["⟩, rfl⟩ items
        ⟨⟨.closeBracket, .text "]", 0, "]"⟩, rfl⟩).tokens rest := by
  have hclose := (h (93 :: rest) (delimited_cons (by simp) rest)).append (spells_closeBracket rest)
  have key := (spells_openBracket _).append hclose
  rwa [← List.append_assoc] at key

mutual

/-- The literal of a value spells the tokens of its derivation. -/
theorem exists_literal (v : Value) (h : v.Encodable) :
    ∃ t, v.literal = .ok t ∧
      ∀ rest, Delimited rest → Spells t.points v.derivation.tokens rest := by
  match v with
  | null => exact ⟨_, rfl, fun _ hr => hr.spells_null⟩
  | boolean b => exact ⟨_, rfl, fun _ hr => hr.spells_boolean b⟩
  | number n => exact ⟨_, Number.Encodable.format_eq h, fun _ hr => h.reread.spells_derivation hr⟩
  | text t => exact ⟨_, rfl, fun rest _ => spells_jsonString t rest⟩
  | array items | tuple items =>
    obtain ⟨parts, ⟨hp, _⟩, hs⟩ := exists_literalList items h
    refine ⟨_, ?_, fun rest _ => spells_array hs rest⟩
    rw [literal, hp]
    rfl

theorem exists_literalList (vs : List Value) (h : EncodableList vs) :
    ∃ parts, (literalList vs = .ok parts ∧ parts.length = vs.length) ∧
      ∀ rest, Delimited rest → Spells (Text.join ", " parts).points (listing vs).tokens rest := by
  match vs with
  | [] => exact ⟨[], ⟨rfl, rfl⟩, fun rest _ => .nil rest⟩
  | [v] =>
    obtain ⟨t, ht, hs⟩ := exists_literal v h.1
    refine ⟨[t], ⟨by rw [literalList, ht]; rfl, rfl⟩, fun rest hr => ?_⟩
    rw [listing_tokens_singleton]
    exact hs rest hr
  | v :: w :: vs =>
    obtain ⟨t, ht, hs⟩ := exists_literal v h.1
    obtain ⟨parts, ⟨hp, hl⟩, hps⟩ := exists_literalList (w :: vs) h.2
    refine ⟨t :: parts, ⟨by rw [literalList, ht, hp]; rfl, congrArg (· + 1) hl⟩, fun rest hr => ?_⟩
    have hcomma := (spells_comma _).append ((Spells.blank (c := 32) rfl _).append (hps rest hr))
    have key := (hs _ (delimited_cons (by simp) _)).append hcomma
    rw [listing_tokens_cons_cons]
    cases parts with
    | nil => cases hl
    | cons u us =>
      have hj : (Text.join ", " (t :: u :: us)).points =
          t.points ++ ([44] ++ ([32] ++ (Text.join ", " (u :: us)).points)) :=
        List.append_assoc t.points [44, 32] _
      rwa [hj]

end

end Value
end Vetting
