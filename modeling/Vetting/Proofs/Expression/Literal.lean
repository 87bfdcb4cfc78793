import Vetting.Proofs.Expression.Derived
import Vetting.Proofs.Outcome
import Vetting.Proofs.Value.Literal

/-!
# Literals read back

The literal of a value is an expression that nests as deep as its deepest leaf. It parses within
every limit that admits its leaves, and evaluates to a value equal to the one written.
-/

namespace Vetting

open Grammar

/-! ## Leaves -/

namespace Value

def startsWithMinus (v : Value) : Bool :=
  match v.literal with
  | .ok t => t.points.head? == some 45
  | .error _ => false

mutual

/-- For every leaf of a value, how many expressions and signs stand around it: the whole
expression, the arrays that hold the leaf, and its minus sign. An empty array is a leaf. -/
def leafLevels (arrays : Nat) : Value → List Nat
  | array [] | tuple [] => [1 + arrays]
  | array (v :: vs) | tuple (v :: vs) => leafLevelsList (arrays + 1) (v :: vs)
  | v => [1 + arrays + if v.startsWithMinus then 1 else 0]

def leafLevelsList (arrays : Nat) : List Value → List Nat
  | [] => []
  | v :: vs => leafLevels arrays v ++ leafLevelsList arrays vs

end

theorem startsWithMinus_number {n : Number} (h : n.Encodable) :
    (number n).startsWithMinus = n.reread.isNegative := by
  obtain ⟨hd, _⟩ := h.reread.magnitude
  rw [startsWithMinus, literal, h.format_eq]
  cases n.reread.isNegative with
  | true => rfl
  | false =>
    have hne : n.reread.magnitudeText.points.head? ≠ some 45 := by
      intro h45
      rw [Lexer.startsWithDigit, h45] at hd
      cases hd
    exact beq_false_of_ne hne

theorem mem_leafLevelsList {arrays n : Nat} {v : Value} {vs : List Value} (hv : v ∈ vs)
    (hn : n ∈ leafLevels arrays v) : n ∈ leafLevelsList arrays vs := by
  induction vs with
  | nil => cases hv
  | cons w vs ih =>
    rw [leafLevelsList, List.mem_append]
    rcases List.mem_cons.mp hv with rfl | hv
    · exact .inl hn
    · exact .inr (ih hv)

/-- An array literal nests as deep as one of its items. -/
theorem exists_mem_listing {vs : List Value} (h : vs ≠ []) :
    ∃ v ∈ vs, (listing vs).nesting ≤ v.derivation.nesting + 1 := by
  by_cases hall : ∀ v ∈ vs, v.derivation.nesting + 1 < (listing vs).nesting
  · have hlt : (listing vs).nesting ≤ (listing vs).nesting - 1 :=
      listing_nesting_le_iff.mpr fun v hv => by have := hall v hv; omega
    obtain ⟨v, hv⟩ := List.exists_mem_of_ne_nil vs h
    have := hall v hv
    omega
  · push Not at hall
    exact hall

theorem exists_leafLevel_items {vs : List Value} (hne : vs ≠ []) {arrays : Nat}
    (h : ∀ v ∈ vs, ∃ n ∈ leafLevels (arrays + 1) v, 1 + (arrays + 1) + v.derivation.nesting ≤ n) :
    ∃ n ∈ leafLevelsList (arrays + 1) vs, 1 + arrays + (listing vs).nesting ≤ n := by
  obtain ⟨v, hv, hl⟩ := exists_mem_listing hne
  obtain ⟨n, hn, hle⟩ := h v hv
  exact ⟨n, mem_leafLevelsList hv hn, by omega⟩

mutual

/-- A literal nests no deeper than one of the leaves. -/
theorem exists_leafLevel (v : Value) (h : v.Encodable) (arrays : Nat) :
    ∃ n ∈ leafLevels arrays v, 1 + arrays + v.derivation.nesting ≤ n := by
  match v with
  | null | boolean _ | text _ => exact ⟨_, List.mem_singleton.mpr rfl, Nat.le_add_right ..⟩
  | number n =>
    refine ⟨_, List.mem_singleton.mpr rfl, ?_⟩
    rw [startsWithMinus_number h, derivation, Number.derivation_nesting]
  | array [] | tuple [] => exact ⟨_, List.mem_singleton.mpr rfl, Nat.le_refl _⟩
  | array (w :: ws) | tuple (w :: ws) =>
    exact exists_leafLevel_items (List.cons_ne_nil w ws) (exists_leafLevelList (w :: ws) h (arrays + 1))

theorem exists_leafLevelList (vs : List Value) (h : EncodableList vs) (arrays : Nat) :
    ∀ v ∈ vs, ∃ n ∈ leafLevels arrays v, 1 + arrays + v.derivation.nesting ≤ n := by
  match vs with
  | [] => exact fun v hv => nomatch hv
  | w :: ws =>
    exact List.forall_mem_cons.mpr
      ⟨exists_leafLevel w h.1 arrays, exists_leafLevelList ws h.2 arrays⟩

end

end Value

/-! ## Evaluation -/

namespace Value
open Evaluation

section Evaluate
variable {σ : Type} {context : Context σ} {scope : Scope} {m : Machine σ}

/-- The magnitude of a number, negated where the tree says so. -/
theorem outcome_evaluate_number {n : Number} (h : n.Encodable) {node : Node} {budget : Nat}
    (hn : node.unplaced = n.derivation.node.unplaced) (hb : n.derivation.nesting < budget) :
    outcome (evaluate context budget node scope) m = (.ok (number n), m) := by
  have hneg := h.neg_abs
  obtain ⟨budget, rfl⟩ : ∃ b, budget = b + 1 := ⟨budget - 1, by omega⟩
  rw [Number.derivation_nesting] at hb
  rw [Number.derivation] at hn
  cases hs : n.isNegative with
  | false =>
    rw [hs] at hn hneg
    obtain ⟨position, rfl⟩ := Node.exists_literal_of_unplaced hn
    have habs : n.abs = n := hneg
    rw [evaluate, step, outcome_pure, habs]
  | true =>
    rw [hs] at hn hb hneg
    obtain ⟨position, inner, rfl, hi⟩ := Node.exists_unary_of_unplaced hn
    obtain ⟨position', rfl⟩ := Node.exists_literal_of_unplaced hi
    obtain ⟨budget, rfl⟩ := Nat.exists_eq_add_of_lt (Nat.lt_of_succ_lt_succ hb)
    rw [Nat.zero_add]
    have habs : n.abs.neg = n := hneg
    have hinner : outcome (evaluate context (budget + 1) (.literal position' (number n.abs)) scope) m =
        (.ok (number n.abs), m) := rfl
    rw [evaluate, step, outcome_bind_of_ok hinner, outcome_ofResult]
    exact congrArg (fun x => (Except.ok (number x), m)) habs

mutual

theorem outcome_evaluate_literal (v : Value) (h : v.Encodable) {node : Node} {budget : Nat}
    (hn : node.unplaced = v.derivation.node.unplaced) (hb : v.derivation.nesting < budget) :
    outcome (evaluate context budget node scope) m = (.ok v.reread, m) := by
  obtain ⟨budget, rfl⟩ : ∃ b, budget = b + 1 := ⟨budget - 1, by omega⟩
  match v with
  | null | boolean _ | text _ =>
    obtain ⟨position, rfl⟩ := Node.exists_literal_of_unplaced hn
    rfl
  | number n => exact outcome_evaluate_number h.reread hn hb
  | array vs | tuple vs =>
    have hb' := listing_nesting_le_iff.mp (Nat.le_of_lt_succ hb)
    rw [derivation, Tier.node, Primary.node, listing_nodes, Node.unplaced, Node.unplacedList_eq,
      List.map_map] at hn
    obtain ⟨position, nodes, rfl, hi⟩ := Node.exists_array_of_unplaced hn
    rw [evaluate, step, outcome_bind_of_ok (outcome_items_literals vs h hi hb')]
    rfl

theorem outcome_items_literals (vs : List Value) (h : EncodableList vs) {nodes : List Node}
    {budget : Nat}
    (hn : nodes.map Node.unplaced = vs.map fun v => v.derivation.node.unplaced)
    (hb : ∀ v ∈ vs, v.derivation.nesting < budget) :
    outcome (items (evaluate context budget) scope nodes) m = (.ok (rereadList vs), m) := by
  match vs, nodes with
  | [], [] => rfl
  | v :: vs, node :: nodes =>
    rw [List.map_cons, List.map_cons, List.cons.injEq] at hn
    rw [List.forall_mem_cons] at hb
    rw [items, outcome_bind_of_ok (outcome_evaluate_literal v h.1 hn.1 hb.1),
      outcome_bind_of_ok (outcome_items_literals vs h.2 hn.2 hb.2)]
    rfl

end

end Evaluate

/-! ## Equality -/

theorem number_equal_of_place {a b : Number} {place : Binary64.Place} (ha : a.place? = some place)
    (hb : b.place? = some place) : Number.equal a b = true := by
  have hself : place.compare place = .eq := by
    cases place with
    | «at» units => exact Std.ReflOrd.compare_self
    | _ => rfl
  have hcompare : Number.compare? a b = some (place.compare place) := by
    rw [Number.compare?, ha, hb]
    rfl
  rw [Number.equal, hcompare, hself]
  rfl

theorem place?_of_toInt? {x : Binary64} {i : Int} (h : x.toInt? = some i) :
    (Number.float x).place? = (Number.integer i).place? := by
  cases x with
  | finite negative m p hc =>
    rw [Binary64.toInt?, Binary64.units?] at h
    dsimp only at h
    show some (Binary64.Place.at (Binary64.signed negative (Binary64.magnitudeUnits m p))) =
      some (.at (i * (Binary64.unitsPerOne : Int)))
    generalize Binary64.signed negative (Binary64.magnitudeUnits m p) = u at *
    generalize (Binary64.unitsPerOne : Int) = k at *
    split at h
    · rename_i hu
      obtain rfl := Option.some.inj h
      rw [Int.ediv_mul_cancel (Int.dvd_of_emod_eq_zero hu)]
    · cases h
  | _ => cases h

theorem equal_reread_number {n : Number} (h : n.Encodable) : Number.equal n.reread n = true := by
  cases h with
  | integer h => exact number_equal_of_place rfl rfl
  | @float negative m p h =>
    cases hi : (Binary64.finite negative m p h).toInt? with
    | none =>
      rw [Number.reread_float_of_none hi]
      exact number_equal_of_place rfl rfl
    | some i =>
      rw [Number.reread_float_of_some hi]
      split
      · exact number_equal_of_place (place?_of_toInt? hi).symm rfl
      · exact number_equal_of_place rfl rfl

mutual

/-- A value equals what its literal denotes. -/
theorem equal_reread (v : Value) (h : v.Encodable) : v.reread.equal v = true := by
  match v with
  | null => rfl
  | boolean b => exact beq_self_eq_true b
  | number n => exact equal_reread_number h
  | text t => exact beq_self_eq_true t
  | array items | tuple items => exact equalList_reread items h

theorem equalList_reread (vs : List Value) (h : EncodableList vs) :
    equalList (rereadList vs) vs = true := by
  match vs with
  | [] => rfl
  | v :: vs => rw [rereadList, equalList, equal_reread v h.1, equalList_reread vs h.2]; rfl

end

mutual

theorem isModel_reread (v : Value) (h : v.Encodable) : v.reread.isModel = true := by
  match v with
  | null | boolean _ | number _ | text _ => rfl
  | array items | tuple items => exact isModelList_reread items h

theorem isModelList_reread (vs : List Value) (h : EncodableList vs) :
    isModelList (rereadList vs) = true := by
  match vs with
  | [] => rfl
  | v :: vs => rw [rereadList, isModelList, isModel_reread v h.1, isModelList_reread vs h.2]; rfl

end

mutual

theorem normalize_reread (v : Value) (h : v.Encodable) : v.reread.normalize = .ok v.reread := by
  match v with
  | null | boolean _ | number _ | text _ => rfl
  | array items | tuple items =>
    rw [reread, normalize, normalizeList_reread items h]
    rfl

theorem normalizeList_reread (vs : List Value) (h : EncodableList vs) :
    normalizeList (rereadList vs) = .ok (rereadList vs) := by
  match vs with
  | [] => rfl
  | v :: vs =>
    rw [rereadList, normalizeList, normalize_reread v h.1, normalizeList_reread vs h.2]
    rfl

end

end Value

/-! ## Whole literals -/

namespace Expression

/-- The phrase of a literal has the tree and the nesting of the derivation of its value. -/
theorem exists_derives_of_literal {v : Value} (h : v.Encodable) :
    ∃ text e, v.literal = .ok text ∧ Derives text e ∧ e.node.unplaced = v.derivation.node.unplaced ∧
      e.nesting = v.derivation.nesting := by
  obtain ⟨text, ht, hs⟩ := v.exists_literal h
  have hspells : Lexer.Spells text.points v.derivation.phrase.tokens [] := by
    rw [Tier.phrase_tokens]
    exact hs [] Lexer.delimited_nil
  obtain ⟨e, he, hn, hd⟩ := exists_derives_of_spells hspells
  rw [Tier.phrase_node] at hn
  rw [Tier.phrase_nesting] at hd
  exact ⟨text, e, ht, he, hn, hd⟩

variable {σ : Type}

/-- A tree of a literal has the value that the literal denotes, over every record. -/
theorem evaluateTree_literal {v : Value} (h : v.Encodable) {tree : Node} {capacity : Nat}
    (ht : tree.unplaced = v.derivation.node.unplaced) (hb : v.derivation.nesting < capacity)
    (context : Context σ) {record : Value} {fields : Fields} (hr : record.asFieldsOrNone = .ok fields)
    (source : Option Text) (state : σ) :
    evaluateTree capacity context tree record source state = (.ok v.reread, state) := by
  have heval : (Evaluation.evaluate context capacity tree (Evaluation.scopeOf fields)).run ⟨state, 0⟩ =
      (.ok v.reread, ⟨state, 0⟩) := Value.outcome_evaluate_literal v h ht hb
  rw [evaluateTree, hr]
  dsimp only
  rw [heval]
  dsimp only
  rw [Evaluation.conclude, if_pos (v.isModel_reread h), v.normalize_reread h]
  rfl

/-- The literal of a value can be written, parses whenever its length and its leaves are within the
limits, and evaluates to a value equal to the one written. The capacities are those of the host. -/
theorem literal_reads_back (v : Value) (h : v.Encodable) :
    ∃ text, v.literal = .ok text ∧
      ∀ (capacity : Capacity) (limits : Limits) (length depth : Limit),
        Bounded limits length depth → length.exceededBy text.length = false →
        (∀ n ∈ v.leafLevels 0,
          depth.exceededBy n = false ∧ n ≤ capacity.parsing ∧ n ≤ capacity.evaluation) →
        ∃ tree, parseText capacity.parsing limits text = .ok tree ∧
          ∀ (context : Context σ) (record : Value) (fields : Fields) (source : Option Text) (state : σ),
            record.asFieldsOrNone = .ok fields →
            ∃ w, evaluateTree capacity.evaluation context tree record source state = (.ok w, state) ∧
              w.equal v = true := by
  obtain ⟨text, e, ht, he, hn, hd⟩ := exists_derives_of_literal h
  refine ⟨text, ht, fun capacity limits length depth hl hlen hleaves => ?_⟩
  obtain ⟨n, hmem, hle⟩ := v.exists_leafLevel h 0
  obtain ⟨hdepth, hparsing, hevaluation⟩ := hleaves n hmem
  have hlevels : levels e ≤ n := by
    rw [levels, hd]
    omega
  have hadmits : Parser.Bounds.Admits ⟨depth, capacity.parsing⟩ (levels e) :=
    .mono hlevels ⟨hdepth, hparsing⟩
  refine ⟨e.node, he.parseText_eq_ok hl hlen hadmits, fun context record fields source state hr => ?_⟩
  have hbudget : v.derivation.nesting < capacity.evaluation := by omega
  exact ⟨v.reread, evaluateTree_literal h hn hbudget context hr source state, v.equal_reread h⟩

theorem array_literal_reads_back :
    let v : Value := .array [.integer (-5), .text "a\"b"]
    let limits : Limits := ⟨.integer 3, .integer 12⟩
    let context : Context Unit := ⟨⟨fun _ _ => .finish (.ok .null), 0⟩, []⟩
    v.Encodable ∧ Bounded limits (.ofNat 12) (.ofNat 3) ∧ (∀ n ∈ v.leafLevels 0, n ≤ 3) ∧
      ∃ tree, parseText 1000 limits "[-5, \"a\\\"b\"]" = .ok tree ∧
        ∃ w, evaluateTree 450 context tree .null none () = (.ok w, ()) ∧ w.equal v = true := by
  intro v limits context
  have hfive : 5 < Number.integralLimit := by decide +kernel
  have hwritable : (-5 : Int).natAbs < Number.unwritable :=
    Nat.lt_of_lt_of_le hfive Number.integralLimit_le_unwritable
  have hv : v.Encodable := ⟨.integer hwritable, trivial, trivial⟩
  have hl : Bounded limits (.ofNat 12) (.ofNat 3) := ⟨by decide +kernel, by decide +kernel⟩
  have hleaves : ∀ n ∈ v.leafLevels 0, n ≤ 3 := by decide +kernel
  have hliteral : v.literal = .ok "[-5, \"a\\\"b\"]" := by
    have hminus : (Value.number (.integer (-5))).literal = .ok "-5" := by
      rw [Value.literal, Number.format, Number.writeInteger_eq hwritable]
      exact congrArg Except.ok (by decide +kernel)
    rw [Value.literal, Value.literalList, Value.integer, hminus]
    rfl
  refine ⟨hv, hl, hleaves, ?_⟩
  obtain ⟨text, ht, key⟩ := literal_reads_back (σ := Unit) v hv
  obtain rfl : text = "[-5, \"a\\\"b\"]" := Except.ok.inj (ht.symm.trans hliteral)
  obtain ⟨tree, hp, he⟩ := key {} limits _ _ hl (by decide) fun n hn => by
    have hle := hleaves n hn
    exact ⟨by simpa using hle, Nat.le_trans hle (by decide), Nat.le_trans hle (by decide)⟩
  exact ⟨tree, hp, he context .null [] none () rfl⟩

end Expression
end Vetting
