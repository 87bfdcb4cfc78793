import Vetting.Proofs.Evaluation.Fault
import Vetting.Proofs.Expression.Placed
import Vetting.Proofs.Resolver.Equation
import Vetting.Proofs.Rule.Repetition

/-!
# Integer arithmetic

Sums, differences, products and negations of integers are exact, whatever their size, and so is the
equality of two of them. Their order is exact as well, but it is not found when one of the two is
oversized: it is tested for NaN first, and the test rounds it.
-/

namespace Vetting

/-! ## What a tree stands for -/

def Operation.onIntegers? (operator : Text) : Option (Int → Int → Int) :=
  if operator = "+" then some (· + ·)
  else if operator = "-" then some (· - ·)
  else if operator = "*" then some (· * ·)
  else none

/-- The relation between integers of an operator. -/
def Operation.relation? (operator : Text) : Option (Int → Int → Bool) :=
  if operator = "==" then some fun i j => i = j
  else if operator = "!=" then some fun i j => i ≠ j
  else if operator = "<" then some fun i j => i < j
  else if operator = "<=" then some fun i j => i ≤ j
  else if operator = ">" then some fun i j => j < i
  else if operator = ">=" then some fun i j => j ≤ i
  else none

/-- The integer of a tree that is built from integers and names by sums, differences, products and
negations; `bound` gives the integers of the names. -/
def Node.integer? (bound : Text → Option Int) : Node → Option Int
  | .literal _ (.number (.integer i)) => some i
  | .identifier _ name => bound name
  | .unary _ operator operand =>
    if operator = "-" then (operand.integer? bound).map (- ·) else none
  | .binary _ operator left right => do
    let operation ← Operation.onIntegers? operator
    let i ← left.integer? bound
    let j ← right.integer? bound
    return operation i j
  | _ => none

def Evaluation.integerNamed {σ : Type} (context : Context σ) (scope : Scope) (name : Text) :
    Option Int :=
  match lookup? context scope name with
  | some (.number (.integer i)) => some i
  | _ => none

/-! ## Numbers -/

namespace Number

instance decidableOversized : DecidablePred Oversized
  | .integer i => inferInstanceAs (Decidable (Binary64.leastOverflowing ≤ i.natAbs))
  | .float _ => inferInstanceAs (Decidable False)

theorem compare?_integer (i j : Int) : compare? (integer i) (integer j) = some (compare i j) := by
  have hu : (0 : Int) < (Binary64.unitsPerOne : Int) := Int.ofNat_lt.mpr Binary64.unitsPerOne_pos
  have hplaces : compare (i * (Binary64.unitsPerOne : Int)) (j * (Binary64.unitsPerOne : Int)) =
      compare i j := by
    generalize (Binary64.unitsPerOne : Int) = u at hu
    rcases Int.lt_trichotomy i j with h | rfl | h
    · rw [Int.compare_eq_lt.mpr h, Int.compare_eq_lt.mpr (Int.mul_lt_mul_of_pos_right h hu)]
    · rw [Int.compare_eq_eq.mpr rfl, Int.compare_eq_eq.mpr rfl]
    · rw [Int.compare_eq_gt.mpr h, Int.compare_eq_gt.mpr (Int.mul_lt_mul_of_pos_right h hu)]
  exact congrArg some hplaces

theorem equal_integer (i j : Int) : equal (integer i) (integer j) = decide (i = j) := by
  rw [equal, compare?_integer]
  by_cases h : i = j <;> simp [h]

end Number

/-! ## Values -/

namespace Value

section Numbers
variable {m n : Number}

theorem compare_of_tested (hm : m.testNaN = .ok false) (hn : n.testNaN = .ok false) :
    compare (.number m) (.number n) = .ok ((Number.compare? m n).getD .eq) := by
  rw [compare, hm, hn]
  rfl

theorem comparesOversized_iff (hm : m ≠ .float .nan) :
    ComparesOversized (.number m) (.number n) ↔ m.Oversized ∨ n.Oversized := by
  have htest : m.testNaN = .ok false ↔ ¬ m.Oversized := by
    rw [Number.testNaN_eq_false_iff, and_iff_left hm]
  simp only [ComparesOversized, number.injEq, exists_and_left, exists_eq_left', htest]
  tauto

end Numbers

theorem compare_integer {i j : Int} (hi : ¬ (Number.integer i).Oversized)
    (hj : ¬ (Number.integer j).Oversized) : compare (.integer i) (.integer j) = .ok (Ord.compare i j) := by
  have htested {k : Int} (hk : ¬ (Number.integer k).Oversized) : (Number.integer k).testNaN = .ok false :=
    Number.testNaN_eq_false_iff.mpr ⟨hk, nofun⟩
  rw [integer, integer, compare_of_tested (htested hi) (htested hj), Number.compare?_integer,
    Option.getD_some]

end Value

/-! ## Operators -/

namespace Operation

variable {position : Nat} {operator : Text} {i j : Int}

/-- Operators that stand for an exact operation make an integer of two integers. -/
theorem binary_of_onIntegers {operation : Int → Int → Int} (h : onIntegers? operator = some operation) :
    binary position operator (.integer i) (.integer j) = .ok (.integer (operation i j)) := by
  unfold onIntegers? at h
  split_ifs at h with hplus hminus hstar
  all_goals
    cases h
    subst operator
    rfl

theorem unary_minus : unary position "-" (.integer i) = .ok (.integer (-i)) := rfl

theorem binary_of_isRelational {a b : Value} (h : isRelational operator = true) :
    binary position operator a b = comparison position operator a b := by
  have hne : operator ≠ "==" ∧ operator ≠ "!=" := by
    constructor <;> (rintro rfl; revert h; decide)
  unfold binary
  rw [if_neg hne.1, if_neg hne.2, if_pos h]

theorem comparison_of_compare {a b : Value} {order : Ordering} (h : a.compare b = .ok order) :
    comparison position operator a b = .ok (.boolean (holds operator order)) := by
  rw [comparison, h]

/-- The order of two integers satisfies a relational operator if its relation holds. -/
theorem holds_compare {relation : Int → Int → Bool} (hr : isRelational operator = true)
    (h : relation? operator = some relation) : holds operator (compare i j) = relation i j := by
  unfold relation? at h
  split_ifs at h with heq hne hlt hle hgt hge <;> cases h <;> subst operator
  · exact absurd hr (by decide)
  · exact absurd hr (by decide)
  · exact decide_eq_decide.mpr Int.compare_eq_lt
  · exact (decide_not (p := compare i j = .gt)).symm.trans (decide_eq_decide.mpr Int.compare_ne_gt)
  · exact decide_eq_decide.mpr Int.compare_eq_gt
  · exact (decide_not (p := compare i j = .lt)).symm.trans (decide_eq_decide.mpr Int.compare_ne_lt)

/-- Whether two integers are equal is found exactly. -/
theorem binary_of_equality {relation : Int → Int → Bool} (hr : isRelational operator = false)
    (h : relation? operator = some relation) :
    binary position operator (.integer i) (.integer j) = .ok (.boolean (relation i j)) := by
  have hequal : (Value.integer i).equal (.integer j) = decide (i = j) := Number.equal_integer i j
  unfold relation? at h
  split_ifs at h with heq hne hlt hle hgt hge <;> cases h <;> subst operator
  · dsimp only
    rw [← hequal]
    rfl
  · dsimp only
    rw [decide_not, ← hequal]
    rfl
  all_goals exact absurd hr (by decide)

/-- Two integers are compared exactly, unless their order is asked for and one of them is oversized. -/
theorem binary_of_relation {relation : Int → Int → Bool} (h : relation? operator = some relation) :
    binary position operator (.integer i) (.integer j) =
      if isRelational operator = true ∧ ((Number.integer i).Oversized ∨ (Number.integer j).Oversized)
      then .error (.fault .integerTooLargeForFloat) else .ok (.boolean (relation i j)) := by
  cases hr : isRelational operator with
  | false =>
    rw [if_neg (fun h => Bool.false_ne_true h.1)]
    exact binary_of_equality hr h
  | true =>
    by_cases ho : (Number.integer i).Oversized ∨ (Number.integer j).Oversized
    · have hne : Number.integer i ≠ .float .nan := nofun
      have hcompares : (Value.integer i).ComparesOversized (.integer j) :=
        (Value.comparesOversized_iff hne).mpr ho
      rw [if_pos ⟨rfl, ho⟩]
      exact (binary_eq_fault_iff (.inr hr)).mpr ⟨hr, rfl, hcompares⟩
    · rw [if_neg fun h => ho h.2]
      rw [not_or] at ho
      rw [binary_of_isRelational hr, comparison_of_compare (Value.compare_integer ho.1 ho.2),
        holds_compare hr h]

end Operation

/-! ## Trees -/

namespace Evaluation

variable {σ : Type} {context : Context σ} {scope : Scope} {budget position : Nat} {m : Machine σ}

theorem outcome_lookup_integer {name : Text} {i : Int}
    (h : integerNamed context scope name = some i) :
    outcome (lookup context scope name position) m = (.ok (.integer i), m) := by
  unfold integerNamed at h
  split at h
  · rename_i i' hl
    cases h
    rw [lookup, hl]
    rfl
  · cases h

section Operators
variable {left right operand : Node} {operator : Text} {i j : Int}

theorem outcome_evaluate_minus
    (h : outcome (evaluate context budget operand scope) m =
      (if operand.evaluationDepth ≤ budget then .ok (.integer i) else .error .exhausted, m)) :
    outcome (evaluate context (budget + 1) (.unary position "-" operand) scope) m =
      (if (Node.unary position "-" operand).evaluationDepth ≤ budget + 1 then .ok (.integer (-i))
        else .error .exhausted, m) := by
  simp only [Node.evaluationDepth, Nat.add_le_add_iff_right]
  rw [evaluate, step]
  by_cases hd : operand.evaluationDepth ≤ budget
  · rw [if_pos hd] at h ⊢
    rw [outcome_bind_of_ok h, outcome_ofResult, Operation.unary_minus]
  · rw [if_neg hd] at h ⊢
    rw [outcome_bind_of_error h]

/-- The operation on two operands that are integers takes place unless the budget ends before. -/
theorem outcome_evaluate_binary
    (hl : outcome (evaluate context budget left scope) m =
      (if left.evaluationDepth ≤ budget then .ok (.integer i) else .error .exhausted, m))
    (hr : outcome (evaluate context budget right scope) m =
      (if right.evaluationDepth ≤ budget then .ok (.integer j) else .error .exhausted, m)) :
    outcome (evaluate context (budget + 1) (.binary position operator left right) scope) m =
      (if (Node.binary position operator left right).evaluationDepth ≤ budget + 1 then
        Operation.binary position operator (.integer i) (.integer j) else .error .exhausted, m) := by
  simp only [Node.evaluationDepth, Nat.add_le_add_iff_right, Nat.max_le]
  rw [evaluate, step]
  by_cases hleft : left.evaluationDepth ≤ budget
  · rw [if_pos hleft] at hl
    rw [outcome_bind_of_ok hl]
    by_cases hright : right.evaluationDepth ≤ budget
    · rw [if_pos hright] at hr
      rw [outcome_bind_of_ok hr, outcome_ofResult, if_pos ⟨hleft, hright⟩]
    · rw [if_neg hright] at hr
      rw [outcome_bind_of_error hr, if_neg fun h => hright h.2]
  · rw [if_neg hleft] at hl
    rw [outcome_bind_of_error hl, if_neg fun h => hleft h.1]

end Operators

/-- A tree that stands for an integer has this integer as its value, unless it nests too deeply. -/
theorem outcome_evaluate_of_integer {tree : Node} {i : Int}
    (h : tree.integer? (integerNamed context scope) = some i) :
    outcome (evaluate context budget tree scope) m =
      (if tree.evaluationDepth ≤ budget then .ok (.integer i) else .error .exhausted, m) := by
  induction budget generalizing tree i with
  | zero =>
    rw [evaluate, if_neg (Nat.not_le.mpr tree.evaluationDepth_pos)]
    rfl
  | succ budget ih =>
    cases tree with
    | literal p v =>
      simp only [Node.evaluationDepth, Nat.le_add_left, ↓reduceIte]
      cases v with
      | number n =>
        cases n with
        | integer j =>
          cases h
          rfl
        | float x => cases h
      | _ => cases h
    | identifier p name =>
      simp only [Node.evaluationDepth, Nat.le_add_left, ↓reduceIte]
      rw [evaluate, step]
      exact outcome_lookup_integer h
    | unary p operator operand =>
      rw [Node.integer?] at h
      split_ifs at h with ho
      obtain ⟨j, hj, rfl⟩ := Option.map_eq_some_iff.mp h
      subst operator
      exact outcome_evaluate_minus (ih hj)
    | binary p operator left right =>
      rw [Node.integer?] at h
      obtain ⟨operation, hop, h⟩ := Option.bind_eq_some_iff.mp h
      obtain ⟨a, ha, h⟩ := Option.bind_eq_some_iff.mp h
      obtain ⟨b, hb, h⟩ := Option.bind_eq_some_iff.mp h
      cases h
      rw [outcome_evaluate_binary (ih ha) (ih hb), Operation.binary_of_onIntegers hop]
    | _ => cases h

end Evaluation

/-! ## Whole expressions -/

namespace Expression

open Evaluation (integerNamed scopeOf)

variable {σ : Type} {capacity : Nat} {context : Context σ} {record : Value} {fields : Fields}
  {source : Option Text} {state : σ}

def tooDeep (source : Option Text) : Failure := Evaluation.settle source .exhausted

section Comparisons
variable {left right : Node} {i j : Int} (hr : record.asFieldsOrNone = .ok fields)
  (hl : left.integer? (integerNamed context (scopeOf fields)) = some i)
  (hj : right.integer? (integerNamed context (scopeOf fields)) = some j)
  (hdl : left.evaluationDepth < capacity) (hdr : right.evaluationDepth < capacity)
include hr hl hj hdl hdr

theorem evaluateTree_comparison {position : Nat} {operator : Text} {relation : Int → Int → Bool}
    (h : Operation.relation? operator = some relation) :
    (evaluateTree capacity context (.binary position operator left right) record source state).1 =
      if Operation.isRelational operator = true ∧
          ((Number.integer i).Oversized ∨ (Number.integer j).Oversized)
      then .error (.fault .integerTooLargeForFloat) else .ok (.boolean (relation i j)) := by
  obtain ⟨budget, rfl⟩ := Nat.exists_eq_add_of_lt (Nat.zero_lt_of_lt hdl)
  rw [Nat.zero_add] at hdl hdr ⊢
  have hdepth : (Node.binary position operator left right).evaluationDepth ≤ budget + 1 := by
    rw [Node.evaluationDepth, Nat.add_le_add_iff_right, Nat.max_le]
    exact ⟨Nat.le_of_lt_succ hdl, Nat.le_of_lt_succ hdr⟩
  have houtcome : outcome (Evaluation.evaluate context (budget + 1)
      (.binary position operator left right) (scopeOf fields)) ⟨state, 0⟩ =
        (Operation.binary position operator (.integer i) (.integer j), ⟨state, 0⟩) := by
    rw [Evaluation.outcome_evaluate_binary (Evaluation.outcome_evaluate_of_integer hl)
      (Evaluation.outcome_evaluate_of_integer hj), if_pos hdepth]
  rw [evaluateTree_eq hr, houtcome, Operation.binary_of_relation h]
  split_ifs <;> rfl

/-- The operator of the order in which two integers stand is the only one of three that is true. -/
theorem existsUnique_order {position : Nat} (hi : ¬ (Number.integer i).Oversized)
    (hk : ¬ (Number.integer j).Oversized) :
    ∃! operator, operator ∈ (["<", "==", ">"] : List Text) ∧
      (evaluateTree capacity context (.binary position operator left right) record source state).1 =
        .ok (.boolean true) := by
  have htrue (operator : Text) (relation : Int → Int → Bool)
      (h : Operation.relation? operator = some relation) :
      (evaluateTree capacity context (.binary position operator left right) record source state).1 =
        .ok (.boolean true) ↔ relation i j = true := by
    rw [evaluateTree_comparison hr hl hj hdl hdr h, if_neg fun ho => not_or.mpr ⟨hi, hk⟩ ho.2,
      Except.ok.injEq, Value.boolean.injEq]
  have hless := htrue "<" _ rfl
  have hequal := htrue "==" _ rfl
  have hgreater := htrue ">" _ rfl
  simp only [decide_eq_true_eq] at hless hequal hgreater
  simp only [ExistsUnique, List.mem_cons, List.not_mem_nil, or_false]
  rcases Int.lt_trichotomy i j with h | h | h
  · refine ⟨"<", ⟨.inl rfl, hless.mpr h⟩, ?_⟩
    rintro _ ⟨rfl | rfl | rfl, ht⟩
    · rfl
    · exact absurd (hequal.mp ht) (by omega)
    · exact absurd (hgreater.mp ht) (by omega)
  · refine ⟨"==", ⟨.inr (.inl rfl), hequal.mpr h⟩, ?_⟩
    rintro _ ⟨rfl | rfl | rfl, ht⟩
    · exact absurd (hless.mp ht) (by omega)
    · rfl
    · exact absurd (hgreater.mp ht) (by omega)
  · refine ⟨">", ⟨.inr (.inr rfl), hgreater.mpr h⟩, ?_⟩
    rintro _ ⟨rfl | rfl | rfl, ht⟩
    · exact absurd (hless.mp ht) (by omega)
    · exact absurd (hequal.mp ht) (by omega)
    · rfl

end Comparisons

/-- A tree that stands for an integer has this integer as its value, however large it is, and of two
such trees it is found exactly whether they are equal and, unless one of the two integers is oversized,
which is the smaller one. A comparison that asks for the order of an oversized integer raises a fault. -/
theorem integers_are_exact_unless_order_of_oversized (hr : record.asFieldsOrNone = .ok fields) :
    (∀ (tree : Node) (i : Int), tree.integer? (integerNamed context (scopeOf fields)) = some i →
      (evaluateTree capacity context tree record source state).1 =
        if tree.evaluationDepth ≤ capacity then .ok (.integer i) else .error (tooDeep source)) ∧
    ∀ (left right : Node) (i j : Int) (position : Nat),
      left.integer? (integerNamed context (scopeOf fields)) = some i →
      right.integer? (integerNamed context (scopeOf fields)) = some j →
      left.evaluationDepth < capacity → right.evaluationDepth < capacity →
      let verdict operator :=
        (evaluateTree capacity context (.binary position operator left right) record source state).1
      (∀ operator relation, Operation.relation? operator = some relation →
        verdict operator =
          if Operation.isRelational operator = true ∧
              ((Number.integer i).Oversized ∨ (Number.integer j).Oversized)
          then .error (.fault .integerTooLargeForFloat) else .ok (.boolean (relation i j))) ∧
      (¬ (Number.integer i).Oversized → ¬ (Number.integer j).Oversized →
        ∃! operator, operator ∈ (["<", "==", ">"] : List Text) ∧
          verdict operator = .ok (.boolean true)) := by
  refine ⟨fun tree i h => ?_, fun left right i j position hl hj hdl hdr => ⟨?_, ?_⟩⟩
  · rw [evaluateTree_eq hr, Evaluation.outcome_evaluate_of_integer h]
    split_ifs <;> rfl
  · exact fun operator relation h => evaluateTree_comparison hr hl hj hdl hdr h
  · exact fun hoi hoj => existsUnique_order hr hl hj hdl hdr hoi hoj

/-! ## Integers beyond all binary64 numbers -/

def functionless : Context Unit := ⟨⟨fun _ _ => .finish (.ok .null), 0⟩, []⟩

def largeFields : Fields := [(.text "x", .integer (10 ^ 400))]

/-- `(x + 1) * (x - 1)` -/
def factors : Node :=
  .binary 8 "*" (.binary 3 "+" (.identifier 1 "x") (.literal 5 (.integer 1)))
    (.binary 13 "-" (.identifier 11 "x") (.literal 15 (.integer 1)))

/-- `-(1 - x * x)` -/
def expanded : Node :=
  .unary 0 "-" (.binary 4 "-" (.literal 2 (.integer 1))
    (.binary 8 "*" (.identifier 6 "x") (.identifier 10 "x")))

/-- Both sides of an identity have the same large value and are equal, but neither can be ordered. -/
theorem factors_equal_expanded :
    (Value.object largeFields).asFieldsOrNone = .ok largeFields ∧
      factors.integer? (integerNamed functionless (scopeOf largeFields)) = some (10 ^ 800 - 1) ∧
      expanded.integer? (integerNamed functionless (scopeOf largeFields)) = some (10 ^ 800 - 1) ∧
      factors.evaluationDepth < 450 ∧ expanded.evaluationDepth < 450 ∧
      (evaluateTree 450 functionless factors (.object largeFields) none ()).1 =
        .ok (.integer (10 ^ 800 - 1)) ∧
      (evaluateTree 450 functionless (.binary 18 "==" factors expanded) (.object largeFields) none ()).1 =
        .ok (.boolean true) ∧
      (evaluateTree 450 functionless (.binary 18 "<" factors expanded) (.object largeFields) none ()).1 =
        .error (.fault .integerTooLargeForFloat) := by
  have hf : factors.integer? (integerNamed functionless (scopeOf largeFields)) =
      some (10 ^ 800 - 1) := by decide +kernel
  have he : expanded.integer? (integerNamed functionless (scopeOf largeFields)) =
      some (10 ^ 800 - 1) := by decide +kernel
  have ho : (Number.integer (10 ^ 800 - 1)).Oversized := by decide +kernel
  have hdf : factors.evaluationDepth < 450 := by decide
  have hde : expanded.evaluationDepth < 450 := by decide
  obtain ⟨hvalue, hverdict⟩ := integers_are_exact_unless_order_of_oversized
    (show (Value.object largeFields).asFieldsOrNone = .ok largeFields from rfl)
  obtain ⟨hverdict, _⟩ := hverdict factors expanded _ _ 18 hf he hdf hde
  refine ⟨rfl, hf, he, hdf, hde, ?_, (hverdict "==" _ rfl).trans ?_, (hverdict "<" _ rfl).trans ?_⟩
  · rw [hvalue factors _ hf, if_pos (Nat.le_of_lt hdf)]
  · rw [if_neg fun h => absurd h.1 (by decide), decide_eq_true rfl]
  · rw [if_pos ⟨by decide, .inl ho⟩]

theorem order_of_oversized_raises :
    (evaluateTree 450 functionless (.binary 2 ">" (.identifier 0 "x") (.literal 4 (.integer 1)))
      (.object largeFields) none ()).1 = .error (.fault .integerTooLargeForFloat) :=
  Resolver.eq_error_of_raised? (by decide +kernel)

/-- Not every comparison of two integers is found. -/
theorem not_every_order_is_found :
    ¬ ∀ (context : Context Unit) (fields : Fields) (left right : Node) (i j : Int) (position : Nat),
      left.integer? (integerNamed context (scopeOf fields)) = some i →
      right.integer? (integerNamed context (scopeOf fields)) = some j →
      left.evaluationDepth < 450 → right.evaluationDepth < 450 →
      (evaluateTree 450 context (.binary position ">" left right) (.object fields) none ()).1 =
        .ok (.boolean (decide (j < i))) := by
  intro h
  have hx := h functionless largeFields (.identifier 0 "x") (.literal 4 (.integer 1)) (10 ^ 400) 1 2
    (by decide +kernel) rfl (by decide) (by decide)
  rw [order_of_oversized_raises] at hx
  cases hx

end Expression
end Vetting
