import Mathlib.Data.List.Forall2
import Vetting.Function.Registry
import Vetting.Proofs.Evaluation.Fault

/-!
# Arguments of variadic built-ins

A variadic built-in takes its values one by one or as a single array, and a call may also spread an array
into its arguments. All three give the function the same values, unless the array has a single element
that is an array itself: only a call that is given the whole array takes this element as one value.
-/

namespace Vetting

/-! ## Texts and literals -/

namespace Text

theorem length_concat_cons (t : Text) (ts : List Text) :
    (concat (t :: ts)).length = t.length + (concat ts).length := length_append ..

theorem length_concat_le_join (separator : Text) (ts : List Text) :
    (concat ts).length ≤ (join separator ts).length := by
  induction ts with
  | nil => exact Nat.le_refl _
  | cons t rest ih =>
    cases rest with
    | nil => simp [concat, join]
    | cons u rest =>
      rw [length_concat_cons, join, length_append, length_append]
      omega

theorem length_jsonPoint_pos (c : CodePoint) : 0 < (jsonPoint c).length := by
  unfold jsonPoint
  repeat' split
  all_goals exact Nat.zero_lt_succ _

/-- A JSON string is longer than the text it stands for. -/
theorem length_lt_jsonString (t : Text) : t.length < t.jsonString.length := by
  have hpoints (points : List CodePoint) :
      points.length ≤ (concat (points.map jsonPoint)).length := by
    induction points with
    | nil => exact Nat.zero_le _
    | cons c rest ih =>
      have hc := length_jsonPoint_pos c
      rw [List.map_cons, length_concat_cons, List.length_cons]
      omega
  have h := hpoints t.points
  rw [jsonString, length_append, length_append]
  simp only [length, singleton, List.length_singleton] at *
  omega

end Text

namespace Value

/-- The canonical text of a value is at most as long as its literal, and there is one if there is a
literal. -/
theorem exists_toText_of_literal {v : Value} {b : Text} (h : v.literal = .ok b) :
    ∃ a, v.toText = .ok a ∧ a.length ≤ b.length := by
  cases v with
  | text t =>
    rw [literal, Except.ok.injEq] at h
    exact ⟨t, rfl, by rw [← h]; exact Nat.le_of_lt t.length_lt_jsonString⟩
  | _ => exact ⟨b, h, Nat.le_refl _⟩

theorem exists_texts_of_literalList {vs : List Value} {literals : List Text}
    (h : literalList vs = .ok literals) :
    ∃ parts, Textual.texts vs = .ok parts ∧ (Text.concat parts).length ≤ (Text.concat literals).length := by
  induction vs generalizing literals with
  | nil => exact ⟨[], rfl, Nat.zero_le _⟩
  | cons v rest ih =>
    rw [literalList] at h
    obtain ⟨b, hb, h⟩ := bind_eq_ok_iff.mp h
    obtain ⟨others, hothers, h⟩ := bind_eq_ok_iff.mp h
    cases h
    obtain ⟨a, ha, hle⟩ := exists_toText_of_literal hb
    obtain ⟨parts, hparts, hles⟩ := ih hothers
    refine ⟨a :: parts, ?_, ?_⟩
    · rw [Textual.texts, ha, hparts]
      rfl
    · rw [Text.length_concat_cons, Text.length_concat_cons]
      omega

/-- The literal of an array is longer than the texts of its elements together. -/
theorem exists_texts_of_items {x : Value} {ys : List Value} {b : Text} (hx : x.items? = some ys)
    (h : x.toText = .ok b) :
    ∃ parts, Textual.texts ys = .ok parts ∧ (Text.concat parts).length < b.length := by
  have hliteral : ∃ literals, literalList ys = .ok literals ∧
      "[" ++ Text.join ", " literals ++ "]" = b := by
    cases x <;> cases hx
    all_goals
      rw [toText, literal] at h
      · obtain ⟨literals, hliterals, h⟩ := bind_eq_ok_iff.mp h
        exact ⟨literals, hliterals, Except.ok.inj h⟩
      · nofun
  obtain ⟨literals, hliterals, rfl⟩ := hliteral
  obtain ⟨parts, hparts, hle⟩ := exists_texts_of_literalList hliterals
  have hjoin := Text.length_concat_le_join ", " literals
  refine ⟨parts, hparts, ?_⟩
  rw [Text.length_append, Text.length_append]
  have hbracket : (Text.ofString "[").length = 1 := rfl
  omega

end Value

/-! ## Operations on the values of a call -/

/-- An array as the only value is not taken for its elements. -/
def Separates (operation : List Value → Except Fault Value) : Prop :=
  ∀ x ys, x.items? = some ys →
    (∃ f, operation [x] = .error f) ∨
      ∃ a b, operation [x] = .ok (.text a) ∧ operation ys = .ok (.text b) ∧ a ≠ b

theorem separates_of_numbersOf {function : Text} {next : List Number → Except Fault Value} :
    Separates fun values => Argument.numbersOf function values >>= next := by
  intro x ys hx
  cases x <;> cases hx
  all_goals exact .inl ⟨_, rfl⟩

theorem separates_texts :
    Separates fun values => do
      let parts ← Textual.texts values
      return .text (Text.concat parts) := by
  intro x ys hx
  cases htext : x.toText with
  | error f =>
    left
    refine ⟨f, ?_⟩
    simp only [Textual.texts, htext]
    rfl
  | ok b =>
    right
    obtain ⟨parts, hparts, hlt⟩ := Value.exists_texts_of_items hx htext
    refine ⟨b ++ Text.empty, Text.concat parts, ?_, ?_, ?_⟩
    · simp only [Textual.texts, htext]
      rfl
    · simp only [hparts]
      rfl
    · rw [Text.append_empty]
      rintro rfl
      exact absurd hlt (Nat.lt_irrefl _)

variable {σ : Type}

/-- The variadic built-ins work on the values of a call, however these are passed. -/
theorem Builtin.exists_operation {b : Builtin} (hb : b ∈ [.sum, .avg, .max, .min, .concat]) :
    ∃ operation : List Value → Except Fault Value, Separates operation ∧
      ∀ (instant : Int) (values : List Value),
        (b.script instant values : Script σ Value) = .ofResult (operation (Argument.spread values)) := by
  simp only [List.mem_cons, List.not_mem_nil, or_false] at hb
  rcases hb with rfl | rfl | rfl | rfl | rfl
  · exact ⟨_, separates_of_numbersOf, fun _ _ => rfl⟩
  · exact ⟨_, separates_of_numbersOf, fun _ _ => rfl⟩
  · exact ⟨_, separates_of_numbersOf, fun _ _ => rfl⟩
  · exact ⟨_, separates_of_numbersOf, fun _ _ => rfl⟩
  · exact ⟨_, separates_texts, fun _ _ => rfl⟩

/-! ## Calls -/

namespace Evaluation

variable {context : Context σ} {scope : Scope} {name : Text} {p q : Nat} {v : Value} {xs : List Value}
  {nodes : List Node} {budget : Nat}

/-- An identifier that stands for a value. -/
def Names (context : Context σ) (scope : Scope) (node : Node) (x : Value) : Prop :=
  ∃ p name, node = .identifier p name ∧ lookup? context scope name = some x

theorem outcome_spread (h : lookup? context scope name = some v) (hx : v.items? = some xs) (p : Nat)
    (m : Machine σ) : outcome (spread context scope name p) m = (.ok xs, m) := by
  rw [spread, outcome_bind_of_ok (outcome_lookup h), hx]
  rfl

theorem outcome_arguments_identifiers (h : List.Forall₂ (Names context scope) nodes xs) (m : Machine σ) :
    outcome (arguments context (evaluate context (budget + 1)) scope nodes) m = (.ok xs, m) := by
  induction h with
  | nil => rfl
  | cons hx _ ih =>
    obtain ⟨p, name, rfl, hname⟩ := hx
    have hvalue : outcome (evaluate context (budget + 1) (.identifier p name) scope) m = (.ok _, m) :=
      outcome_lookup hname
    rw [arguments, outcome_bind_of_ok hvalue, outcome_bind_of_ok ih]
    · rfl
    · simp

theorem outcome_arguments_spread (h : lookup? context scope name = some v) (hx : v.items? = some xs)
    (p : Nat) (m : Machine σ) :
    outcome (arguments context (evaluate context budget) scope [.spread p name]) m = (.ok xs, m) := by
  rw [arguments, outcome_bind_of_ok (outcome_spread h hx p m)]
  show (Except.ok (xs ++ []), m) = _
  rw [List.append_nil]

/-- A call of a built-in that makes no calls itself. -/
theorem outcome_call_of_script {b : Builtin} {r : Except Fault Value} {m : Machine σ}
    (h : lookup? context scope name = some (.builtin b))
    (hscript : (b.script context.host.instant xs : Script σ Value) = .ofResult r)
    (harguments : outcome (arguments context (evaluate context (budget + 1)) scope nodes) m = (.ok xs, m)) :
    outcome (evaluate context (budget + 2) (.call p name nodes) scope) m =
      (callResult name p (ofFault r), m) := by
  have hcall : outcome (call context (budget + 1) (.builtin b) xs) m = (ofFault r, m) := by
    rw [call, hscript]
    rfl
  rw [outcome_evaluate_call h rfl, applied, outcome_bind_of_ok harguments, outcome_bind, outcome_attempt,
    hcall]
  rfl

/-- A call needs a budget of two. -/
theorem exists_error_of_budget_lt {b : Builtin} (h : lookup? context scope name = some (.builtin b))
    (hbudget : budget < 2) (p : Nat) (nodes : List Node) (m : Machine σ) :
    ∃ e t, outcome (evaluate context budget (.call p name nodes) scope) m = (.error e, t) := by
  match budget, hbudget with
  | 0, _ => exact ⟨_, _, rfl⟩
  | 1, _ =>
    rw [outcome_evaluate_call h rfl, applied, outcome_bind]
    rcases outcome (arguments context (evaluate context 0) scope nodes) m with ⟨e | values, t⟩
    · exact ⟨_, _, rfl⟩
    · exact ⟨_, _, rfl⟩

/-- What an expression makes of the result of a function. -/
def delivered (source : Option Text) (r : Except Fault Value) : Option Value :=
  ((callResult Text.empty 0 (ofFault r)) >>= conclude source).toOption

theorem delivered_eq (source : Option Text) (name : Text) (p : Nat) (r : Except Fault Value) :
    ((callResult name p (ofFault r)) >>= conclude source).toOption = delivered source r := by
  cases r with
  | error f => rfl
  | ok v =>
    simp only [delivered, ofFault, callResult]
    split <;> rfl

end Evaluation

namespace Expression

open Evaluation

variable {context : Context σ} {capacity budget p : Nat} {record v : Value} {fields : Fields}
  {source : Option Text} {state : σ} {tree : Node} {name : Text} {b : Builtin} {xs : List Value}
  {nodes : List Node}

def value? (capacity : Nat) (context : Context σ) (record : Value) (source : Option Text) (state : σ)
    (tree : Node) : Option Value :=
  (evaluateTree capacity context tree record source state).1.toOption

theorem value?_eq (hr : record.asFieldsOrNone = .ok fields) :
    value? capacity context record source state tree =
      ((outcome (evaluate context capacity tree (scopeOf fields)) ⟨state, 0⟩).1 >>=
        conclude source).toOption := by
  rw [value?, evaluateTree_eq hr]
  rcases outcome (evaluate context capacity tree (scopeOf fields)) ⟨state, 0⟩ with ⟨e | v, m⟩ <;> rfl

theorem value?_call {operation : List Value → Except Fault Value}
    (hr : record.asFieldsOrNone = .ok fields)
    (hb : lookup? context (scopeOf fields) name = some (.builtin b))
    (hscript : ∀ values, (b.script context.host.instant values : Script σ Value) =
      .ofResult (operation (Argument.spread values)))
    (harguments : ∀ m : Machine σ,
      outcome (arguments context (evaluate context (budget + 1)) (scopeOf fields) nodes) m = (.ok xs, m)) :
    value? (budget + 2) context record source state (.call p name nodes) =
      delivered source (operation (Argument.spread xs)) := by
  rw [value?_eq hr, outcome_call_of_script hb (hscript xs) (harguments _), delivered_eq]

theorem spread_singleton (hx : v.items? = some xs) : Argument.spread [v] = xs := by
  cases v <;> cases hx <;> rfl

theorem spread_eq_self (h : ∀ x ys, xs = [x] → x.items? ≠ some ys) : Argument.spread xs = xs := by
  unfold Argument.spread
  split
  · exact absurd rfl (h _ _ rfl)
  · exact absurd rfl (h _ _ rfl)
  · rfl

theorem value?_of_lt (hr : record.asFieldsOrNone = .ok fields)
    (hb : lookup? context (scopeOf fields) name = some (.builtin b)) (hcapacity : capacity < 2) :
    value? capacity context record source state (.call p name nodes) = none := by
  obtain ⟨e, t, h⟩ := exists_error_of_budget_lt hb hcapacity p nodes ⟨state, 0⟩
  rw [value?_eq hr, h]
  rfl

theorem delivered_eq_iff {operation : List Value → Except Fault Value} (h : Separates operation)
    (xs : List Value) :
    delivered source (operation xs) = delivered source (operation (Argument.spread xs)) ↔
      ∀ x ys, xs = [x] → x.items? = some ys →
        delivered source (operation (Argument.spread xs)) = none := by
  by_cases hnested : ∃ x ys, xs = [x] ∧ x.items? = some ys
  · obtain ⟨x, ys, rfl, hx⟩ := hnested
    rw [spread_singleton hx]
    have hall : (∀ y zs, [x] = [y] → y.items? = some zs → delivered source (operation ys) = none) ↔
        delivered source (operation ys) = none :=
      ⟨fun h => h x ys rfl hx, fun h _ _ _ _ => h⟩
    rw [hall]
    rcases h x ys hx with ⟨f, hf⟩ | ⟨s, t, hs, ht, hne⟩
    · rw [hf]
      exact eq_comm
    · have htext (t : Text) : delivered source (.ok (.text t)) = some (.text t) := rfl
      simp [hs, ht, htext, hne]
  · have hall : ∀ x ys, xs = [x] → x.items? ≠ some ys := fun x ys hxs hx => hnested ⟨x, ys, hxs, hx⟩
    rw [spread_eq_self hall]
    exact ⟨fun _ x ys hxs hx => (hall x ys hxs hx).elim, fun _ => rfl⟩

/-- Of a sum, a mean, a largest or smallest number or a concatenation, the call that spreads an array and
the call that is given its elements have the same value, or both have none. The call that is given the
array itself goes with them unless the only element is an array in its turn: then the other two are calls
with the elements of this inner array, and as soon as they have a value, it is not that of the first. -/
theorem variadic_calls_agree_unless_nested (hb : b ∈ [.sum, .avg, .max, .min, .concat])
    (hr : record.asFieldsOrNone = .ok fields)
    (hname : lookup? context (scopeOf fields) b.name = some (.builtin b))
    {array : Text} (hv : lookup? context (scopeOf fields) array = some v) (hx : v.items? = some xs)
    (hnodes : List.Forall₂ (Names context (scopeOf fields)) nodes xs) (capacity : Nat)
    (source : Option Text) (state : σ) (p q : Nat) :
    let value arguments := value? capacity context record source state (.call p b.name arguments)
    let whole := value [.identifier q array]
    let spread := value [.spread q array]
    spread = value nodes ∧
      (whole = spread ↔ ∀ x ys, xs = [x] → x.items? = some ys → spread = none) := by
  intro value whole spread
  obtain ⟨operation, hseparates, hscript⟩ := Builtin.exists_operation (σ := σ) hb
  rcases Nat.lt_or_ge capacity 2 with hcapacity | hcapacity
  · have hnone (nodes : List Node) : value nodes = none := value?_of_lt hr hname hcapacity
    exact ⟨(hnone _).trans (hnone _).symm, fun _ _ _ _ _ => hnone _, fun _ => (hnone _).trans (hnone _).symm⟩
  · obtain ⟨budget, rfl⟩ : ∃ budget, capacity = budget + 2 := ⟨capacity - 2, by omega⟩
    have hwhole : whole = delivered source (operation xs) := by
      rw [← spread_singleton hx]
      exact value?_call hr hname (hscript _) (outcome_arguments_identifiers (.cons ⟨q, array, rfl, hv⟩ .nil))
    have hspread : spread = delivered source (operation (Argument.spread xs)) :=
      value?_call hr hname (hscript _) (outcome_arguments_spread hv hx q)
    have hsingle : value nodes = delivered source (operation (Argument.spread xs)) :=
      value?_call hr hname (hscript _) (outcome_arguments_identifiers hnodes)
    rw [hwhole, hspread, hsingle]
    exact ⟨rfl, delivered_eq_iff hseparates xs⟩

theorem sum_of_three_agrees :
    let record : Value := .object [(.text "xs", .array [.integer 1, .integer 2, .integer 3]),
      (.text "a", .integer 1), (.text "b", .integer 2), (.text "c", .integer 3)]
    let context : Context Unit :=
      ⟨⟨fun _ _ => .finish (.ok .null), 0⟩, (Registry.builtins "functions").functions⟩
    let value arguments := value? 450 context record none () (.call 0 "sum" arguments)
    value [.spread 4 "xs"] = value [.identifier 4 "a", .identifier 7 "b", .identifier 10 "c"] ∧
      value [.identifier 4 "xs"] = value [.spread 4 "xs"] ∧ value [.spread 4 "xs"] = some (.integer 6) := by
  intro record context value
  let items : List Value := [.integer 1, .integer 2, .integer 3]
  let scope := scopeOf [(.text "xs", .array items), (.text "a", .integer 1), (.text "b", .integer 2),
    (.text "c", .integer 3)]
  have hrecord : record.asFieldsOrNone = .ok _ := rfl
  have hsum : lookup? context scope Builtin.sum.name = some (.builtin .sum) := rfl
  have harray : lookup? context scope "xs" = some (.array items) := rfl
  have hnodes : List.Forall₂ (Names context scope)
      [.identifier 4 "a", .identifier 7 "b", .identifier 10 "c"] items :=
    .cons ⟨4, "a", rfl, rfl⟩ (.cons ⟨7, "b", rfl, rfl⟩ (.cons ⟨10, "c", rfl, rfl⟩ .nil))
  obtain ⟨hspread, hwhole⟩ :=
    variadic_calls_agree_unless_nested (by decide) hrecord hsum harray rfl hnodes 450 none () 0 4
  exact ⟨hspread, hwhole.mpr fun _ _ h => absurd h (by simp [items]), rfl⟩

/-- An array in an array is written as a literal by the call that is given the outer one. -/
theorem not_every_variadic_call_agrees :
    ¬ ∀ (context : Context Unit) (record : Value) (fields : Fields) (b : Builtin) (array : Text)
      (xs : List Value), b ∈ [.sum, .avg, .max, .min, .concat] → record.asFieldsOrNone = .ok fields →
      lookup? context (scopeOf fields) b.name = some (.builtin b) →
      lookup? context (scopeOf fields) array = some (.array xs) → (∀ x ∈ xs, x.isModel = true) →
      value? 450 context record none () (.call 0 b.name [.identifier 7 array]) =
        value? 450 context record none () (.call 0 b.name [.spread 7 array]) := by
  intro h
  let context : Context Unit :=
    ⟨⟨fun _ _ => .finish (.ok .null), 0⟩, (Registry.builtins "functions").functions⟩
  let nested : Value := .array [.text "a"]
  have hagree := h context (.object [(.text "xs", .array [nested])]) _ .concat "xs" [nested] (by decide) rfl
    rfl rfl (by decide)
  have hwhole : value? 450 context (.object [(.text "xs", .array [nested])]) none ()
      (.call 0 "concat" [.identifier 7 "xs"]) = some (.text "[\"a\"]") := by rfl
  have hspread : value? 450 context (.object [(.text "xs", .array [nested])]) none ()
      (.call 0 "concat" [.spread 7 "xs"]) = some (.text "a") := by rfl
  exact absurd (hwhole.symm.trans (hagree.trans hspread)) (by simp [Text.ofString])

end Expression

end Vetting
