import Vetting.Proofs.Coercion.Repetition
import Vetting.Proofs.Rule.Acceptance

/-!
# Rules on values that are coerced again

A number and the number that its literal denotes have the same place on the line, and neither is NaN. So
every rule that holds of one holds of the other; of a custom rule this is asked of its validator.
-/

namespace Vetting

/-! ## Numbers -/

namespace Number

theorem place?_reread {n : Number} (h : n.Encodable) : n.reread.place? = n.place? := by
  cases h with
  | integer h => rfl
  | @float negative m p h =>
    cases hi : (Binary64.finite negative m p h).toInt? with
    | none => rw [reread_float_of_none hi]
    | some i =>
      rw [reread_float_of_some hi]
      split
      · exact (Value.place?_of_toInt? hi).symm
      · rfl

theorem integralLimit_lt_leastOverflowing : integralLimit < Binary64.leastOverflowing := by
  decide +kernel

theorem not_oversized_reread {n : Number} (h : ¬ n.Oversized) : ¬ n.reread.Oversized := by
  cases n with
  | integer i => exact h
  | float x =>
    cases hi : x.toInt? with
    | none =>
      rw [reread_float_of_none hi]
      exact h
    | some i =>
      rw [reread_float_of_some hi]
      split
      · rename_i hlt
        exact Nat.not_le.mpr (Nat.lt_trans hlt integralLimit_lt_leastOverflowing)
      · exact h

theorem eq_nan_of_testNaN {n : Number} (h : n.testNaN = .ok true) : n = .float .nan := by
  rw [testNaN, bind_eq_ok_iff] at h
  obtain ⟨x, hx, h⟩ := h
  obtain rfl : x = .nan := by
    cases x with
    | nan => rfl
    | _ => cases h
  cases n with
  | float x =>
    cases hx
    rfl
  | integer i =>
    rw [toFloat] at hx
    split at hx
    · cases hx
    · exact absurd (Except.ok.inj hx) (Binary64.ofQuotient_ne_nan _ _ _)

theorem testNaN_eq_false_iff {n : Number} :
    n.testNaN = .ok false ↔ ¬ n.Oversized ∧ n ≠ .float .nan := by
  constructor
  · intro h
    refine ⟨fun ho => ?_, ?_⟩
    · rw [testNaN_eq_error_iff.mpr ⟨rfl, ho⟩] at h
      cases h
    · rintro rfl
      cases h
  · rintro ⟨ho, hnan⟩
    cases h : n.testNaN with
    | error f => exact absurd (testNaN_eq_error_iff.mp h).2 ho
    | ok b =>
      cases b with
      | false => rfl
      | true => exact absurd (eq_nan_of_testNaN h) hnan

theorem testNaN_reread {n : Number} (h : n.Encodable) (hn : n.testNaN = .ok false) :
    n.reread.testNaN = .ok false := by
  rw [testNaN_eq_false_iff] at hn ⊢
  refine ⟨not_oversized_reread hn.1, ?_⟩
  intro hnan
  have hr := h.reread
  rw [hnan] at hr
  cases hr

section Order
variable {a b : Number}

theorem compare?_congr {a' b' : Number} (ha : a'.place? = a.place?) (hb : b'.place? = b.place?) :
    compare? a' b' = compare? a b := by
  rw [compare?, compare?, ha, hb]

theorem equal_reread_left (h : a.Encodable) : equal a.reread b = equal a b := by
  rw [equal, equal, compare?_congr (place?_reread h) rfl]

theorem less_reread_left (h : a.Encodable) : less a.reread b = less a b := by
  rw [less, less, compare?_congr (place?_reread h) rfl]

theorem less_reread_right (h : b.Encodable) : less a b.reread = less a b := by
  rw [less, less, compare?_congr rfl (place?_reread h)]

theorem lessOrEqual_reread_left (h : a.Encodable) : lessOrEqual a.reread b = lessOrEqual a b := by
  rw [lessOrEqual, lessOrEqual, less_reread_left h, equal_reread_left h]

theorem lessOrEqual_reread_right (h : b.Encodable) : lessOrEqual a b.reread = lessOrEqual a b := by
  have hequal : equal a b.reread = equal a b := by
    rw [equal, equal, compare?_congr rfl (place?_reread h)]
  rw [lessOrEqual, lessOrEqual, less_reread_right h, hequal]

end Order

end Number

theorem Relation.holds_reread (relation : Relation) {n bound : Number} (h : n.Encodable) :
    relation.holds n.reread bound = relation.holds n bound := by
  cases relation with
  | greater => exact Number.less_reread_right h
  | atLeast => exact Number.lessOrEqual_reread_right h
  | less => exact Number.less_reread_left h
  | atMost => exact Number.lessOrEqual_reread_left h

/-! ## Validators -/

section Validators
variable {σ : Type} {functions : Scope} {s t u : Session σ} {v w : Value}

/-- A validator that gives values that are identical or equal one truth, in all sessions like `s`. -/
def Validator.Respects (functions : Scope) (s : Session σ) (validator : Validator) : Prop :=
  ∀ (v w : Value) (t u : Session σ) (b : Bool), s.Alike t → s.Alike u → w = v ∨ w.equal v = true →
    (outcome (validator.truth functions v) t).1 = .ok b →
      (outcome (validator.truth functions w) u).1 = .ok b

def Rule.AllRespect (functions : Scope) (s : Session σ) (rules : List Rule) : Prop :=
  ∀ validator description, Rule.custom validator description ∈ rules →
    validator.Respects functions s

/-- A validator accepts a value exactly if its answer is true; a failure is no acceptance. -/
theorem Validator.accepts_iff {validator : Validator} :
    (outcome (validator.accepts functions v) t).1 = .ok true ↔
      (outcome (validator.truth functions v) t).1 = .ok true := by
  rw [outcome_accepts]
  cases (outcome (validator.truth functions v) t).1 with
  | ok b => rfl
  | error e =>
    constructor
    · intro h
      rw [report, outcome_bind] at h
      generalize outcome (Engine.log _) _ = x at h
      obtain ⟨r, s⟩ := x
      cases r <;> cases h
    · intro h
      cases h

/-! ## Rules -/

namespace Rule

theorem ofNumber_eq_true_iff {condition : Number → Bool} :
    ofNumber v condition = .ok true ↔
      ∃ n, v = .number n ∧ n.testNaN = .ok false ∧ condition n = true := by
  cases v with
  | number n =>
    cases hn : n.testNaN with
    | error f => simp [ofNumber, hn, bind, Except.bind]
    | ok b => cases b <;> simp [ofNumber, hn, bind, Except.bind, pure, Except.pure]
  | _ => simp [ofNumber]

theorem ofNumber_reread {n : Number} {condition : Number → Bool} (h : n.Encodable)
    (hcondition : condition n.reread = condition n) (hn : ofNumber (.number n) condition = .ok true) :
    ofNumber (.number n.reread) condition = .ok true := by
  obtain ⟨_, he, htest, hholds⟩ := ofNumber_eq_true_iff.mp hn
  cases he
  exact ofNumber_eq_true_iff.mpr ⟨_, rfl, Number.testNaN_reread h htest, hcondition.trans hholds⟩

theorem equal_reread {n : Number} (h : n.Encodable) (x : Value) :
    (Value.number n.reread).equal x = (Value.number n).equal x := by
  cases x with
  | number m => exact Number.equal_reread_left h
  | _ => rfl

/-- A rule that holds of a number holds of the number that its literal denotes. -/
theorem check_reread {rules : List Rule} (hrules : AllRespect functions s rules) {rule : Rule}
    (hr : rule ∈ rules) {n : Number} (hn : n.Encodable) (ht : s.Alike t) (hu : s.Alike u)
    (h : (outcome (rule.check functions (.number n)) t).1 = .ok true) :
    (outcome (rule.check functions (.number n.reread)) u).1 = .ok true := by
  have number {condition : Number → Bool} (hcondition : condition n.reread = condition n)
      (h : (outcome (Engine.ofFault (ofNumber (.number n) condition)) t).1 = .ok true) :
      (outcome (Engine.ofFault (ofNumber (.number n.reread) condition)) u).1 = .ok true := by
    rw [Engine.outcome_ofFault] at h ⊢
    exact ofFault_eq_ok_iff.mpr (ofNumber_reread hn hcondition (ofFault_eq_ok_iff.mp h))
  cases rule with
  | «exists» => rfl
  | oneOf values =>
    have hany : (values.any fun allowed => (Value.number n.reread).equal allowed) =
        values.any fun allowed => (Value.number n).equal allowed := by
      simp only [equal_reread hn]
    rw [check, hany]
    exact h
  | includes values => cases h
  | between least most =>
    refine number ?_ h
    rw [Number.lessOrEqual_reread_left hn, Number.lessOrEqual_reread_right hn]
  | ofType type =>
    cases type with
    | number => exact @number (fun _ => true) rfl h
    | _ => cases h
  | compared relation bound => exact number (relation.holds_reread hn) h
  | equals value =>
    rw [check, equal_reread hn]
    exact h
  | custom validator description =>
    have hequal : (Value.number n.reread).equal (.number n) = true := Value.equal_reread_number hn
    have htruth := hrules validator description hr _ _ t u true ht hu (.inr hequal)
    exact Validator.accepts_iff.mpr (htruth (Validator.accepts_iff.mp h))
  | unknown object => cases h

theorem check_same {rules : List Rule} (hrules : AllRespect functions s rules) {rule : Rule}
    (hr : rule ∈ rules) (ht : s.Alike t) (hu : s.Alike u)
    (h : (outcome (rule.check functions v) t).1 = .ok true) :
    (outcome (rule.check functions v) u).1 = .ok true := by
  cases rule with
  | custom validator description =>
    have htruth := hrules validator description hr v v t u true ht hu (.inl rfl)
    exact Validator.accepts_iff.mpr (htruth (Validator.accepts_iff.mp h))
  | _ => exact h

/-- Rules that hold of a value hold of it when it is coerced again. -/
theorem check_respelled {rules : List Rule} (hrules : AllRespect functions s rules) {rule : Rule}
    (hr : rule ∈ rules) (hvw : Coercion.Respelled v w) (ht : s.Alike t) (hu : s.Alike u)
    (h : (outcome (rule.check functions v) t).1 = .ok true) :
    (outcome (rule.check functions w) u).1 = .ok true := by
  cases hvw with
  | same => exact check_same hrules hr ht hu h
  | number hn => exact check_reread hrules hr hn ht hu h

end Rule

/-- Each rule of a run of checks that hold holds in a session of the run. -/
theorem Passes.exists_check {rules : List Rule} (h : Passes functions v t rules u) :
    ∀ rule ∈ rules, ∃ t', t.Alike t' ∧ (outcome (rule.check functions v) t').1 = .ok true := by
  induction h with
  | nil => exact fun rule h => nomatch h
  | @cons t t' u rule rest hc _ ih =>
    refine List.forall_mem_cons.mpr ⟨⟨t, .refl t, congrArg Prod.fst hc⟩, fun rule hrule => ?_⟩
    obtain ⟨t'', halike, hcheck⟩ := ih rule hrule
    exact ⟨t'', ((Rule.keeps_check functions v _).alike hc).trans halike, hcheck⟩

/-- Rules that were checked and held of a value accept it. -/
theorem Passes.accepts_of_respect {rules : List Rule} (h : Passes functions v t rules u)
    (ht : s.Alike t) (hrules : Rule.AllRespect functions s rules) :
    ∀ rule ∈ rules, rule.Accepts functions s v := by
  intro rule hr t₂ ht₂
  obtain ⟨t₁, ht₁, hcheck⟩ := h.exists_check rule hr
  exact Rule.check_same hrules hr (ht.trans ht₁) ht₂ hcheck

end Validators
end Vetting
