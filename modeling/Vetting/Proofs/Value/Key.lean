import Vetting.Value.Equality

/-!
# Keys

Being the same key is symmetric and transitive. It is not reflexive: NaN is no key that could be found
again.
-/

namespace Vetting

theorem Binary64.Place.compare_eq_iff {p q : Binary64.Place} : p.compare q = .eq ↔ p = q := by
  cases p <;> cases q <;> simp [Binary64.Place.compare]

/-- Two numbers are equal when they lie at one place. -/
theorem Number.equal_iff {a b : Number} :
    Number.equal a b = true ↔ ∃ p, a.place? = some p ∧ b.place? = some p := by
  simp only [Number.equal, Number.compare?, bind, Option.bind, pure, beq_iff_eq]
  cases ha : a.place? with
  | none => simp
  | some p =>
    cases hb : b.place? with
    | none => simp
    | some q =>
      simp only [Option.some.injEq, Binary64.Place.compare_eq_iff, exists_eq_left']
      exact eq_comm

theorem Number.equal_symm {a b : Number} (h : Number.equal a b = true) : Number.equal b a = true := by
  obtain ⟨p, ha, hb⟩ := Number.equal_iff.mp h
  exact Number.equal_iff.mpr ⟨p, hb, ha⟩

theorem Number.equal_trans {a b c : Number} (hab : Number.equal a b = true)
    (hbc : Number.equal b c = true) : Number.equal a c = true := by
  obtain ⟨p, ha, hb⟩ := Number.equal_iff.mp hab
  obtain ⟨q, hb', hc⟩ := Number.equal_iff.mp hbc
  rw [hb] at hb'
  cases hb'
  exact Number.equal_iff.mpr ⟨p, ha, hc⟩

namespace Calendar.Moment

/-- Where a moment lies: among the local times, or in universal time. -/
def place (m : Moment) : Int ⊕ Int :=
  match m.offset with
  | none => .inl m.localMicros
  | some offset => .inr (Timestamp.mk m.localMicros offset).instant

theorem same_iff {a b : Moment} : a.same b = true ↔ a.place = b.place := by
  cases ha : a.offset <;> cases hb : b.offset <;> simp [same, place, ha, hb]

end Calendar.Moment

namespace Foreign

/-- How two objects can be the same. -/
theorem same_iff {a b : Foreign} :
    a.same b = true ↔ (∃ m n, a = moment m ∧ b = moment n ∧ m.place = n.place) ∨ a = b := by
  unfold same
  split
  case h_1 m n =>
    rw [Calendar.Moment.same_iff]
    constructor
    · exact fun h => .inl ⟨m, n, rfl, rfl, h⟩
    · rintro (⟨_, _, ⟨⟩, ⟨⟩, h⟩ | h)
      · exact h
      · rw [moment.inj h]
  case h_2 hmoments =>
    rw [beq_iff_eq]
    constructor
    · exact .inr
    · rintro (⟨m, n, rfl, rfl, _⟩ | h)
      · exact (hmoments m n rfl rfl).elim
      · exact h

theorem same_symm {a b : Foreign} (h : a.same b = true) : b.same a = true := by
  rcases same_iff.mp h with ⟨m, n, rfl, rfl, hplace⟩ | rfl
  · exact same_iff.mpr (.inl ⟨n, m, rfl, rfl, hplace.symm⟩)
  · exact h

theorem same_trans {a b c : Foreign} (hab : a.same b = true) (hbc : b.same c = true) :
    a.same c = true := by
  rcases same_iff.mp hab with ⟨m, n, rfl, rfl, hmn⟩ | rfl
  · rcases same_iff.mp hbc with ⟨_, k, ⟨⟩, rfl, hnk⟩ | rfl
    · exact same_iff.mpr (.inl ⟨m, k, rfl, rfl, hmn.trans hnk⟩)
    · exact hab
  · exact hbc

end Foreign

namespace Value

/-- How two values can be the same key. -/
inductive AgreesWith : Value → Value → Prop
  | number {a b : Value} {m n : Number} (ha : a.keyNumber? = some m) (hb : b.keyNumber? = some n)
      (h : Number.equal m n = true) : AgreesWith a b
  | array {xs ys : List Value} (h : sameKeyList xs ys = true) : AgreesWith (array xs) (array ys)
  | tuple {xs ys : List Value} (h : sameKeyList xs ys = true) : AgreesWith (tuple xs) (tuple ys)
  | foreign {x y : Foreign} (h : x.same y = true) : AgreesWith (foreign x) (foreign y)
  | null : AgreesWith null null
  | text (t : Text) : AgreesWith (text t) (text t)
  | host {f g : HostFunction} (h : f.handle = g.handle) : AgreesWith (host f) (host g)
  | builtin (b : Builtin) : AgreesWith (builtin b) (builtin b)
  | closure {serial p q : Nat} {x y : Text} {body inner : Node} {s t : Scope} :
      AgreesWith (closure serial p x body s) (closure serial q y inner t)

theorem sameKey_iff {a b : Value} : a.sameKey b = true ↔ AgreesWith a b := by
  constructor
  · intro h
    cases a <;> cases b <;> simp only [sameKey, keyNumber?, beq_iff_eq, Bool.false_eq_true] at h
    case null.null => exact .null
    case boolean.boolean => exact .number rfl rfl h
    case boolean.number => exact .number rfl rfl h
    case number.boolean => exact .number rfl rfl h
    case number.number => exact .number rfl rfl h
    case text.text => exact h ▸ .text _
    case array.array => exact .array h
    case tuple.tuple => exact .tuple h
    case foreign.foreign => exact .foreign h
    case host.host => exact .host h
    case builtin.builtin => exact h ▸ .builtin _
    case closure.closure => exact h ▸ .closure
  · intro h
    cases h with
    | @number a b m n ha hb h => 
      cases a <;> cases b <;> simp_all [sameKey, keyNumber?]
    | array h => simpa only [sameKey] using h
    | tuple h => simpa only [sameKey] using h
    | foreign h => exact h
    | null => rfl
    | _ => simp [sameKey, *]

/-- Only a text is the same key as a text. -/
theorem eq_text_of_sameKey {v : Value} {t : Text} (h : v.sameKey (text t) = true) : v = text t := by
  cases sameKey_iff.mp h with
  | number _ hb => cases hb
  | text t => rfl

@[simp] theorem sameKey_text (a b : Text) : (text a).sameKey (text b) = decide (a = b) := by
  rw [sameKey]
  rfl

mutual

theorem sameKey_symm {a b : Value} (h : a.sameKey b = true) : b.sameKey a = true := by
  cases sameKey_iff.mp h with
  | number ha hb h => exact sameKey_iff.mpr (.number hb ha (Number.equal_symm h))
  | array h => exact sameKey_iff.mpr (.array (sameKeyList_symm h))
  | tuple h => exact sameKey_iff.mpr (.tuple (sameKeyList_symm h))
  | foreign h => exact sameKey_iff.mpr (.foreign (Foreign.same_symm h))
  | null => exact h
  | text t => exact h
  | host hf => exact sameKey_iff.mpr (.host hf.symm)
  | builtin b => exact h
  | closure => exact sameKey_iff.mpr .closure
termination_by sizeOf a

theorem sameKeyList_symm {xs ys : List Value} (h : sameKeyList xs ys = true) :
    sameKeyList ys xs = true := by
  match xs, ys with
  | [], [] => rfl
  | x :: xs, y :: ys =>
    simp only [sameKeyList, Bool.and_eq_true] at h ⊢
    exact ⟨sameKey_symm h.1, sameKeyList_symm h.2⟩
termination_by sizeOf xs

end

mutual

theorem sameKey_trans {a b c : Value} (hab : a.sameKey b = true) (hbc : b.sameKey c = true) :
    a.sameKey c = true := by
  cases sameKey_iff.mp hab with
  | number ha hb h =>
    cases sameKey_iff.mp hbc with
    | number hb' hc h' =>
      rw [hb] at hb'
      cases hb'
      exact sameKey_iff.mpr (.number ha hc (Number.equal_trans h h'))
    | _ => cases hb
  | array h =>
    cases sameKey_iff.mp hbc with
    | number hb => cases hb
    | array h' => exact sameKey_iff.mpr (.array (sameKeyList_trans h h'))
  | tuple h =>
    cases sameKey_iff.mp hbc with
    | number hb => cases hb
    | tuple h' => exact sameKey_iff.mpr (.tuple (sameKeyList_trans h h'))
  | foreign h =>
    cases sameKey_iff.mp hbc with
    | number hb => cases hb
    | foreign h' => exact sameKey_iff.mpr (.foreign (Foreign.same_trans h h'))
  | host h =>
    cases sameKey_iff.mp hbc with
    | number hb => cases hb
    | host h' => exact sameKey_iff.mpr (.host (h.trans h'))
  | closure =>
    cases sameKey_iff.mp hbc with
    | number hb => cases hb
    | closure => exact sameKey_iff.mpr .closure
  | null => exact hbc
  | text t => exact hbc
  | builtin b => exact hbc
termination_by sizeOf a

theorem sameKeyList_trans {xs ys zs : List Value} (hxy : sameKeyList xs ys = true)
    (hyz : sameKeyList ys zs = true) : sameKeyList xs zs = true := by
  match xs, ys, zs with
  | [], [], [] => rfl
  | x :: xs, y :: ys, z :: zs =>
    simp only [sameKeyList, Bool.and_eq_true] at hxy hyz ⊢
    exact ⟨sameKey_trans hxy.1 hyz.1, sameKeyList_trans hxy.2 hyz.2⟩
termination_by sizeOf xs

end

end Value
end Vetting
