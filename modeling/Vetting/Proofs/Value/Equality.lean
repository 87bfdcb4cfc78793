import Mathlib.Data.List.Forall2
import Mathlib.Data.List.Perm.Subperm
import Vetting.Proofs.Value.Fields

/-!
# Equal values

Equality of values is transitive. It is symmetric and reflexive on definite values: model values without
NaN, whose objects hold each key once. Two objects are equal when they hold equal values under the same
keys, in whatever order.
-/

namespace Vetting

/-! ## Numbers -/

theorem Number.equal_refl {n : Number} (h : n ≠ .float .nan) : Number.equal n n = true := by
  rw [Number.equal_iff]
  cases n with
  | integer i => exact ⟨_, rfl, rfl⟩
  | float x =>
    cases x with
    | nan => exact absurd rfl h
    | infinite negative => exact ⟨_, rfl, rfl⟩
    | finite negative m p hc => exact ⟨_, rfl, rfl⟩

namespace Value

/-! ## How values are equal -/

theorem equalList_iff {xs ys : List Value} :
    equalList xs ys = true ↔ List.Forall₂ (fun x y => x.equal y = true) xs ys := by
  induction xs generalizing ys with
  | nil => cases ys <;> simp [equalList]
  | cons x xs ih => cases ys <;> simp [equalList, ih]

/-- Whether each field has an equal value among other fields. -/
def Included (xs ys : Fields) : Prop :=
  ∀ k v, (k, v) ∈ xs → ∃ w, ys.get? k = some w ∧ v.equal w = true

theorem equalFields_iff {xs ys : Fields} : equalFields xs ys = true ↔ Included xs ys := by
  induction xs with
  | nil => simp [equalFields, Included]
  | cons field rest ih =>
    obtain ⟨k, v⟩ := field
    have hfirst : equalFields [(k, v)] ys = true ↔ ∃ w, ys.get? k = some w ∧ v.equal w = true := by
      rw [equalFields]
      cases ys.get? k <;> simp [equalFields]
    have hcons : equalFields ((k, v) :: rest) ys = (equalFields [(k, v)] ys && equalFields rest ys) := by
      simp only [equalFields, Bool.and_true]
    rw [hcons, Bool.and_eq_true, hfirst, ih]
    constructor
    · rintro ⟨hv, hrest⟩ k' v' hmem
      rcases List.mem_cons.mp hmem with he | hmem
      · cases he
        exact hv
      · exact hrest k' v' hmem
    · intro h
      exact ⟨h k v List.mem_cons_self, fun k' v' hmem => h k' v' (List.mem_cons_of_mem _ hmem)⟩

/-- How two values can be equal. -/
inductive EqualTo : Value → Value → Prop
  | null : EqualTo null null
  | boolean (b : Bool) : EqualTo (boolean b) (boolean b)
  | number {m n : Number} (h : Number.equal m n = true) : EqualTo (number m) (number n)
  | text (t : Text) : EqualTo (text t) (text t)
  | items {a b : Value} {xs ys : List Value} (ha : a.items? = some xs) (hb : b.items? = some ys)
      (h : List.Forall₂ (fun x y => x.equal y = true) xs ys) : EqualTo a b
  | object {xs ys : Fields} (hlength : xs.length = ys.length) (h : Included xs ys) :
      EqualTo (object xs) (object ys)
  | foreign {x y : Foreign} (h : x.same y = true) : EqualTo (foreign x) (foreign y)
  | host {f g : HostFunction} (h : f.handle = g.handle) : EqualTo (host f) (host g)
  | builtin (b : Builtin) : EqualTo (builtin b) (builtin b)
  | closure {serial p q : Nat} {x y : Text} {body inner : Node} {s t : Scope} :
      EqualTo (closure serial p x body s) (closure serial q y inner t)

theorem equal_iff {a b : Value} : a.equal b = true ↔ EqualTo a b := by
  constructor
  · intro h
    cases a <;> cases b <;> simp only [equal, items?, equalList_iff, equalFields_iff, beq_iff_eq,
      Bool.and_eq_true, Bool.false_eq_true] at h
    case null.null => exact .null
    case boolean.boolean => exact h ▸ .boolean _
    case number.number => exact .number h
    case text.text => exact h ▸ .text _
    case array.array => exact .items rfl rfl h
    case array.tuple => exact .items rfl rfl h
    case tuple.array => exact .items rfl rfl h
    case tuple.tuple => exact .items rfl rfl h
    case object.object => exact .object h.1 h.2
    case foreign.foreign => exact .foreign h
    case host.host => exact .host h
    case builtin.builtin => exact h ▸ .builtin _
    case closure.closure => exact h ▸ .closure
  · intro h
    cases h with
    | @items a b xs ys ha hb h =>
      cases a <;> cases ha <;> simpa only [equal, hb] using equalList_iff.mpr h
    | object hlength h => simpa [equal, hlength] using equalFields_iff.mpr h
    | number h => exact h
    | foreign h => exact h
    | _ => simp [equal, *]

theorem items_of_equal {a b : Value} {xs : List Value} (ha : a.items? = some xs) (h : EqualTo a b) :
    ∃ ys, b.items? = some ys ∧ List.Forall₂ (fun x y => x.equal y = true) xs ys := by
  cases h with
  | items ha' hb h =>
    cases ha.symm.trans ha'
    exact ⟨_, hb, h⟩
  | _ => cases ha

theorem sizeOf_lt_of_mem_items {a x : Value} {xs : List Value} (ha : a.items? = some xs) (hx : x ∈ xs) :
    sizeOf x < sizeOf a := by
  have hlt := List.sizeOf_lt_of_mem hx
  cases a <;> cases ha <;> simp only [array.sizeOf_spec, tuple.sizeOf_spec] <;> omega

theorem sizeOf_lt_of_mem_fields {k v : Value} {fields : Fields} (h : (k, v) ∈ fields) :
    sizeOf v < sizeOf (object fields) := by
  have hlt := List.sizeOf_lt_of_mem h
  simp only [object.sizeOf_spec, Prod.mk.sizeOf_spec] at hlt ⊢
  omega

/-! ## Transitivity -/

theorem forall₂_trans_of_mem {R : Value → Value → Prop} {xs ys zs : List Value}
    (ih : ∀ x ∈ xs, ∀ y z, R x y → R y z → R x z) (hxy : List.Forall₂ R xs ys)
    (hyz : List.Forall₂ R ys zs) : List.Forall₂ R xs zs := by
  induction hxy generalizing zs with
  | nil => exact hyz
  | cons h _ hrest =>
    cases hyz with
    | cons h' hyz =>
      obtain ⟨hx, hxs⟩ := List.forall_mem_cons.mp ih
      exact .cons (hx _ _ h h') (hrest hxs hyz)

theorem Included.trans {xs ys zs : Fields}
    (ih : ∀ k v, (k, v) ∈ xs → ∀ w x, v.equal w = true → w.equal x = true → v.equal x = true)
    (hxy : Included xs ys) (hyz : Included ys zs) : Included xs zs := by
  intro k v hmem
  obtain ⟨w, hw, hvw⟩ := hxy k v hmem
  obtain ⟨k', hmem', hsame⟩ := Fields.exists_mem_of_get? hw
  obtain ⟨x, hx, hwx⟩ := hyz k' w hmem'
  exact ⟨x, (Fields.get?_congr zs hsame).symm.trans hx, ih k v hmem w x hvw hwx⟩

theorem equal_trans {a b c : Value} (hab : a.equal b = true) (hbc : b.equal c = true) :
    a.equal c = true := by
  rw [equal_iff] at hab hbc ⊢
  cases hab with
  | number h =>
    cases hbc with
    | number h' => exact .number (Number.equal_trans h h')
    | items hb => cases hb
  | items ha hb h =>
    obtain ⟨zs, hc, h'⟩ := items_of_equal hb hbc
    refine .items ha hc (forall₂_trans_of_mem ?_ h h')
    intro x hx y z hxy hyz
    have := sizeOf_lt_of_mem_items ha hx
    exact equal_trans hxy hyz
  | object hlength h =>
    cases hbc with
    | items hb => cases hb
    | object hlength' h' =>
      refine .object (hlength.trans hlength') (h.trans ?_ h')
      intro k v hmem w x hvw hwx
      have := sizeOf_lt_of_mem_fields hmem
      exact equal_trans hvw hwx
  | foreign h =>
    cases hbc with
    | foreign h' => exact .foreign (Foreign.same_trans h h')
    | items hb => cases hb
  | host h =>
    cases hbc with
    | host h' => exact .host (h.trans h')
    | items hb => cases hb
  | closure =>
    cases hbc with
    | closure => exact .closure
    | items hb => cases hb
  | null => exact hbc
  | boolean => exact hbc
  | text => exact hbc
  | builtin => exact hbc
termination_by sizeOf a

/-! ## Definite values -/

mutual

/-- Whether a value is a model value without NaN. Its objects hold each of their keys once, as those of
records and expressions do. -/
def Definite : Value → Prop
  | null | boolean _ | text _ => True
  | number n => n ≠ .float .nan
  | array items | tuple items => DefiniteList items
  | object fields =>
    fields.Pairwise (fun a b => a.1.sameKey b.1 = false) ∧ DefiniteFields fields
  | foreign _ | host _ | builtin _ | closure .. => False

def DefiniteList : List Value → Prop
  | [] => True
  | v :: vs => Definite v ∧ DefiniteList vs

def DefiniteFields : Fields → Prop
  | [] => True
  | (k, v) :: rest => k.isText = true ∧ Definite v ∧ DefiniteFields rest

end

theorem definiteList_iff {vs : List Value} : DefiniteList vs ↔ ∀ v ∈ vs, v.Definite := by
  induction vs with
  | nil => simp [DefiniteList]
  | cons v vs ih => simp [DefiniteList, ih]

theorem definiteFields_iff {fields : Fields} :
    DefiniteFields fields ↔ ∀ k v, (k, v) ∈ fields → k.isText = true ∧ v.Definite := by
  induction fields with
  | nil => simp [DefiniteFields]
  | cons field rest ih =>
    obtain ⟨k, v⟩ := field
    rw [DefiniteFields, ih]
    grind

theorem Definite.of_items {a : Value} {xs : List Value} (h : a.Definite) (ha : a.items? = some xs) :
    ∀ x ∈ xs, x.Definite := by
  cases a <;> cases ha <;> simpa only [Definite, definiteList_iff] using h

theorem sameKey_self_of_isText {k : Value} (h : k.isText = true) : k.sameKey k = true := by
  cases k with
  | text t => simp
  | _ => cases h

theorem eq_of_sameKey_of_isText {k l : Value} (hl : l.isText = true) (h : k.sameKey l = true) : k = l := by
  cases l with
  | text t => exact eq_text_of_sameKey h
  | _ => cases hl

/-! ## Reflexivity and symmetry -/

theorem equal_refl {v : Value} (h : v.Definite) : v.equal v = true := by
  rw [equal_iff]
  have hitems {xs : List Value} (hv : v.items? = some xs) : EqualTo v v := by
    refine .items hv hv (List.forall₂_same.mpr ?_)
    intro x hx
    have := sizeOf_lt_of_mem_items hv hx
    exact equal_refl (h.of_items hv x hx)
  cases v with
  | null => exact .null
  | boolean b => exact .boolean b
  | text t => exact .text t
  | number n => exact .number (Number.equal_refl h)
  | array items => exact hitems rfl
  | tuple items => exact hitems rfl
  | object fields =>
    rw [Definite, definiteFields_iff] at h
    obtain ⟨hdistinct, hfields⟩ := h
    refine .object rfl fun k v hmem => ?_
    have := sizeOf_lt_of_mem_fields hmem
    obtain ⟨hk, hv⟩ := hfields k v hmem
    exact ⟨v, Fields.get?_of_mem hdistinct (sameKey_self_of_isText hk) hmem, equal_refl hv⟩
  | _ => cases h
termination_by sizeOf v

theorem forall₂_symm_of_mem {R : Value → Value → Prop} {xs ys : List Value}
    (ih : ∀ x ∈ xs, ∀ y ∈ ys, R x y → R y x) (h : List.Forall₂ R xs ys) : List.Forall₂ R ys xs := by
  induction h with
  | nil => exact .nil
  | cons h _ hrest =>
    refine .cons (ih _ List.mem_cons_self _ List.mem_cons_self h) (hrest ?_)
    intro x hx y hy
    exact ih x (List.mem_cons_of_mem _ hx) y (List.mem_cons_of_mem _ hy)

/-- Objects with as many keys, the keys of one being keys of the other, have the same keys. -/
theorem mem_keys_of_included {xs ys : Fields} (hx : DefiniteFields xs)
    (hdistinct : xs.Pairwise fun a b => a.1.sameKey b.1 = false) (hlength : xs.length = ys.length)
    (h : Included xs ys) {k : Value} (hk : k ∈ ys.map Prod.fst) : k ∈ xs.map Prod.fst := by
  rw [definiteFields_iff] at hx
  have hnodup : (xs.map Prod.fst).Nodup := by
    refine List.pairwise_map.mpr (hdistinct.imp_of_mem ?_)
    intro a b ha _ hab heq
    rw [← heq, sameKey_self_of_isText (hx a.1 a.2 ha).1] at hab
    cases hab
  have hsubset : xs.map Prod.fst ⊆ ys.map Prod.fst := by
    intro l hl
    obtain ⟨⟨_, v⟩, hmem, rfl⟩ := List.mem_map.mp hl
    obtain ⟨w, hw, _⟩ := h _ v hmem
    obtain ⟨l', hmem', hsame⟩ := Fields.exists_mem_of_get? hw
    obtain rfl := eq_of_sameKey_of_isText (hx _ v hmem).1 hsame
    exact List.mem_map.mpr ⟨(_, w), hmem', rfl⟩
  have hperm := (List.subperm_of_subset hnodup hsubset).perm_of_length_le (by simp [hlength])
  exact hperm.mem_iff.mpr hk

theorem Included.symm {xs ys : Fields} (hx : DefiniteFields xs) (hy : DefiniteFields ys)
    (hdx : xs.Pairwise fun a b => a.1.sameKey b.1 = false)
    (hdy : ys.Pairwise fun a b => a.1.sameKey b.1 = false) (hlength : xs.length = ys.length)
    (ih : ∀ k v, (k, v) ∈ xs → ∀ w, w.Definite → v.equal w = true → w.equal v = true)
    (h : Included xs ys) : Included ys xs := by
  intro k w hmem
  obtain ⟨hk, hw⟩ := definiteFields_iff.mp hy k w hmem
  obtain ⟨⟨_, v⟩, hfield, rfl⟩ :=
    List.mem_map.mp (mem_keys_of_included hx hdx hlength h (List.mem_map_of_mem hmem))
  obtain ⟨w', hw', hvw⟩ := h _ v hfield
  obtain rfl : w = w' :=
    Option.some.inj ((Fields.get?_of_mem hdy (sameKey_self_of_isText hk) hmem).symm.trans hw')
  exact ⟨v, Fields.get?_of_mem hdx (sameKey_self_of_isText hk) hfield, ih _ v hfield w hw hvw⟩

theorem equal_symm {a b : Value} (ha : a.Definite) (hb : b.Definite) (h : a.equal b = true) :
    b.equal a = true := by
  rw [equal_iff] at h ⊢
  cases h with
  | number h => exact .number (Number.equal_symm h)
  | items hx hy h =>
    refine .items hy hx (forall₂_symm_of_mem ?_ h)
    intro x hmem y hmem' hxy
    have := sizeOf_lt_of_mem_items hx hmem
    exact equal_symm (ha.of_items hx x hmem) (hb.of_items hy y hmem') hxy
  | object hlength h =>
    rw [Definite] at ha hb
    refine .object hlength.symm (h.symm ha.2 hb.2 ha.1 hb.1 hlength ?_)
    intro k v hmem w hw hvw
    have := sizeOf_lt_of_mem_fields hmem
    exact equal_symm (definiteFields_iff.mp ha.2 k v hmem).2 hw hvw
  | foreign h => exact .foreign (Foreign.same_symm h)
  | host h => exact .host h.symm
  | closure => exact .closure
  | null => exact .null
  | boolean b => exact .boolean b
  | text t => exact .text t
  | builtin b => exact .builtin b
termination_by sizeOf a

end Value
end Vetting
