import Vetting.Proofs.Value.DistinctKeys
import Vetting.Proofs.Value.Fields
import Vetting.Settings

/-!
# What is found in merged settings

Merging is done path by path. Where the changes lead to a value it is found, an object merged over the
object from before; where they stop at a missing key the settings from before stand; and where a value
that is no object is in the way nothing is found.
-/

namespace Vetting

/-! ## Paths -/

namespace Text

variable {separator : CodePoint} {part rest : List CodePoint}

theorem splitPoints_append_cons (h : separator ∉ part) :
    splitPoints separator (part ++ separator :: rest) = part :: splitPoints separator rest := by
  induction part with
  | nil => rw [List.nil_append, splitPoints, if_pos rfl]
  | cons c part ih =>
    obtain ⟨hc, hpart⟩ := List.ne_and_not_mem_of_not_mem_cons h
    rw [List.cons_append, splitPoints, if_neg (Ne.symm hc), ih hpart]

theorem splitPoints_of_not_mem (h : separator ∉ part) : splitPoints separator part = [part] := by
  induction part with
  | nil => rfl
  | cons c part ih =>
    obtain ⟨hc, hpart⟩ := List.ne_and_not_mem_of_not_mem_cons h
    rw [splitPoints, if_neg (Ne.symm hc), ih hpart]

/-- Parts without the separator are read back from the text in which it stands between them. -/
theorem split_join {parts : List Text} (hne : parts ≠ []) (h : ∀ part ∈ parts, separator ∉ part.points) :
    (join (singleton separator) parts).split separator = parts := by
  induction parts with
  | nil => exact absurd rfl hne
  | cons part parts ih =>
    obtain ⟨hpart, hparts⟩ := List.forall_mem_cons.mp h
    cases parts with
    | nil => rw [join, split, splitPoints_of_not_mem hpart, List.map_singleton]
    | cons next parts =>
      have hpoints : (join (singleton separator) (part :: next :: parts)).points =
          part.points ++ separator :: (join (singleton separator) (next :: parts)).points := by
        simp [join, singleton]
      rw [split, hpoints, splitPoints_append_cons hpart, List.map_cons, ← split,
        ih (List.cons_ne_nil _ _) hparts]

end Text

namespace Settings

/-- Where a walk along a path of keys ends: it arrives at a value, it stops at a key that an object on the
way does not have, or at a value on the way that is no object. -/
inductive Walk where
  | arrives (v : Value)
  | missing
  | blocked

def walk (v : Value) : List Text → Walk
  | [] => .arrives v
  | key :: path =>
    match v with
    | .object fields =>
      match Fields.field? fields key with
      | some inner => walk inner path
      | none => .missing
    | _ => .blocked

def Walk.found : Walk → Option Value
  | arrives v => some v
  | missing | blocked => none

section Merging
variable {fields changes : Fields} {key v : Value} {path : List Text}

theorem find?_eq_found (v : Value) (path : List Text) : find? v path = (walk v path).found := by
  induction path generalizing v with
  | nil => rfl
  | cons key path ih =>
    cases v with
    | object fields =>
      simp only [find?, walk]
      cases Fields.field? fields key with
      | none => rfl
      | some inner => exact ih inner
    | _ => rfl

theorem mergeValue_of_not_object {old : Option Value} (hold : ∀ fields, old ≠ some (.object fields))
    (v : Value) : mergeValue old v = v := by
  cases v with
  | object changes =>
    cases old with
    | none => rfl
    | some w =>
      cases w with
      | object fields => exact absurd rfl (hold fields)
      | _ => rfl
  | _ => rfl

/-- Nothing is found under a key that a field of another key stands for. -/
theorem get?_eq_none_of_sameKey {k : Value} (hk : ∀ l ∈ changes.map Prod.fst, k.sameKey l = false)
    (hsame : k.sameKey key = true) : changes.get? key = none := by
  cases hget : changes.get? key with
  | none => rfl
  | some w =>
    obtain ⟨l, hmem, hl⟩ := Fields.exists_mem_of_get? hget
    have hother := hk l (List.mem_map_of_mem hmem)
    rw [Value.sameKey_trans hsame (Value.sameKey_symm hl)] at hother
    cases hother

/-- A key of the changes has the merged value, any other key the value from before. -/
theorem get?_merge (hkeys : (changes.map Prod.fst).Pairwise fun k l => k.sameKey l = false) :
    (merge fields changes).get? key =
      match changes.get? key with
      | some v => some (mergeValue (fields.get? key) v)
      | none => fields.get? key := by
  induction changes generalizing fields with
  | nil => rfl
  | cons change rest ih =>
    obtain ⟨k, v⟩ := change
    rw [List.map_cons, List.pairwise_cons] at hkeys
    obtain ⟨hk, hrest⟩ := hkeys
    rw [merge, ih hrest, Fields.get?_put, Fields.get?]
    by_cases hsame : k.sameKey key = true
    · rw [get?_eq_none_of_sameKey hk hsame, if_pos hsame, if_pos hsame, Fields.get?_congr fields hsame]
    · rw [if_neg hsame, if_neg hsame]

def Walk.over (old : Option Value) : Walk → Option Value
  | arrives v => some (mergeValue old v)
  | missing => old
  | blocked => none

/-- What is no object has nothing below it, so it is replaced as a whole. -/
theorem find?_eq_over_of_not_object {old : Option Value}
    (hold : ∀ fields, old ≠ some (.object fields)) (v : Value) (path : List Text) :
    find? v path = (walk v path).over (old.bind fun w => find? w path) := by
  cases path with
  | nil =>
    have hbind : (old.bind fun w => find? w []) = old := by cases old <;> rfl
    rw [hbind, find?, walk, Walk.over, mergeValue_of_not_object hold]
  | cons key path =>
    have hbind : (old.bind fun w => find? w (key :: path)) = none := by
      cases old with
      | none => rfl
      | some w =>
        cases w with
        | object fields => exact absurd rfl (hold fields)
        | _ => rfl
    rw [hbind, find?_eq_found]
    cases walk v (key :: path) with
    | arrives w => rw [Walk.over, mergeValue_of_not_object (by simp), Walk.found]
    | missing => rfl
    | blocked => rfl

theorem find?_merge (hkeys : (Value.object changes).DistinctKeys) (path : List Text) :
    find? (.object (merge fields changes)) path =
      (walk (.object changes) path).over (find? (.object fields) path) := by
  induction path generalizing fields changes with
  | nil => rw [find?, walk, Walk.over, find?, mergeValue]
  | cons key path ih =>
    rw [Value.DistinctKeys] at hkeys
    obtain ⟨hdistinct, hnested⟩ := hkeys
    have hbefore : find? (.object fields) (key :: path) =
        (Fields.field? fields key).bind fun w => find? w path := by
      rw [find?]
      cases Fields.field? fields key <;> rfl
    rw [hbefore, find?, walk, Fields.field?, get?_merge hdistinct, Fields.field?, Fields.field?]
    cases hget : changes.get? (.text key) with
    | none => cases fields.get? (.text key) <;> rfl
    | some v =>
      cases v with
      | object inner =>
        cases hold : fields.get? (.text key) with
        | none => exact find?_eq_over_of_not_object (by simp) (.object inner) path
        | some old =>
          cases old with
          | object outer => exact ih (Value.distinctKeys_of_get? hnested hget)
          | _ => exact find?_eq_over_of_not_object (by simp) (.object inner) path
      | _ => cases path <;> rfl

/-- A path is looked up by its keys. -/
theorem nested?_join (hne : path ≠ []) (hdots : ∀ key ∈ path, 46 ∉ key.points) (settings : Fields) :
    nested? settings (Text.join "." path) = find? (.object settings) path :=
  congrArg (find? (.object settings)) (Text.split_join hne hdots)

/-- Under a path of keys without dots merged settings have the value that the changes have there, if it is
no object; an object that they have there merged over the object from before, or just that object if there
was none; what was there before, if the changes stop at a missing key; and nothing, if the changes have a
value that is no object at a shorter path. -/
theorem nested_merge {base override : Fields} (hkeys : (Value.object override).DistinctKeys)
    (hne : path ≠ []) (hdots : ∀ key ∈ path, 46 ∉ key.points) (default : Value) :
    nested (merge base override) (Text.join "." path) default =
      match walk (.object override) path with
      | .arrives (.object changes) =>
        match nested? base (Text.join "." path) with
        | some (.object fields) => .object (merge fields changes)
        | _ => .object changes
      | .arrives v => v
      | .missing => nested base (Text.join "." path) default
      | .blocked => default := by
  rw [nested, nested, nested?_join hne hdots, nested?_join hne hdots, find?_merge hkeys]
  cases walk (.object override) path with
  | arrives v =>
    cases v with
    | object changes =>
      rw [Walk.over, Option.getD_some]
      cases find? (.object base) path with
      | none => rfl
      | some w => cases w <;> rfl
    | _ => rfl
  | missing => rfl
  | blocked => rfl

end Merging

/-! ## A scalar and an object in each other's place -/

def scalarBase : Fields :=
  [(.text "a", .object [(.text "b", .integer 1), (.text "x", .null)]), (.text "c", .integer 5)]

def nestedOverride : Fields :=
  [(.text "a", .object [(.text "b", .integer 2)]), (.text "c", .object [(.text "d", .boolean true)])]

theorem distinctKeys_nestedOverride : (Value.object nestedOverride).DistinctKeys :=
  ⟨by decide, ⟨by decide, trivial, trivial⟩, ⟨by decide, trivial, trivial⟩, trivial⟩

/-- Of `a` both objects are seen, and `c` is replaced by an object, below which nothing of the number is
left. -/
theorem nested_scalarBase_merge :
    (Value.object nestedOverride).DistinctKeys ∧
      nested (merge scalarBase nestedOverride) "a.b" (.text "none") = .integer 2 ∧
      nested (merge scalarBase nestedOverride) "a.x" (.text "none") = .null ∧
      nested (merge scalarBase nestedOverride) "a.b.e" (.text "none") = .text "none" ∧
      nested (merge scalarBase nestedOverride) "c" (.text "none") =
        .object [(.text "d", .boolean true)] := by
  have merged := fun path hne hdots =>
    @nested_merge path scalarBase nestedOverride distinctKeys_nestedOverride hne hdots (.text "none")
  refine ⟨distinctKeys_nestedOverride, ?_, ?_, ?_, ?_⟩
  · exact merged ["a", "b"] (by decide) (by decide)
  · exact merged ["a", "x"] (by decide) (by decide)
  · exact merged ["a", "b", "e"] (by decide) (by decide)
  · exact merged ["c"] (by decide) (by decide)

end Settings
end Vetting
