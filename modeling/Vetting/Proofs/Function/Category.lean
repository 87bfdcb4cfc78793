import Mathlib.Data.List.Induction
import Mathlib.Data.List.Nodup
import Mathlib.Data.List.Perm.Basic
import Vetting.Proofs.Function.Registry

/-!
# Categories of functions

Each function of a registry is in one category, once. So the page about a registry, which goes through the
categories and the names in each of them, has one entry for each function.
-/

namespace Vetting

/-- A registration with the description that is given, or else the one that the function brings along. -/
def Registration.given (name : Text) (function : Value) (description category : Text) (builtin : Bool) :
    Registration :=
  ⟨name, function, if description.isEmpty then Registry.ownDescription function else description, category,
    builtin⟩

namespace Registry

variable {registry : Registry} {e : Registration} {category t : Text}

def extend (registry : Registry) (e : Registration) : Registry :=
  { registry with entries := registry.entries ++ [e] }

/-- A registry whose functions were registered one after the other. -/
def Sound (registry : Registry) : Prop := Registrable [] registry.functions

theorem Sound.nodup (h : registry.Sound) : registry.names.Nodup := by
  have hnames := h.1
  rwa [List.nil_append, functions, List.map_map] at hnames

theorem sound_empty (name : Text) : (empty name).Sound := ⟨List.nodup_nil, fun _ h => (nomatch h)⟩

theorem Sound.add (h : registry.Sound) {registry' : Registry} {name function : Value}
    {description category : Text} {builtin : Bool}
    (hadd : registry.add name function description category builtin = .ok registry') : registry'.Sound := by
  obtain ⟨t, -, hfunctions, hmore⟩ := h.concat (List.nil_append _).symm hadd
  rw [Sound, hfunctions]
  exact hmore

/-- A registration that succeeds puts one function behind those that are there. -/
theorem eq_extend_of_add {registry' : Registry} {name function : Value} {description category : Text}
    {builtin : Bool} (hadd : registry.add name function description category builtin = .ok registry') :
    ∃ t, name = .text t ∧ registry' = registry.extend (.given t function description category builtin) := by
  unfold add at hadd
  cases name with
  | text t =>
    dsimp only at hadd
    split at hadd
    · cases hadd
    split at hadd
    · cases hadd
    split at hadd
    · cases hadd
    cases hadd
    exact ⟨t, rfl, rfl⟩
  | _ => cases hadd

/-- A function of a sound registry could be registered after those before it. -/
theorem Sound.fresh {name : Text} {before after : List Registration}
    (h : Sound ⟨name, before ++ e :: after⟩) :
    e.name.isEmpty = false ∧ e.function.isCallable = true ∧ (⟨name, before⟩ : Registry).has e.name = false := by
  have hnodup := h.nodup
  obtain ⟨hempty, hcallable⟩ := h.2 (e.name, e.function)
    (List.mem_map_of_mem (List.mem_append_right _ List.mem_cons_self))
  refine ⟨hempty, hcallable, Bool.eq_false_iff.mpr fun hhas => ?_⟩
  obtain ⟨f, hf, hname⟩ := List.any_eq_true.mp hhas
  rw [names, List.map_append, List.map_cons] at hnodup
  refine List.disjoint_of_nodup_append hnodup (List.mem_map_of_mem hf) ?_
  rw [of_decide_eq_true hname]
  exact List.mem_cons_self

/-! ## Distinct texts -/

theorem distinctTexts_concat (texts : List Text) (t : Text) : distinctTexts (texts ++ [t]) =
    if t ∈ distinctTexts texts then distinctTexts texts else distinctTexts texts ++ [t] := by
  rw [distinctTexts, List.foldl_append]
  rfl

@[simp] theorem mem_distinctTexts {texts : List Text} : t ∈ distinctTexts texts ↔ t ∈ texts := by
  induction texts using List.reverseRecOn with
  | nil => rfl
  | append_singleton texts u ih =>
    rw [distinctTexts_concat]
    split
    · rename_i hu
      rw [List.mem_append, ih, List.mem_singleton]
      refine ⟨.inl, ?_⟩
      rintro (h | rfl)
      · exact h
      · exact ih.mp hu
    · rw [List.mem_append, List.mem_append, ih]

theorem nodup_distinctTexts (texts : List Text) : (distinctTexts texts).Nodup := by
  induction texts using List.reverseRecOn with
  | nil => exact .nil
  | append_singleton texts u ih =>
    rw [distinctTexts_concat]
    split
    · exact ih
    · rename_i hu
      exact ih.append (List.nodup_singleton u) (List.disjoint_singleton.mpr hu)

/-! ## One function more -/

theorem functions_extend (registry : Registry) (e : Registration) :
    (registry.extend e).functions = registry.functions ++ [(e.name, e.function)] := List.map_append

theorem categories_extend (registry : Registry) (e : Registration) : (registry.extend e).categories =
    if e.category ∈ registry.categories then registry.categories
    else registry.categories ++ [e.category] := by
  rw [categories, extend, List.map_append]
  exact distinctTexts_concat _ _

theorem inCategory_extend (registry : Registry) (e : Registration) (category : Text) :
    (registry.extend e).inCategory category =
      registry.inCategory category ++ if e.category = category then [e.name] else [] := by
  rw [inCategory, inCategory, extend, List.filter_append, List.map_append]
  congr 1
  split <;> simp [*]

/-! ## Each name is in one category -/

theorem mem_categories_iff : category ∈ registry.categories ↔ ∃ e ∈ registry.entries, e.category = category := by
  rw [categories, mem_distinctTexts, List.mem_map]

theorem mem_inCategory_iff :
    t ∈ registry.inCategory category ↔ ∃ e ∈ registry.entries, e.category = category ∧ e.name = t := by
  simp [inCategory, and_assoc]

theorem inCategory_eq_nil (h : category ∉ registry.categories) : registry.inCategory category = [] := by
  refine List.eq_nil_iff_forall_not_mem.mpr fun t ht => h ?_
  obtain ⟨e, he, hcategory, -⟩ := mem_inCategory_iff.mp ht
  exact mem_categories_iff.mpr ⟨e, he, hcategory⟩

theorem eq_of_name_eq (h : registry.names.Nodup) {e f : Registration} (he : e ∈ registry.entries)
    (hf : f ∈ registry.entries) (hname : e.name = f.name) : e = f :=
  List.inj_on_of_nodup_map h he hf hname

theorem nodup_inCategory (h : registry.names.Nodup) (category : Text) :
    (registry.inCategory category).Nodup :=
  h.sublist (List.filter_sublist.map _)

/-- A name is listed once in its category and in no other. -/
theorem count_inCategory (h : registry.names.Nodup) (he : e ∈ registry.entries) (category : Text) :
    (registry.inCategory category).count e.name = if category = e.category then 1 else 0 := by
  split
  · rename_i hcategory
    exact List.count_eq_one_of_mem (nodup_inCategory h category)
      (mem_inCategory_iff.mpr ⟨e, he, hcategory.symm, rfl⟩)
  · rename_i hcategory
    refine List.count_eq_zero.mpr fun hmem => hcategory ?_
    obtain ⟨f, hf, rfl, hname⟩ := mem_inCategory_iff.mp hmem
    rw [eq_of_name_eq h hf he hname]

/-- The names in the order of the page about a registry are its names. -/
theorem perm_documented (h : registry.names.Nodup) :
    ((Text.sort registry.categories).flatMap fun category =>
      Text.sort (registry.inCategory category)).Perm registry.names := by
  have hcategories : (Text.sort registry.categories).Perm registry.categories := List.mergeSort_perm _ _
  have hnames (category : Text) : (Text.sort (registry.inCategory category)).Perm
    (registry.inCategory category) := List.mergeSort_perm _ _
  have hdisjoint : (registry.categories.flatMap registry.inCategory).Nodup := by
    refine List.nodup_flatMap.mpr ⟨fun category _ => nodup_inCategory h category, ?_⟩
    refine (nodup_distinctTexts _).imp fun hne t ht hu => hne ?_
    obtain ⟨e, he, rfl, hname⟩ := mem_inCategory_iff.mp ht
    obtain ⟨f, hf, rfl, rfl⟩ := mem_inCategory_iff.mp hu
    rw [eq_of_name_eq h he hf hname]
  refine (List.Perm.flatMap hcategories fun category _ => hnames category).trans ?_
  refine (List.perm_ext_iff_of_nodup hdisjoint h).mpr fun t => ?_
  simp only [List.mem_flatMap, mem_inCategory_iff, names, List.mem_map]
  constructor
  · rintro ⟨_, _, e, he, _, hname⟩
    exact ⟨e, he, hname⟩
  · rintro ⟨e, he, hname⟩
    exact ⟨e.category, mem_categories_iff.mpr ⟨e, he, rfl⟩, e, he, rfl, hname⟩

/-! ## Documentation -/

def entriesOf (registry : Registry) (category : Text) : List Registration :=
  (Text.sort (registry.inCategory category)).filterMap registry.get?

theorem exists_get? (ht : t ∈ registry.inCategory category) : ∃ e, registry.get? t = some e ∧ e.name = t := by
  obtain ⟨e, he, -, hname⟩ := mem_inCategory_iff.mp ht
  obtain ⟨f, hf⟩ := Option.isSome_iff_exists.mp
    (List.find?_isSome.mpr ⟨e, he, decide_eq_true hname⟩ : (registry.get? t).isSome)
  exact ⟨f, hf, by simpa using List.find?_some hf⟩

theorem mem_sort {texts : List Text} : t ∈ Text.sort texts ↔ t ∈ texts := (List.mergeSort_perm _ _).mem_iff

/-- The entries of a category are those of its names. -/
theorem map_name_entriesOf (registry : Registry) (category : Text) :
    (registry.entriesOf category).map (·.name) = Text.sort (registry.inCategory category) := by
  have hname (t : Text) (ht : t ∈ Text.sort (registry.inCategory category)) :
      (registry.get? t).map (·.name) = some t := by
    obtain ⟨e, he, hname⟩ := exists_get? (mem_sort.mp ht)
    rw [he, Option.map_some, hname]
  rw [entriesOf, List.map_filterMap, List.filterMap_congr hname, List.filterMap_some]

theorem categoryLines_eq (registry : Registry) (category : Text) : registry.categoryLines category =
    ("\n## " ++ category.toTitle ++ "\n" : Text) :: (registry.entriesOf category).flatMap entryLines := by
  rw [categoryLines, entriesOf, List.filterMap_eq_flatMap_toList, List.flatMap_assoc]
  rfl

end Registry
end Vetting
