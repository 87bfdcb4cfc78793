import Vetting.Function.Tables
import Vetting.Proofs.Function.Category
import Vetting.Proofs.Outcome

/-!
# The tables of a registry

The tables of a registry hold its functions, each category with a list of its own. A function that is
registered is new to all three tables, and the lists that other registries have are kept. So the tables
are in step, and the page about the registry can be written from them.
-/

namespace Vetting

/-! ## Tables by name -/

namespace Table

variable {α : Type} {table : Table α} {name : Text} {a : α}

theorem lookup_eq_none_iff : table.lookup name = none ↔ name ∉ table.map (·.1) := by
  rw [List.lookup_eq_none_iff, List.mem_map]
  simp only [bne_iff_ne, ne_eq, not_exists, not_and]
  exact forall₂_congr fun p _ => not_congr eq_comm

theorem put_of_lookup_eq_none (h : table.lookup name = none) (a : α) :
    table.put name a = table ++ [(name, a)] := by
  rw [lookup_eq_none_iff] at h
  induction table with
  | nil => rfl
  | cons p rest ih =>
    have hne : p.1 ≠ name := fun heq => h (heq ▸ List.mem_cons_self)
    rw [put, if_neg hne, ih fun hmem => h (List.mem_cons_of_mem _ hmem), List.cons_append]

theorem lookup_of_mem (hnodup : (table.map (·.1)).Nodup) (h : (name, a) ∈ table) :
    table.lookup name = some a := by
  obtain ⟨before, after, rfl⟩ := List.append_of_mem h
  refine List.lookup_eq_some_iff.mpr ⟨before, after, rfl, fun p hp => bne_iff_ne.mpr ?_⟩
  rintro rfl
  rw [List.map_append, List.map_cons] at hnodup
  exact (List.disjoint_of_nodup_append hnodup) (List.mem_map_of_mem hp) List.mem_cons_self

theorem mem_of_lookup (h : table.lookup name = some a) : (name, a) ∈ table := by
  obtain ⟨before, after, rfl, -⟩ := List.lookup_eq_some_iff.mp h
  exact List.mem_append_right _ List.mem_cons_self

end Table

namespace Tables

variable {lists lists' : List (List Text)} {tables : Tables} {registry : Registry} {e : Registration}
  {w u v : Writing}

def owned (tables : Tables) : List Nat := tables.categories.map (·.2)

/-- Tables that hold the functions of a registry, each category with a list of its own. -/
structure Shows (lists : List (List Text)) (tables : Tables) (registry : Registry) : Prop where
  name : tables.name = registry.name
  metadata : tables.metadata = registry.entries.map fun e => (e.name, e)
  functions : tables.functions = registry.functions
  categories : tables.categories.map (·.1) = registry.categories
  listed : ∀ p ∈ tables.categories, lists[p.2]? = some (registry.inCategory p.1)
  separate : tables.owned.Nodup

theorem Shows.names (h : Shows lists tables registry) :
    tables.metadata.map (·.1) = tables.functions.map (·.1) := by
  rw [h.metadata, h.functions, Registry.functions, List.map_map, List.map_map]
  rfl

theorem Shows.nodup_categories (h : Shows lists tables registry) : (tables.categories.map (·.1)).Nodup := by
  rw [h.categories]
  exact Registry.nodup_distinctTexts _

theorem shows_empty (lists : List (List Text)) (name : Text) : Shows lists (.empty name) (.empty name) :=
  ⟨rfl, rfl, rfl, rfl, fun _ h => (nomatch h), List.nodup_nil⟩

/-- Lists of others do not matter. -/
theorem Shows.congr (h : Shows lists tables registry)
    (heq : ∀ list ∈ tables.owned, lists'[list]? = lists[list]?) : Shows lists' tables registry :=
  { h with listed := fun p hp => (heq p.2 (List.mem_map_of_mem hp)).trans (h.listed p hp) }

theorem Shows.lt_length (h : Shows lists tables registry) {list : Nat} (hlist : list ∈ tables.owned) :
    list < lists.length := by
  obtain ⟨p, hp, rfl⟩ := List.mem_map.mp hlist
  exact (List.getElem?_eq_some_iff.mp (h.listed p hp)).1

/-- A registry is written: lists of others are kept, and lists that are taken are new. -/
structure Grows (w u : Writing) : Prop where
  length_le : w.lists.length ≤ u.lists.length
  kept : ∀ list < w.lists.length, list ∉ w.tables.owned → u.lists[list]? = w.lists[list]?
  owned : ∀ list ∈ u.tables.owned, list ∈ w.tables.owned ∨ w.lists.length ≤ list

theorem Grows.refl (w : Writing) : Grows w w := ⟨Nat.le_refl _, fun _ _ _ => rfl, fun _ => .inl⟩

theorem Grows.not_mem_owned (h : Grows w u) {list : Nat} (hlt : list < w.lists.length)
    (hnot : list ∉ w.tables.owned) : list ∉ u.tables.owned :=
  fun hmem => (h.owned list hmem).elim hnot (Nat.not_le.mpr hlt)

theorem Grows.trans (h : Grows w u) (h' : Grows u v) : Grows w v where
  length_le := Nat.le_trans h.length_le h'.length_le
  kept list hlt hnot := by
    have hlt' := Nat.lt_of_lt_of_le hlt h.length_le
    rw [h'.kept list hlt' (h.not_mem_owned hlt hnot), h.kept list hlt hnot]
  owned list hmem := by
    rcases h'.owned list hmem with hmem | hle
    · exact h.owned list hmem
    · exact .inr (Nat.le_trans h.length_le hle)

/-- A registry that has no list in common with one that is written keeps its own. -/
theorem Shows.kept (h : Shows w.lists tables registry) (hgrows : Grows w u)
    (hnot : ∀ list ∈ tables.owned, list ∉ w.tables.owned) :
    ∀ list ∈ tables.owned, u.lists[list]? = w.lists[list]? ∧ list ∉ u.tables.owned := by
  intro list hlist
  have hlt := h.lt_length hlist
  exact ⟨hgrows.kept list hlt (hnot list hlist), hgrows.not_mem_owned hlt (hnot list hlist)⟩

/-! ## Writing a function into the tables -/

section Enter
variable (hname : registry.has e.name = false) (h : Shows w.lists w.tables registry)
include hname h

theorem Shows.lookup_functions : w.tables.functions.lookup e.name = none := by
  rw [Table.lookup_eq_none_iff, h.functions, Registry.mem_names_iff, hname]
  exact Bool.false_ne_true

theorem Shows.lookup_metadata : w.tables.metadata.lookup e.name = none := by
  have hfunctions := h.lookup_functions hname
  rw [Table.lookup_eq_none_iff] at hfunctions ⊢
  rwa [h.names]

/-- The tables with one function more, in a category that is there. -/
theorem outcome_enter_of_some {list : Nat} (hlist : w.tables.categories.lookup e.category = some list) :
    outcome (enter e) w = (.ok (), ⟨⟨w.tables.name, w.tables.metadata ++ [(e.name, e)],
      w.tables.functions ++ [(e.name, e.function)], w.tables.categories⟩,
      w.lists.modify list (· ++ [e.name])⟩) := by
  have hmetadata := h.lookup_metadata hname
  have hfunctions := h.lookup_functions hname
  simp [enter, writeMetadata, writeFunction, listOf, append, outcome_bind, Table.put_of_lookup_eq_none, *]

/-- The tables with one function more, in a new category. -/
theorem outcome_enter_of_none (hlist : w.tables.categories.lookup e.category = none) :
    outcome (enter e) w = (.ok (), ⟨⟨w.tables.name, w.tables.metadata ++ [(e.name, e)],
      w.tables.functions ++ [(e.name, e.function)],
      w.tables.categories ++ [(e.category, w.lists.length)]⟩, w.lists ++ [[e.name]]⟩) := by
  have hmetadata := h.lookup_metadata hname
  have hfunctions := h.lookup_functions hname
  have hnew : (w.lists ++ [[]]).modify w.lists.length (· ++ [e.name]) = w.lists ++ [[e.name]] := by
    simp [List.modify_eq_set_getElem?]
  simp [enter, writeMetadata, writeFunction, listOf, append, outcome_bind, Table.put_of_lookup_eq_none, *]

omit hname in
theorem Shows.concat {categories : Table Nat}
    (hcategories : categories.map (·.1) = (registry.extend e).categories)
    (hlisted : ∀ p ∈ categories, lists'[p.2]? = some ((registry.extend e).inCategory p.1))
    (hseparate : (categories.map (·.2)).Nodup) :
    Shows lists' ⟨w.tables.name, w.tables.metadata ++ [(e.name, e)],
      w.tables.functions ++ [(e.name, e.function)], categories⟩ (registry.extend e) where
  name := h.name
  metadata := by
    rw [h.metadata, Registry.extend, List.map_append]
    rfl
  functions := by rw [h.functions, Registry.functions_extend]
  categories := hcategories
  listed := hlisted
  separate := hseparate

theorem exists_enter_of_some {list : Nat} (hlist : w.tables.categories.lookup e.category = some list) :
    ∃ u, outcome (enter e) w = (.ok (), u) ∧ Shows u.lists u.tables (registry.extend e) ∧ Grows w u := by
  have hmem := Table.mem_of_lookup hlist
  have hcategory : e.category ∈ registry.categories := by
    rw [← h.categories]
    exact List.mem_map_of_mem hmem
  have howned : list ∈ w.tables.owned := List.mem_map_of_mem hmem
  refine ⟨_, outcome_enter_of_some hname h hlist, h.concat ?_ ?_ h.separate, ?_, ?_, fun _ => .inl⟩
  · rw [h.categories, Registry.categories_extend, if_pos hcategory]
  · intro p hp
    have hsame : list = p.2 ↔ e.category = p.1 := by
      constructor
      · exact fun heq => congrArg Prod.fst (List.inj_on_of_nodup_map h.separate hmem hp heq)
      · exact fun heq => congrArg Prod.snd (List.inj_on_of_nodup_map h.nodup_categories hmem hp heq)
    rw [List.getElem?_modify, h.listed p hp, Registry.inCategory_extend]
    by_cases heq : e.category = p.1
    · simp [heq, hsame.mpr heq]
    · simp [heq, mt hsame.mp heq]
  · exact Nat.le_of_eq (List.length_modify _ _ _).symm
  · intro other _ hnot
    have hne : list ≠ other := fun heq => hnot (heq ▸ howned)
    exact List.getElem?_modify_ne _ _ hne

theorem exists_enter_of_none (hlist : w.tables.categories.lookup e.category = none) :
    ∃ u, outcome (enter e) w = (.ok (), u) ∧ Shows u.lists u.tables (registry.extend e) ∧ Grows w u := by
  have hcategory : e.category ∉ registry.categories := by
    rw [← h.categories]
    exact Table.lookup_eq_none_iff.mp hlist
  refine ⟨_, outcome_enter_of_none hname h hlist, h.concat ?_ ?_ ?_, ?_, ?_, ?_⟩
  · rw [List.map_append, h.categories, Registry.categories_extend, if_neg hcategory]
    rfl
  · intro p hp
    rw [Registry.inCategory_extend]
    rcases List.mem_append.mp hp with hp | hp
    · have hne : e.category ≠ p.1 := by
        rintro heq
        rw [heq, ← h.categories] at hcategory
        exact hcategory (List.mem_map_of_mem hp)
      rw [List.getElem?_append_left (h.lt_length (List.mem_map_of_mem hp)), h.listed p hp, if_neg hne,
        List.append_nil]
    · obtain rfl := List.mem_singleton.mp hp
      rw [Registry.inCategory_eq_nil hcategory, if_pos rfl]
      exact List.getElem?_concat_length
  · rw [List.map_append]
    refine h.separate.append (List.nodup_singleton _) (List.disjoint_singleton.mpr fun hmem => ?_)
    exact Nat.lt_irrefl _ (h.lt_length hmem)
  · rw [List.length_append]
    exact Nat.le_add_right _ _
  · exact fun _ hlt _ => List.getElem?_append_left hlt
  · intro list hmem
    rw [owned, List.map_append] at hmem
    rcases List.mem_append.mp hmem with hmem | hmem
    · exact .inl hmem
    · exact .inr (Nat.le_of_eq (List.mem_singleton.mp hmem).symm)

/-- A function that is new is entered in all three tables, and lists of others are kept. -/
theorem exists_enter : ∃ u, outcome (enter e) w = (.ok (), u) ∧
    Shows u.lists u.tables (registry.extend e) ∧ Grows w u := by
  cases hlist : w.tables.categories.lookup e.category with
  | some list => exact exists_enter_of_some hname h hlist
  | none => exact exists_enter_of_none hname h hlist

end Enter

/-! ## Registering -/

theorem Shows.isSome_lookup (h : Shows lists tables registry) (t : Text) :
    (tables.metadata.lookup t).isSome = registry.has t := by
  rw [Bool.eq_iff_iff, ← Registry.mem_names_iff, ← h.functions, ← h.names, ← Option.ne_none_iff_isSome, ne_eq,
    Table.lookup_eq_none_iff, not_not]

theorem outcome_add (h : Shows w.lists w.tables registry) (hempty : e.name.isEmpty = false)
    (hcallable : e.function.isCallable = true) (hname : registry.has e.name = false) :
    outcome (add (.text e.name) e.function e.description e.category e.builtin) w = outcome (enter e) w := by
  simp [add, outcome_bind, hempty, hcallable, h.isSome_lookup, hname]

/-- The result of a registration in a registry, and what it does to tables that show the registry. -/
inductive Registers (w : Writing) : Except Failure Registry → Except Failure Unit × Writing → Prop
  | added {registry : Registry} {u : Writing} (h : Shows u.lists u.tables registry) (hgrows : Grows w u) :
    Registers w (.ok registry) (.ok (), u)
  | failed (e : Failure) : Registers w (.error e) (.error e, w)

theorem registers_decorate (h : Shows w.lists w.tables registry) (name function : Value)
    (description category : Text) (builtin : Bool) :
    Registers w (registry.add name function description category builtin)
      (outcome (decorate name function description category builtin) w) := by
  cases name with
  | text t =>
    simp only [decorate, add, Registry.add, outcome_bind, outcome_get, proceed_ok, h.isSome_lookup, h.name]
    split
    · exact .failed _
    split
    · exact .failed _
    split
    · exact .failed _
    rename_i hname
    obtain ⟨u, hu, hshows, hgrows⟩ := exists_enter (e := ⟨t, function, _, category, builtin⟩)
      (Bool.not_eq_true _ ▸ hname) h
    rw [hu]
    exact .added hshows hgrows
  | _ =>
    simp only [decorate, add, Registry.add, outcome_bind, outcome_get, proceed_ok, h.name]
    exact .failed _

/-- What was registered elsewhere can be registered, and leaves the same functions behind those before. -/
theorem exists_addEvery {name : Text} {before entries : List Registration}
    (h : Shows w.lists w.tables ⟨name, before⟩) (hs : Registry.Sound ⟨name, before ++ entries⟩) :
    ∃ u, outcome (addEvery entries) w = (.ok (), u) ∧
      Shows u.lists u.tables ⟨name, before ++ entries⟩ ∧ Grows w u := by
  induction entries generalizing w before with
  | nil =>
    rw [List.append_nil]
    exact ⟨w, rfl, h, .refl w⟩
  | cons e rest ih =>
    obtain ⟨hempty, hcallable, hname⟩ := hs.fresh
    obtain ⟨u, hu, hshows, hgrows⟩ := exists_enter hname h
    rw [← outcome_add h hempty hcallable hname] at hu
    have hmore : Registry.Sound ⟨name, (before ++ [e]) ++ rest⟩ := by rwa [List.append_cons] at hs
    obtain ⟨v, hv, hshows', hgrows'⟩ := ih hshows hmore
    refine ⟨v, ?_, ?_, hgrows.trans hgrows'⟩
    · rw [addEvery, outcome_bind_of_ok hu, hv]
    · rwa [List.append_cons]

/-! ## Asking -/

theorem mapM_eq_filterMap {α β : Type} {f : α → Option β} {l : List α} (h : ∀ a ∈ l, (f a).isSome) :
    l.mapM f = some (l.filterMap f) := by
  induction l with
  | nil => rfl
  | cons a rest ih =>
    obtain ⟨ha, hrest⟩ := List.forall_mem_cons.mp h
    obtain ⟨b, hb⟩ := Option.isSome_iff_exists.mp ha
    rw [List.mapM_cons, ih hrest, List.filterMap_cons, hb]
    rfl

section Asking
variable (h : Shows lists tables registry) {category : Text}
include h

theorem Shows.lookup_metadata_eq (t : Text) : tables.metadata.lookup t = registry.get? t := by
  rw [h.metadata, Registry.get?]
  induction registry.entries with
  | nil => rfl
  | cons e rest ih => simp [List.lookup_cons, List.find?_cons, ih, beq_eq_decide, eq_comm]

theorem Shows.exists_lookup (hcategory : category ∈ registry.categories) :
    ∃ list, tables.categories.lookup category = some list ∧ lists[list]? = some (registry.inCategory category) := by
  rw [← h.categories] at hcategory
  obtain ⟨p, hp, rfl⟩ := List.mem_map.mp hcategory
  exact ⟨p.2, Table.lookup_of_mem h.nodup_categories hp, h.listed p hp⟩

theorem Shows.inCategory_eq (category : Text) : inCategory lists tables category = registry.inCategory category := by
  by_cases hcategory : category ∈ registry.categories
  · obtain ⟨list, hlookup, hlist⟩ := h.exists_lookup hcategory
    rw [inCategory, hlookup, Option.bind_some, hlist, Option.getD_some]
  · have hnone : tables.categories.lookup category = none := by
      rwa [Table.lookup_eq_none_iff, h.categories]
    rw [inCategory, hnone, Registry.inCategory_eq_nil hcategory]
    rfl

theorem Shows.chapter?_eq (hcategory : category ∈ registry.categories) :
    chapter? lists tables category = some (category, registry.entriesOf category) := by
  obtain ⟨list, hlookup, hlist⟩ := h.exists_lookup hcategory
  have hentries : (Text.sort (registry.inCategory category)).mapM (fun name => tables.metadata.lookup name) =
      some (registry.entriesOf category) := by
    simp only [h.lookup_metadata_eq]
    refine mapM_eq_filterMap fun t ht => ?_
    obtain ⟨e, he, -⟩ := Registry.exists_get? (Registry.mem_sort.mp ht)
    exact Option.isSome_of_eq_some he
  simp [chapter?, hlookup, hlist, hentries]

theorem Shows.chapters?_eq : chapters? lists tables =
    some ((Text.sort registry.categories).map fun category => (category, registry.entriesOf category)) := by
  have hchapter (category : Text) (hcategory : category ∈ Text.sort registry.categories) :
      chapter? lists tables category = some (category, registry.entriesOf category) :=
    h.chapter?_eq (Registry.mem_sort.mp hcategory)
  rw [chapters?, h.categories, mapM_eq_filterMap fun _ hcategory => Option.isSome_of_eq_some (hchapter _ hcategory),
    List.filterMap_congr hchapter, ← List.filterMap_eq_map]
  rfl

/-- The page about a registry is written from the tables without a name being unknown. -/
theorem Shows.documentation?_eq : documentation? lists tables = some registry.documentation := by
  have hsize : tables.metadata.length = registry.size := by rw [h.metadata, List.length_map, Registry.size]
  rw [documentation?, h.chapters?_eq, h.name, hsize]
  simp only [Registry.documentation, funext registry.categoryLines_eq, Option.bind_eq_bind, Option.bind_some,
    List.flatMap_map]
  rfl

/-- The three tables have the same names in the same order, each once, with the same functions. Each name
is listed once in its category and in no other, and has one entry on the page about the registry. -/
structure InStep (lists : List (List Text)) (tables : Tables) : Prop where
  names : tables.metadata.map (·.1) = tables.functions.map (·.1)
  nodup : (tables.metadata.map (·.1)).Nodup
  functions : ∀ p ∈ tables.metadata, p.2.name = p.1 ∧ tables.functions.lookup p.1 = some p.2.function
  once : ∀ p ∈ tables.metadata, ∀ category,
    (inCategory lists tables category).count p.1 = if category = p.2.category then 1 else 0
  known : ∀ category, ∀ t ∈ inCategory lists tables category, t ∈ tables.metadata.map (·.1)
  documented : ∃ chapters, chapters? lists tables = some chapters ∧
    ((chapters.flatMap (·.2)).map (·.name)).Perm (tables.metadata.map (·.1))

theorem Shows.inStep (hs : registry.Sound) : InStep lists tables := by
  have hnames : tables.metadata.map (·.1) = registry.names := by
    rw [h.metadata, List.map_map]
    rfl
  have hnodup : (tables.metadata.map (·.1)).Nodup := by
    rw [hnames]
    exact hs.nodup
  refine ⟨h.names, hnodup, fun p hp => ?_, fun p hp category => ?_, fun category t ht => ?_, ?_⟩
  · rw [h.metadata] at hp
    obtain ⟨e, he, rfl⟩ := List.mem_map.mp hp
    rw [h.names] at hnodup
    refine ⟨rfl, Table.lookup_of_mem hnodup ?_⟩
    rw [h.functions]
    exact List.mem_map_of_mem (f := fun e : Registration => (e.name, e.function)) he
  · rw [h.metadata] at hp
    obtain ⟨e, he, rfl⟩ := List.mem_map.mp hp
    rw [h.inCategory_eq]
    exact Registry.count_inCategory hs.nodup he category
  · rw [h.inCategory_eq] at ht
    obtain ⟨e, he, -, rfl⟩ := Registry.mem_inCategory_iff.mp ht
    rw [hnames]
    exact List.mem_map_of_mem he
  · refine ⟨_, h.chapters?_eq, ?_⟩
    rw [hnames, List.flatMap_map, List.map_flatMap]
    simp only [registry.map_name_entriesOf]
    exact Registry.perm_documented hs.nodup

end Asking

end Tables
end Vetting
