import Vetting.Proofs.Function.Tables

/-!
# Registries over one store

Several registries are in use: one is registered in, another is copied, in any order. What is done with
them is answered as by registries that are plain lists of functions, each in an order of registration, and
their tables hold these lists. A registration that fails changes nothing, and one that succeeds changes
one registry only, since no two of them have a list of names together.
-/

namespace Vetting

open Tables

/-! ## Registries as lists of functions -/

namespace Registry

def write (registries : List Registry) (i : Nat) (register : Registry → Except Failure Registry) :
    Option (Except Failure Unit) × List Registry :=
  match registries[i]? with
  | none => (none, registries)
  | some registry =>
    match register registry with
    | .ok registry' => (some (.ok ()), registries.set i registry')
    | .error e => (some (.error e), registries)

def step (registries : List Registry) : Operation → Option (Except Failure Unit) × List Registry
  | .create name => (some (.ok ()), registries ++ [.empty name])
  | .register i name function description category =>
    write registries i (·.add name function description category false)
  | .decorate i name function description category builtin =>
    write registries i (·.add name function description category builtin)
  | .copy i name =>
    match registries[i]? with
    | none => (none, registries)
    | some registry => (some (.ok ()), registries ++ [registry.copy name])

def run (registries : List Registry) : List Operation → List (Option (Except Failure Unit)) × List Registry
  | [] => ([], registries)
  | operation :: rest =>
    let (answer, next) := step registries operation
    let (answers, last) := run next rest
    (answer :: answers, last)

end Registry

namespace Tables

variable {store : Store} {registries : List Registry} {i j : Nat} {tables other : Tables} {registry : Registry}
  {u : Writing}

/-- Tables over one store that hold the functions of registries. No two of them have a list together. -/
structure Store.Holds (store : Store) (registries : List Registry) : Prop where
  length : store.registries.length = registries.length
  shows : ∀ {i : Nat} {tables : Tables} {registry : Registry}, store.registries[i]? = some tables →
    registries[i]? = some registry → Shows store.lists tables registry
  apart : ∀ {i j list : Nat} {tables other : Tables}, store.registries[i]? = some tables →
    store.registries[j]? = some other → list ∈ tables.owned → list ∈ other.owned → i = j
  sound : ∀ registry ∈ registries, registry.Sound

theorem of_getElem?_set {α : Type} {l : List α} {a b : α} (h : (l.set i a)[j]? = some b) :
    j = i ∧ b = a ∨ j ≠ i ∧ l[j]? = some b := by
  by_cases hij : i = j
  · subst hij
    have hlt := (List.getElem?_eq_some_iff.mp h).1
    rw [List.length_set] at hlt
    rw [List.getElem?_set_self hlt] at h
    exact .inl ⟨rfl, (Option.some.inj h).symm⟩
  · rw [List.getElem?_set_ne hij] at h
    exact .inr ⟨Ne.symm hij, h⟩

theorem of_getElem?_concat {α : Type} {l : List α} {a b : α} (h : (l ++ [a])[j]? = some b) :
    j = l.length ∧ b = a ∨ l[j]? = some b := by
  rcases Nat.lt_or_ge j l.length with hlt | hge
  · rw [List.getElem?_append_left hlt] at h
    exact .inr h
  · rw [List.getElem?_append_right hge] at h
    obtain ⟨hzero, hb⟩ := List.getElem?_eq_some_iff.mp h
    rw [List.length_singleton] at hzero
    exact .inl ⟨by omega, by simpa using hb.symm⟩

section Holds
variable (h : store.Holds registries)
include h

theorem Store.Holds.exists_registry (hi : store.registries[i]? = some tables) :
    ∃ registry, registries[i]? = some registry ∧ Shows store.lists tables registry ∧ registry.Sound := by
  obtain ⟨hlt, -⟩ := List.getElem?_eq_some_iff.mp hi
  rw [h.length] at hlt
  have hregistry := List.getElem?_eq_getElem hlt
  exact ⟨_, hregistry, h.shows hi hregistry, h.sound _ (List.getElem_mem hlt)⟩

theorem Store.Holds.eq_none (hi : store.registries[i]? = none) : registries[i]? = none := by
  rw [List.getElem?_eq_none_iff] at hi ⊢
  rwa [← h.length]

/-- The lists of others are kept when a registry is written, and it does not take them. -/
theorem Store.Holds.kept (hi : store.registries[i]? = some tables) (hgrows : Grows ⟨tables, store.lists⟩ u)
    (hj : store.registries[j]? = some other) (hij : j ≠ i) :
    ∀ list ∈ other.owned, u.lists[list]? = store.lists[list]? ∧ list ∉ u.tables.owned := by
  obtain ⟨_, _, hshows, _⟩ := h.exists_registry hj
  exact hshows.kept hgrows fun list hlist hmem => hij (h.apart hj hi hlist hmem)

/-- A registry is written and shows what was registered, and the others stay as they are. -/
theorem Store.Holds.set (hi : store.registries[i]? = some tables) (hgrows : Grows ⟨tables, store.lists⟩ u)
    (hshows : Shows u.lists u.tables registry) (hsound : registry.Sound) :
    (⟨store.registries.set i u.tables, u.lists⟩ : Store).Holds (registries.set i registry) where
  length := by rw [List.length_set, List.length_set, h.length]
  shows {j a r} ha hr := by
    rcases of_getElem?_set ha with ⟨rfl, rfl⟩ | ⟨hij, ha⟩
    · rcases of_getElem?_set hr with ⟨-, rfl⟩ | ⟨hne, -⟩
      · exact hshows
      · exact absurd rfl hne
    · rw [List.getElem?_set_ne (Ne.symm hij)] at hr
      exact (h.shows ha hr).congr fun list hlist => (h.kept hi hgrows ha hij list hlist).1
  apart {j k list a b} ha hb hja hkb := by
    rcases of_getElem?_set ha with ⟨rfl, rfl⟩ | ⟨hj, ha'⟩ <;>
      rcases of_getElem?_set hb with ⟨rfl, rfl⟩ | ⟨hk, hb'⟩
    · rfl
    · exact absurd hja (h.kept hi hgrows hb' hk _ hkb).2
    · exact absurd hkb (h.kept hi hgrows ha' hj _ hja).2
    · exact h.apart ha' hb' hja hkb
  sound r hr := by
    rcases List.mem_or_eq_of_mem_set hr with hr | rfl
    · exact h.sound r hr
    · exact hsound

/-- Nothing that is there is changed when a registry is written anew. -/
theorem Store.Holds.kept_new {name : Text} (hgrows : Grows ⟨.empty name, store.lists⟩ u)
    (hj : store.registries[j]? = some other) :
    ∀ list ∈ other.owned, u.lists[list]? = store.lists[list]? ∧ list ∉ u.tables.owned := by
  obtain ⟨_, _, hshows, _⟩ := h.exists_registry hj
  exact hshows.kept hgrows fun _ _ => List.not_mem_nil

/-- A registry that is written anew comes behind the others. -/
theorem Store.Holds.concat {name : Text} (hgrows : Grows ⟨.empty name, store.lists⟩ u)
    (hshows : Shows u.lists u.tables registry) (hsound : registry.Sound) :
    (⟨store.registries ++ [u.tables], u.lists⟩ : Store).Holds (registries ++ [registry]) where
  length := by rw [List.length_append, List.length_append, h.length, List.length_singleton, List.length_singleton]
  shows {j a r} ha hr := by
    rcases of_getElem?_concat ha with ⟨rfl, rfl⟩ | ha'
    · rw [h.length, List.getElem?_concat_length] at hr
      cases hr
      exact hshows
    · rw [List.getElem?_append_left (h.length ▸ (List.getElem?_eq_some_iff.mp ha').1)] at hr
      exact (h.shows ha' hr).congr fun list hlist => (h.kept_new hgrows ha' list hlist).1
  apart {j k list a b} ha hb hja hkb := by
    rcases of_getElem?_concat ha with ⟨rfl, rfl⟩ | ha' <;> rcases of_getElem?_concat hb with ⟨rfl, rfl⟩ | hb'
    · rfl
    · exact absurd hja (h.kept_new hgrows hb' _ hkb).2
    · exact absurd hkb (h.kept_new hgrows ha' _ hja).2
    · exact h.apart ha' hb' hja hkb
  sound r hr := by
    rcases List.mem_append.mp hr with hr | hr
    · exact h.sound r hr
    · exact List.mem_singleton.mp hr ▸ hsound

end Holds

theorem Store.holds_nil : (⟨[], []⟩ : Store).Holds [] where
  length := rfl
  shows h := nomatch h
  apart h := nomatch h
  sound _ h := nomatch h

theorem Store.holds_start (name : Text) : (start name).Holds [.empty name] :=
  holds_nil.concat (.refl _) (shows_empty [] name) (Registry.sound_empty name)

/-! ## Operations -/

def Operation.entry? : Operation → Option Registration
  | .register _ (.text t) function description category =>
    some (.given t function description category false)
  | .decorate _ (.text t) function description category builtin =>
    some (.given t function description category builtin)
  | _ => none

/-- What an operation can do to a store and to the registries that it holds, with the same answer. -/
inductive Store.Steps (store : Store) (registries : List Registry) (operation : Operation) :
    Option (Except Failure Unit) × Store → Option (Except Failure Unit) × List Registry → Prop
  | absent (h : ∀ i, operation.target = some i → store.registries[i]? = none) :
    Steps store registries operation (none, store) (none, registries)
  | failed (e : Failure) :
    Steps store registries operation (some (.error e), store) (some (.error e), registries)
  | written {i : Nat} {tables : Tables} {registry : Registry} {u : Writing} {e : Registration}
      (htarget : operation.target = some i) (hi : store.registries[i]? = some tables)
      (hentry : operation.entry? = some e) (hmetadata : u.tables.metadata = tables.metadata ++ [(e.name, e)])
      (hgrows : Grows ⟨tables, store.lists⟩ u) (hshows : Shows u.lists u.tables registry)
      (hsound : registry.Sound) :
    Steps store registries operation (some (.ok ()), ⟨store.registries.set i u.tables, u.lists⟩)
      (some (.ok ()), registries.set i registry)
  | added {name : Text} {registry : Registry} {u : Writing} (htarget : operation.target = none)
      (hgrows : Grows ⟨.empty name, store.lists⟩ u) (hshows : Shows u.lists u.tables registry)
      (hsound : registry.Sound) :
    Steps store registries operation (some (.ok ()), ⟨store.registries ++ [u.tables], u.lists⟩)
      (some (.ok ()), registries ++ [registry])

theorem Store.write_of_some (hi : store.registries[i]? = some tables) (m : Write Unit) :
    store.write i m = (some (outcome m ⟨tables, store.lists⟩).1,
      ⟨store.registries.set i (outcome m ⟨tables, store.lists⟩).2.tables,
        (outcome m ⟨tables, store.lists⟩).2.lists⟩) := by
  rw [Store.write, hi]
  rfl

section Steps
variable {operation : Operation} (h : store.Holds registries)
include h

theorem Store.steps_write {name function : Value} {description category : Text} {builtin : Bool}
    (htarget : operation.target = some i)
    (hentry : ∀ t, name = .text t →
      operation.entry? = some (.given t function description category builtin)) :
    Steps store registries operation (store.write i (decorate name function description category builtin))
      (Registry.write registries i (·.add name function description category builtin)) := by
  cases hi : store.registries[i]? with
  | none =>
    rw [Store.write, Registry.write, hi, h.eq_none hi]
    refine .absent fun j hj => ?_
    rw [htarget] at hj
    exact Option.some.inj hj ▸ hi
  | some tables =>
    obtain ⟨registry, hregistry, hshows, hsound⟩ := h.exists_registry hi
    have hregisters := registers_decorate (w := ⟨tables, store.lists⟩) hshows name function description
      category builtin
    rw [Store.write_of_some hi, Registry.write, hregistry]
    generalize outcome (decorate name function description category builtin) ⟨tables, store.lists⟩ = done
      at hregisters
    dsimp only
    generalize hadd : registry.add name function description category builtin = result at hregisters
    cases hregisters with
    | failed e =>
      have hsame : store.registries.set i tables = store.registries := by
        obtain ⟨hlt, rfl⟩ := List.getElem?_eq_some_iff.mp hi
        exact List.set_getElem_self hlt
      rw [hsame]
      exact .failed e
    | added hshows' hgrows =>
      obtain ⟨t, ht, heq⟩ := Registry.eq_extend_of_add hadd
      refine .written htarget hi (hentry t ht) ?_ hgrows hshows' (hsound.add hadd)
      rw [hshows'.metadata, hshows.metadata, heq, Registry.extend, List.map_append]
      rfl

theorem Store.Holds.steps (operation : Operation) :
    Steps store registries operation (store.step operation) (Registry.step registries operation) := by
  cases operation with
  | create name => exact .added rfl (.refl _) (shows_empty _ name) (Registry.sound_empty name)
  | register i name function description category =>
    exact steps_write h rfl fun t ht => by rw [ht]; rfl
  | decorate i name function description category builtin =>
    exact steps_write h rfl fun t ht => by rw [ht]; rfl
  | copy i name =>
    rw [Store.step, Registry.step]
    cases hi : store.registries[i]? with
    | none =>
      rw [h.eq_none hi]
      refine .absent fun j hj => ?_
      cases hj
    | some tables =>
      obtain ⟨registry, hregistry, hshows, hsound⟩ := h.exists_registry hi
      have hentries : tables.metadata.map (·.2) = registry.entries := by
        rw [hshows.metadata, List.map_map]
        exact List.map_id _
      have hcopy : Registry.Sound ⟨name, [] ++ registry.entries⟩ := hsound
      obtain ⟨u, hu, hshows', hgrows⟩ :=
        exists_addEvery (w := ⟨.empty name, store.lists⟩) (shows_empty store.lists name) hcopy
      have hrun : (addEvery registry.entries).run ⟨.empty name, store.lists⟩ = (.ok (), u) := hu
      rw [hregistry]
      dsimp only
      rw [hentries, hrun]
      exact .added rfl hgrows hshows' hsound

end Steps

/-! ## Runs -/

theorem Store.Holds.step (h : store.Holds registries) (operation : Operation) :
    (store.step operation).1 = (Registry.step registries operation).1 ∧
      (store.step operation).2.Holds (Registry.step registries operation).2 := by
  have hsteps := h.steps operation
  generalize store.step operation = done at hsteps
  generalize Registry.step registries operation = done' at hsteps
  cases hsteps with
  | absent => exact ⟨rfl, h⟩
  | failed => exact ⟨rfl, h⟩
  | written _ hi _ _ hgrows hshows hsound => exact ⟨rfl, h.set hi hgrows hshows hsound⟩
  | added _ hgrows hshows hsound => exact ⟨rfl, h.concat hgrows hshows hsound⟩

theorem Store.Holds.run (h : store.Holds registries) (operations : List Operation) :
    (store.run operations).1 = (Registry.run registries operations).1 ∧
      (store.run operations).2.Holds (Registry.run registries operations).2 := by
  induction operations generalizing store registries with
  | nil => exact ⟨rfl, h⟩
  | cons operation rest ih =>
    obtain ⟨hanswer, hnext⟩ := h.step operation
    obtain ⟨hanswers, hlast⟩ := ih hnext
    refine ⟨?_, hlast⟩
    rw [Store.run, Registry.run]
    exact congrArg₂ List.cons hanswer hanswers

/-- A registration that fails leaves all tables and lists as they are. -/
theorem Store.Holds.eq_of_error (h : store.Holds registries) {operation : Operation} {e : Failure}
    (he : (store.step operation).1 = some (.error e)) : (store.step operation).2 = store := by
  have hsteps := h.steps operation
  generalize store.step operation = done at he hsteps
  generalize Registry.step registries operation = done' at hsteps
  cases hsteps with
  | failed => rfl
  | _ => cases he

/-- The registries that an operation is not to change stay as they are, and so do their lists. -/
theorem Store.Holds.others (h : store.Holds registries) {operation : Operation}
    (hi : store.registries[i]? = some tables) (hother : operation.target ≠ some i) :
    (store.step operation).2.registries[i]? = some tables ∧
      ∀ list ∈ tables.owned, (store.step operation).2.lists[list]? = store.lists[list]? := by
  have hsteps := h.steps operation
  generalize store.step operation = done at hsteps
  generalize Registry.step registries operation = done' at hsteps
  cases hsteps with
  | absent => exact ⟨hi, fun _ _ => rfl⟩
  | failed => exact ⟨hi, fun _ _ => rfl⟩
  | @written j _ _ u _ htarget hj _ _ hgrows =>
    have hij : i ≠ j := by
      rintro rfl
      exact hother htarget
    refine ⟨?_, fun list hlist => (h.kept hj hgrows hi hij list hlist).1⟩
    rw [List.getElem?_set_ne (Ne.symm hij), hi]
  | added _ hgrows =>
    refine ⟨?_, fun list hlist => (h.kept_new hgrows hi list hlist).1⟩
    rw [List.getElem?_append_left (List.getElem?_eq_some_iff.mp hi).1, hi]

/-- A registration that succeeds comes behind those before it. -/
theorem Store.Holds.registered (h : store.Holds registries) {operation : Operation}
    (hi : store.registries[i]? = some tables) (htarget : operation.target = some i)
    (hok : (store.step operation).1 = some (.ok ())) : ∃ e written, operation.entry? = some e ∧
      (store.step operation).2.registries[i]? = some written ∧
      written.metadata = tables.metadata ++ [(e.name, e)] := by
  have hsteps := h.steps operation
  generalize store.step operation = done at hok hsteps
  generalize Registry.step registries operation = done' at hsteps
  cases hsteps with
  | written htarget' hj hentry hmetadata =>
    cases htarget.symm.trans htarget'
    cases hi.symm.trans hj
    exact ⟨_, _, hentry, List.getElem?_set_self (List.getElem?_eq_some_iff.mp hi).1, hmetadata⟩
  | added htarget' => cases htarget.symm.trans htarget'
  | _ => cases hok

/-! ## What can be asked -/

/-- All that can be asked about a registry. -/
structure Listing where
  name : Text
  metadata : Table Registration
  functions : Scope
  categories : List (Text × List Text)
  documentation : Option Text

def listing (lists : List (List Text)) (tables : Tables) : Listing where
  name := tables.name
  metadata := tables.metadata
  functions := tables.functions
  categories := tables.categories.map fun p => (p.1, inCategory lists tables p.1)
  documentation := documentation? lists tables

def Listing.ofRegistry (registry : Registry) : Listing where
  name := registry.name
  metadata := registry.entries.map fun e => (e.name, e)
  functions := registry.functions
  categories := registry.categories.map fun category => (category, registry.inCategory category)
  documentation := some registry.documentation

theorem Shows.listing_eq {lists : List (List Text)} (h : Shows lists tables registry) :
    listing lists tables = .ofRegistry registry := by
  rw [listing, Listing.ofRegistry, h.documentation?_eq, h.name, h.metadata, h.functions, ← h.categories,
    List.map_map]
  simp only [h.inCategory_eq]
  rfl

theorem Store.Holds.listings_eq (h : store.Holds registries) :
    store.registries.map (listing store.lists) = registries.map .ofRegistry := by
  refine List.ext_getElem? fun i => ?_
  rw [List.getElem?_map, List.getElem?_map]
  cases hi : store.registries[i]? with
  | none => rw [h.eq_none hi]; rfl
  | some tables =>
    obtain ⟨registry, hregistry, hshows, -⟩ := h.exists_registry hi
    rw [hregistry, Option.map_some, Option.map_some, hshows.listing_eq]

/-- After any operations that begin with one empty registry the tables of each registry are in step. The
next operation leaves all of them as they are if it fails; it leaves the others as they are in any case, with
their lists of names; and a registration that succeeds comes behind those before it. The answers are
those of registries that are lists of functions, and so is all that can be asked. -/
theorem tables_stay_in_step (name : Text) (before : List Operation) (operation : Operation) :
    let store := ((Store.start name).run before).2
    let answer := (store.step operation).1
    let after := (store.step operation).2
    (∀ tables ∈ store.registries, InStep store.lists tables) ∧
      (∀ e, answer = some (.error e) → after = store) ∧
      (∀ i tables, store.registries[i]? = some tables → operation.target ≠ some i →
        after.registries[i]? = some tables ∧
          ∀ list ∈ tables.owned, after.lists[list]? = store.lists[list]?) ∧
      (∀ i tables, store.registries[i]? = some tables → operation.target = some i →
        answer = some (.ok ()) → ∃ e written, operation.entry? = some e ∧
          after.registries[i]? = some written ∧ written.metadata = tables.metadata ++ [(e.name, e)]) ∧
      ((Store.start name).run before).1 = (Registry.run [.empty name] before).1 ∧
      store.registries.map (listing store.lists) =
        (Registry.run [.empty name] before).2.map .ofRegistry := by
  obtain ⟨hanswers, hholds⟩ := (Store.holds_start name).run before
  refine ⟨fun tables htables => ?_, fun _ => hholds.eq_of_error, fun _ _ => hholds.others,
    fun _ _ => hholds.registered, hanswers, hholds.listings_eq⟩
  obtain ⟨i, hi⟩ := List.mem_iff_getElem?.mp htables
  obtain ⟨registry, -, hshows, hsound⟩ := hholds.exists_registry hi
  exact hshows.inStep hsound

/-- A name that is taken in a registry is free in a copy that was made before, and neither is changed when
it is registered once more. -/
theorem name_is_registered_once :
    let before : List Operation := [.copy 0 "copy", .register 0 (.text "size") (.builtin .count) "" "array"]
    let again : Operation := .register 0 (.text "size") (.builtin .abs) "" "math"
    let store := ((Store.start "functions").run before).2
    (store.step again).1 = some (.error (.engine (.functionTaken "size" "functions"))) ∧
      (store.step again).2 = store ∧ store.registries.map (·.functions.map (·.1)) = [[("size" : Text)], []] ∧
      ∀ tables ∈ store.registries, InStep store.lists tables := by
  intro before again store
  obtain ⟨hinStep, hfailed, -⟩ := tables_stay_in_step "functions" before again
  have htaken : (store.step again).1 = some (.error (.engine (.functionTaken "size" "functions"))) := rfl
  exact ⟨htaken, hfailed _ htaken, rfl, hinStep⟩

end Tables
end Vetting
