import Mathlib.Data.List.Induction
import Vetting.Proofs.Value.Key

/-!
# Fields that are set

Setting a field changes what is found under its key, and under keys that are the same key. Setting many
leaves under each key the last value that was set, or what was there before; the keys stand in the order
in which they were first set.
-/

namespace Vetting

/-! ## First occurrences -/

section FirstOccurrences
variable {α : Type} [DecidableEq α]

theorem eraseDups_concat (l : List α) (a : α) :
    (l ++ [a]).eraseDups = if a ∈ l then l.eraseDups else l.eraseDups ++ [a] := by
  rw [List.eraseDups_append]
  by_cases h : a ∈ l
  · simp [List.removeAll, h]
  · simp [List.removeAll, h, List.eraseDups_cons]

theorem nodup_eraseDups (l : List α) : l.eraseDups.Nodup := by
  induction l using List.reverseRecOn with
  | nil => exact List.nodup_nil
  | append_singleton l a ih =>
    rw [eraseDups_concat]
    split
    · exact ih
    · rename_i h
      have hnew : a ∉ l.eraseDups := fun ha => h (List.mem_eraseDups.mp ha)
      exact List.nodup_append.mpr ⟨ih, List.pairwise_singleton _ a, by
        rintro b hb c hc rfl
        exact hnew (List.mem_singleton.mp hc ▸ hb)⟩

end FirstOccurrences

namespace Fields

variable {fields changes : Fields} {key value : Value}

theorem put_ne_nil (fields : Fields) (key value : Value) : fields.put key value ≠ [] := by
  cases fields with
  | nil => exact List.cons_ne_nil _ _
  | cons field rest =>
    rw [put]
    split <;> exact List.cons_ne_nil _ _

theorem mem_or_eq_of_mem_put {field : Value × Value} (h : field ∈ fields.put key value) :
    field ∈ fields ∨ field.2 = value := by
  induction fields with
  | nil => exact .inr (List.mem_singleton.mp h ▸ rfl)
  | cons first rest ih =>
    rw [put] at h
    split at h
    · rcases List.mem_cons.mp h with rfl | h
      · exact .inr rfl
      · exact .inl (List.mem_cons_of_mem _ h)
    · rcases List.mem_cons.mp h with rfl | h
      · exact .inl List.mem_cons_self
      · exact (ih h).imp_left (List.mem_cons_of_mem _)

theorem put_of_absent (value : Value) (h : ∀ field ∈ fields, field.1.sameKey key = false) :
    fields.put key value = fields ++ [(key, value)] := by
  induction fields with
  | nil => rfl
  | cons field rest ih =>
    obtain ⟨hf, hr⟩ := List.forall_mem_cons.mp h
    rw [put, hf, ih hr]
    rfl

theorem putAll_of_distinct (h : (fields ++ changes).Pairwise fun a b => a.1.sameKey b.1 = false) :
    fields.putAll changes = fields ++ changes := by
  induction changes generalizing fields with
  | nil => rw [List.append_nil]; rfl
  | cons change rest ih =>
    have habsent : ∀ field ∈ fields, field.1.sameKey change.1 = false :=
      fun field hf => (List.pairwise_append.mp h).2.2 field hf change List.mem_cons_self
    have hput : fields.putAll (change :: rest) = (fields ++ [change]).putAll rest := by
      rw [putAll, List.foldl_cons, put_of_absent change.2 habsent]
      rfl
    rw [hput, ih (by simpa using h)]
    simp

/-! ## Looking fields up -/

theorem get?_put (fields : Fields) (key value sought : Value) :
    (fields.put key value).get? sought =
      if key.sameKey sought then some value else fields.get? sought := by
  induction fields with
  | nil => rfl
  | cons field rest ih =>
    obtain ⟨k, v⟩ := field
    rw [put]
    split
    · rename_i hk
      -- the two keys are the same key, so the sought one is like both or neither
      have hsame : k.sameKey sought = key.sameKey sought := by
        rw [Bool.eq_iff_iff]
        exact ⟨Value.sameKey_trans (Value.sameKey_symm hk), Value.sameKey_trans hk⟩
      rw [get?, get?, hsame]
      split <;> rfl
    · rename_i hk
      rw [get?, get?, ih]
      by_cases hs : k.sameKey sought = true
      · have hother : key.sameKey sought = false := Bool.eq_false_iff.mpr fun h =>
          hk (Value.sameKey_trans hs (Value.sameKey_symm h))
        simp [hs, hother]
      · simp [hs]

theorem putAll_concat (fields changes : Fields) (change : Value × Value) :
    fields.putAll (changes ++ [change]) = (fields.putAll changes).put change.1 change.2 := by
  rw [putAll, putAll, List.foldl_append]
  rfl

/-- Under each key there is the last value that was set, or else the one from before. -/
theorem get?_putAll (fields changes : Fields) (sought : Value) :
    (fields.putAll changes).get? sought =
      (get? changes.reverse sought).or (fields.get? sought) := by
  induction changes using List.reverseRecOn with
  | nil => rfl
  | append_singleton changes change ih =>
    rw [putAll_concat, get?_put, List.reverse_append, List.reverse_singleton, List.singleton_append, get?, ih]
    split <;> rfl

theorem field?_putAll (fields changes : Fields) (name : Text) :
    (fields.putAll changes).field? name =
      (field? changes.reverse name).or (fields.field? name) :=
  get?_putAll fields changes (.text name)

theorem get?_eq_find? (fields : Fields) (key : Value) :
    fields.get? key = (fields.find? fun field => field.1.sameKey key).map Prod.snd := by
  induction fields with
  | nil => rfl
  | cons field rest ih =>
    rw [get?, List.find?_cons, ih]
    cases field.1.sameKey key <;> rfl

/-- What is found under a key stands in a field under the same key. -/
theorem exists_mem_of_get? (h : fields.get? key = some value) :
    ∃ k, (k, value) ∈ fields ∧ k.sameKey key = true := by
  rw [get?_eq_find?, Option.map_eq_some_iff] at h
  obtain ⟨⟨k, v⟩, hfind, rfl⟩ := h
  refine ⟨k, List.mem_of_find?_eq_some hfind, ?_⟩
  exact List.find?_some (p := fun field : Value × Value => field.1.sameKey key) hfind

theorem get?_congr (fields : Fields) {key key' : Value} (h : key.sameKey key' = true) :
    fields.get? key = fields.get? key' := by
  induction fields with
  | nil => rfl
  | cons field rest ih =>
    have hsame : field.1.sameKey key = field.1.sameKey key' := by
      rw [Bool.eq_iff_iff]
      exact ⟨fun hk => Value.sameKey_trans hk h, fun hk => Value.sameKey_trans hk (Value.sameKey_symm h)⟩
    rw [get?, get?, hsame, ih]

theorem isSome_get?_of_mem (hk : key.sameKey key = true) (h : (key, value) ∈ fields) :
    (fields.get? key).isSome = true := by
  induction fields with
  | nil => cases h
  | cons field rest ih =>
    obtain ⟨k, v⟩ := field
    rw [get?]
    split
    · rfl
    · rename_i hne
      rcases List.mem_cons.mp h with he | h
      · cases he
        exact absurd hk hne
      · exact ih h

/-- Nothing is found under a key that is not the same key as itself. -/
theorem get?_of_sameKey_eq_false (fields : Fields) (h : key.sameKey key = false) :
    fields.get? key = none := by
  induction fields with
  | nil => rfl
  | cons field rest ih =>
    have hne : field.1.sameKey key = false := Bool.eq_false_iff.mpr fun hsame => by
      rw [Value.sameKey_trans (Value.sameKey_symm hsame) hsame] at h
      cases h
    rw [get?, hne, ih]
    rfl

/-- Where no two keys are the same key, each field is found under its key. -/
theorem get?_of_mem (hdistinct : fields.Pairwise fun a b => a.1.sameKey b.1 = false)
    (hk : key.sameKey key = true) (h : (key, value) ∈ fields) : fields.get? key = some value := by
  induction fields with
  | nil => cases h
  | cons field rest ih =>
    obtain ⟨hfield, hrest⟩ := List.pairwise_cons.mp hdistinct
    rcases List.mem_cons.mp h with rfl | h
    · rw [get?, if_pos hk]
    · rw [get?, hfield _ h]
      exact ih hrest h

section Named
variable {names : List Text} {values : List Value}

theorem putAll_nil_ofNamed (h : names.Nodup) (hlength : names.length = values.length) :
    putAll [] (ofNamed (names.zip values)) = ofNamed (names.zip values) := by
  refine putAll_of_distinct ?_
  rw [List.nil_append, ofNamed, List.pairwise_map]
  have hnames : ((names.zip values).map Prod.fst).Nodup := by
    rwa [List.map_fst_zip (Nat.le_of_eq hlength)]
  refine (List.pairwise_map.mp hnames).imp fun hne => ?_
  rw [Value.sameKey_text, decide_eq_false hne]

/-- Named fields that are set over others hide what these have under the names. -/
theorem field?_putAll_ofNamed {name : Text} (hname : name ∈ names)
    (hlength : names.length = values.length) :
    (fields.putAll (ofNamed (names.zip values))).field? name =
      field? (ofNamed (names.zip values)).reverse name := by
  have hin : name ∈ (names.zip values).map Prod.fst := by rwa [List.map_fst_zip (Nat.le_of_eq hlength)]
  obtain ⟨⟨n, value⟩, hpair, hn⟩ := List.mem_map.mp hin
  obtain rfl : n = name := hn
  have hfield : (.text n, value) ∈ (ofNamed (names.zip values)).reverse :=
    List.mem_reverse.mpr (List.mem_map_of_mem hpair)
  obtain ⟨v, hv⟩ := Option.isSome_iff_exists.mp (isSome_get?_of_mem (by simp) hfield)
  rw [field?_putAll, field?, hv]
  rfl

theorem keys_put (fields : Fields) (key value : Value) :
    (fields.put key value).map Prod.fst =
      if (fields.map Prod.fst).any (·.sameKey key) then fields.map Prod.fst
      else fields.map Prod.fst ++ [key] := by
  induction fields with
  | nil => rfl
  | cons field rest ih =>
    rw [put, List.map_cons, List.any_cons]
    by_cases hk : field.1.sameKey key = true
    · simp [hk]
    · rw [if_neg hk, List.map_cons, ih, Bool.eq_false_iff.mpr hk, Bool.false_or]
      split <;> rfl

/-- Named fields that are set one after the other stand in the order in which the names first occur. -/
theorem keys_putAll_ofNamed (named : List (Text × Value)) :
    (putAll [] (ofNamed named)).map Prod.fst = (named.map Prod.fst).eraseDups.map Value.text := by
  induction named using List.reverseRecOn with
  | nil => rfl
  | append_singleton named field ih =>
    rw [ofNamed, List.map_append, List.map_singleton, putAll_concat, ← ofNamed, keys_put, ih,
      List.map_append, List.map_singleton, eraseDups_concat]
    by_cases h : field.1 ∈ named.map Prod.fst
    · have hany : ((named.map Prod.fst).eraseDups.map Value.text).any (·.sameKey (.text field.1)) = true := by
        rw [List.any_eq_true]
        exact ⟨.text field.1, List.mem_map_of_mem (List.mem_eraseDups.mpr h), by simp⟩
      rw [if_pos hany, if_pos h]
    · have hany : ¬ ((named.map Prod.fst).eraseDups.map Value.text).any (·.sameKey (.text field.1)) = true := by
        rw [List.any_map, List.any_eq_true]
        rintro ⟨name, hname, hsame⟩
        rw [Function.comp_apply, Value.sameKey_text, decide_eq_true_eq] at hsame
        exact h (hsame ▸ List.mem_eraseDups.mp hname)
      rw [if_neg hany, if_neg h, List.map_append, List.map_singleton]

/-- Under a name there is the last field that was set under it. -/
theorem field?_putAll_nil_eq_some_iff {named : List (Text × Value)} {name : Text} :
    (putAll [] (ofNamed named)).field? name = some value ↔
      ∃ before after, named = before ++ (name, value) :: after ∧ ∀ later ∈ after, later.1 ≠ name := by
  have hlast : (putAll [] (ofNamed named)).field? name =
      (named.reverse.find? fun field => decide (field.1 = name)).map Prod.snd := by
    rw [field?_putAll, ofNamed, ← List.map_reverse, field?, get?_eq_find?, List.find?_map,
      Option.map_map]
    simp only [Function.comp_def, Value.sameKey_text]
    cases named.reverse.find? fun field => decide (field.1 = name) <;> rfl
  rw [hlast, Option.map_eq_some_iff]
  simp only [List.find?_eq_some_iff_append, decide_eq_true_eq, Bool.not_eq_true', decide_eq_false_iff_not,
    List.reverse_eq_append_iff, List.reverse_cons, List.append_assoc, List.singleton_append]
  constructor
  · rintro ⟨⟨_, _⟩, ⟨rfl, before, after, hnamed, hafter⟩, rfl⟩
    exact ⟨after.reverse, before.reverse, hnamed, fun later hl => hafter later (List.mem_reverse.mp hl)⟩
  · rintro ⟨before, after, rfl, hafter⟩
    exact ⟨(name, value), ⟨rfl, after.reverse, before.reverse, by simp,
      fun later hl => hafter later (List.mem_reverse.mp hl)⟩, rfl⟩

end Named

end Fields
end Vetting
