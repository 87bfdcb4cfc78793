import Mathlib.Data.List.Nodup
import Vetting.Function.Registry
import Vetting.Proofs.Result

/-!
# Registries that grow

A registration that succeeds puts one more function behind those that are there, under a name that none of
them has. So the names in a registry differ, and each is bound to the first function that was
registered under it.
-/

namespace Vetting.Registry

variable {registry registry' : Registry} {name function : Value} {description category : Text}
  {builtin : Bool}

/-- Functions that can be registered together: the names are not empty and differ from each other and
from those that are taken. -/
def Registrable (taken : Scope) (functions : List (Text × Value)) : Prop :=
  ((taken ++ functions).map (·.1)).Nodup ∧
    ∀ f ∈ functions, f.1.isEmpty = false ∧ f.2.isCallable = true

theorem mem_names_iff {t : Text} : t ∈ registry.functions.map (·.1) ↔ registry.has t = true := by
  simp [functions, has, List.mem_map, List.any_eq_true]

/-- What a registration that succeeds has checked, and what it leaves. -/
theorem add_eq_ok (h : registry.add name function description category builtin = .ok registry') :
    ∃ t : Text, name = .text t ∧ t.isEmpty = false ∧ function.isCallable = true ∧
      registry.has t = false ∧ registry'.functions = registry.functions ++ [(t, function)] := by
  unfold add at h
  cases name with
  | text t =>
    dsimp only at h
    split at h
    · cases h
    split at h
    · cases h
    split at h
    · cases h
    rename_i hempty hcallable hhas
    cases h
    exact ⟨t, rfl, by simpa using hempty, by simpa using hcallable, by simpa using hhas,
      List.map_append⟩
  | _ => cases h

theorem exists_add {t : Text} (hempty : t.isEmpty = false) (hcallable : function.isCallable = true)
    (hhas : registry.has t = false) (description category : Text) (builtin : Bool) :
    ∃ registry', registry.add (.text t) function description category builtin = .ok registry' := by
  simp [add, hempty, hcallable, hhas]

theorem registrable_nil (h : (registry.functions.map (·.1)).Nodup) :
    Registrable registry.functions [] := by
  refine ⟨by rwa [List.append_nil], fun _ h => nomatch h⟩

/-- One more function that was registered can be registered with those before. -/
theorem Registrable.concat {taken : Scope} {fs : List (Text × Value)} (h : Registrable taken fs)
    (hregistry : registry.functions = taken ++ fs)
    (hadd : registry.add name function description category builtin = .ok registry') :
    ∃ t : Text, name = .text t ∧ registry'.functions = taken ++ (fs ++ [(t, function)]) ∧
      Registrable taken (fs ++ [(t, function)]) := by
  obtain ⟨t, rfl, hempty, hcallable, hhas, hfunctions⟩ := add_eq_ok hadd
  have hnew : t ∉ (taken ++ fs).map (·.1) := by
    rw [← hregistry, mem_names_iff, hhas]
    exact Bool.false_ne_true
  refine ⟨t, rfl, by rw [hfunctions, hregistry, List.append_assoc], ?_, ?_⟩
  · rw [← List.append_assoc, List.map_append, List.map_cons, List.map_nil]
    exact h.1.append (List.nodup_singleton t) (by simpa using hnew)
  · intro f hf
    rcases List.mem_append.mp hf with hf | hf
    · exact h.2 f hf
    · obtain rfl := List.mem_singleton.mp hf
      exact ⟨hempty, hcallable⟩

theorem addAll_spec {taken : Scope} {fs gs : List (Text × Value)} (h : Registrable taken fs)
    (hregistry : registry.functions = taken ++ fs) (hadd : registry.addAll gs = .ok registry') :
    registry'.functions = taken ++ (fs ++ gs) ∧ Registrable taken (fs ++ gs) := by
  induction gs generalizing registry fs with
  | nil =>
    cases hadd
    rw [List.append_nil]
    exact ⟨hregistry, h⟩
  | cons g rest ih =>
    rw [addAll] at hadd
    obtain ⟨next, hfirst, hadd⟩ := bind_eq_ok_iff.mp hadd
    obtain ⟨t, ht, hnext, hmore⟩ := h.concat hregistry hfirst
    cases ht
    simpa using ih hmore hnext hadd

theorem addAll_spec_of_nodup {gs : List (Text × Value)} (h : (registry.functions.map (·.1)).Nodup)
    (hadd : registry.addAll gs = .ok registry') :
    registry'.functions = registry.functions ++ gs ∧ Registrable registry.functions gs :=
  addAll_spec (registrable_nil h) (List.append_nil _).symm hadd

theorem exists_addAll {fs : List (Text × Value)} (h : Registrable registry.functions fs) :
    ∃ registry', registry.addAll fs = .ok registry' := by
  induction fs generalizing registry with
  | nil => exact ⟨registry, rfl⟩
  | cons f rest ih =>
    obtain ⟨hnodup, hvalid⟩ := h
    obtain ⟨⟨hempty, hcallable⟩, hrest⟩ := List.forall_mem_cons.mp hvalid
    have hhas : registry.has f.1 = false := by
      rw [Bool.eq_false_iff, ne_eq, ← mem_names_iff]
      intro hin
      rw [List.map_append] at hnodup
      exact (List.nodup_append.mp hnodup).2.2 _ hin _ List.mem_cons_self rfl
    obtain ⟨next, hnext⟩ := exists_add hempty hcallable hhas "" customCategory false
    obtain ⟨t, ht, _, _, _, hfunctions⟩ := add_eq_ok hnext
    cases ht
    have hmore : Registrable next.functions rest := ⟨by simpa [hfunctions] using hnodup, hrest⟩
    obtain ⟨registry', hregistry'⟩ := ih hmore
    exact ⟨registry', by rw [addAll, hnext]; exact hregistry'⟩

theorem nodup_builtins (name : Text) : ((builtins name).functions.map (·.1)).Nodup := by
  have hnames : (builtins name).functions.map (·.1) = Builtin.everyOne.map Builtin.name := by
    rw [functions, builtins, List.map_map, List.map_map]
    rfl
  rw [hnames]
  decide +kernel

end Vetting.Registry
