import Vetting.Proofs.Advance
import Vetting.Proofs.Value.Key
import Vetting.Resolver.Setup

/-!
# Resolvers as they are built

A resolver is set up from definitions and may be given more functions. Its criteria then have ids
that are distinct as keys.
-/

namespace Vetting

/-- Criteria whose ids are distinct as keys. -/
def Criterion.Distinct (criteria : List Criterion) : Prop :=
  criteria.Pairwise fun c d => c.id.sameKey d.id = false

namespace Resolver

theorem mem_define {criteria : List Criterion} {c e : Criterion} (h : e ∈ define criteria c) :
    e = c ∨ e ∈ criteria := by
  induction criteria with
  | nil => exact .inl (List.mem_singleton.mp h)
  | cons d rest ih =>
    rw [define] at h
    split at h
    · rcases List.mem_cons.mp h with h | h
      · exact .inl h
      · exact .inr (List.mem_cons_of_mem d h)
    · rcases List.mem_cons.mp h with rfl | h
      · exact .inr List.mem_cons_self
      · exact (ih h).imp_right (List.mem_cons_of_mem d)

theorem distinct_define {criteria : List Criterion} (c : Criterion)
    (h : Criterion.Distinct criteria) : Criterion.Distinct (define criteria c) := by
  induction criteria with
  | nil => exact List.pairwise_singleton _ c
  | cons d rest ih =>
    obtain ⟨hd, hr⟩ := List.pairwise_cons.mp h
    rw [define]
    split
    · rename_i hdc
      refine List.pairwise_cons.mpr ⟨fun e he => ?_, hr⟩
      refine Bool.eq_false_iff.mpr fun hce => ?_
      have hde : d.id.sameKey e.id = true := Value.sameKey_trans hdc hce
      rw [hd e he] at hde
      cases hde
    · rename_i hdc
      refine List.pairwise_cons.mpr ⟨fun e he => ?_, ih hr⟩
      rcases mem_define he with rfl | he
      · exact Bool.eq_false_iff.mpr hdc
      · exact hd e he

section Building
variable {σ : Type} {s t : Session σ} {criteria defined : List Criterion} {definition : Definition}
  {rest definitions : List Definition}

/-- What defining one more criterion has done. -/
theorem defineAll_cons_eq_ok
    (h : outcome (defineAll criteria (definition :: rest)) s = (.ok defined, t)) :
    ∃ c rules u v, definition.resolve = .ok c ∧ (∀ w : Session σ, w.Later s → w.Later u) ∧
      outcome (Rule.reboundAll c.rules) u = (.ok rules, v) ∧
      outcome (defineAll (define criteria { c with rules }) rest) v = (.ok defined, t) := by
  rw [defineAll, outcome_bind_eq_ok_iff] at h
  obtain ⟨c, t₁, hresolve, h⟩ := h
  obtain ⟨hc, rfl⟩ := Prod.mk.inj hresolve
  rw [outcome_bind_eq_ok_iff] at h
  obtain ⟨_, t₂, hkey, h⟩ := h
  obtain rfl : s = t₂ := congrArg Prod.snd hkey
  have key {u : Session σ} (hu : ∀ w : Session σ, w.Later s → w.Later u) (h : outcome (do
      let rules ← Rule.reboundAll c.rules
      defineAll (define criteria { c with rules }) rest) u = (.ok defined, t)) :
      ∃ c rules u v, definition.resolve = .ok c ∧ (∀ w : Session σ, w.Later s → w.Later u) ∧
        outcome (Rule.reboundAll c.rules) u = (.ok rules, v) ∧
        outcome (defineAll (define criteria { c with rules }) rest) v = (.ok defined, t) := by
    rw [outcome_bind_eq_ok_iff] at h
    obtain ⟨rules, v, hrules, h⟩ := h
    exact ⟨c, rules, u, v, hc, hu, hrules, h⟩
  dsimp only at h
  split at h
  · rw [outcome_bind_eq_ok_iff] at h
    obtain ⟨_, u, hlog, h⟩ := h
    exact key (fun _ hw => (Engine.advances_log _).later_of hw hlog) h
  · exact key (fun _ hw => hw) h

theorem distinct_defineAll (hc : Criterion.Distinct criteria)
    (h : outcome (defineAll criteria definitions) s = (.ok defined, t)) :
    Criterion.Distinct defined := by
  induction definitions generalizing criteria s with
  | nil =>
    cases h
    exact hc
  | cons definition rest ih =>
    obtain ⟨c, rules, _, _, _, _, _, h⟩ := defineAll_cons_eq_ok h
    exact ih (distinct_define _ hc) h

variable {definitions : Definitions} {language : Value} {functions : List (Text × Value)}
  {catalog : Catalog} {r : Resolver}

/-- What setting up a resolver has done. -/
theorem create_eq_ok (h : outcome (create definitions language functions catalog) s = (.ok r, t)) :
    ∃ items u, (Registry.builtins registryName).addAll functions = .ok r.registry ∧
      definitions.items = .ok items ∧ outcome (defineAll [] items) s = (.ok r.criteria, u) ∧
      r.catalog = catalog ∧ outcome (chooseLanguage catalog language) u = (.ok r.language, t) := by
  rw [create, outcome_bind_eq_ok_iff] at h
  obtain ⟨registry, t₁, hadded, h⟩ := h
  obtain ⟨hregistry, rfl⟩ := Prod.mk.inj hadded
  rw [outcome_bind_eq_ok_iff] at h
  obtain ⟨items, t₂, hfound, h⟩ := h
  have hitems : definitions.items = .ok items :=
    ofFault_eq_ok_iff.mp (congrArg Prod.fst hfound)
  obtain rfl : s = t₂ := congrArg Prod.snd hfound
  rw [outcome_bind_eq_ok_iff] at h
  obtain ⟨criteria, u, hcriteria, h⟩ := h
  rw [outcome_bind_eq_ok_iff] at h
  obtain ⟨chosen, t₃, hlanguage, h⟩ := h
  cases h
  exact ⟨items, u, hregistry, hitems, hcriteria, rfl, hlanguage⟩

/-- Setting up a resolver, part by part. -/
theorem outcome_create {items : List Definition} {u : Session σ}
    (hregistry : (Registry.builtins registryName).addAll functions = .ok r.registry)
    (hitems : definitions.items = .ok items)
    (hcriteria : outcome (defineAll [] items) s = (.ok r.criteria, u))
    (hlanguage : outcome (chooseLanguage r.catalog language) u = (.ok r.language, t)) :
    outcome (create definitions language functions r.catalog) s = (.ok r, t) := by
  have hadded : outcome (Engine.ofResult ((Registry.builtins registryName).addAll functions) :
      Engine σ Registry) s = (.ok r.registry, s) := by rw [Engine.outcome_ofResult, hregistry]
  have hfound : outcome (Engine.ofFault definitions.items : Engine σ (List Definition)) s =
      (.ok items, s) := by
    rw [Engine.outcome_ofFault, hitems]
    rfl
  rw [create, outcome_bind_of_ok hadded, outcome_bind_of_ok hfound, outcome_bind_of_ok hcriteria,
    outcome_bind_of_ok hlanguage]
  rfl

theorem distinct_of_create
    (h : outcome (create definitions language functions catalog) s = (.ok r, t)) :
    Criterion.Distinct r.criteria := by
  obtain ⟨_, _, _, _, hcriteria, _, _⟩ := create_eq_ok h
  exact distinct_defineAll List.Pairwise.nil hcriteria

end Building

/-- Resolvers that were set up, and perhaps given more functions. -/
inductive Built : Resolver → Prop
  | created {σ : Type} {s s' : Session σ} {definitions : Definitions} {language : Value}
      {functions : List (Text × Value)} {catalog : Catalog} {r : Resolver}
      (h : outcome (create definitions language functions catalog) s = (.ok r, s')) : Built r
  | extended {r : Resolver} {registry : Registry} {name function : Value} {description : Text}
      (h : Built r) (hadd : r.registry.add name function description Registry.customCategory false =
        .ok registry) : Built { r with registry }

theorem Built.distinct {r : Resolver} (h : r.Built) : Criterion.Distinct r.criteria := by
  induction h with
  | created h => exact distinct_of_create h
  | extended _ _ ih => exact ih

end Resolver
end Vetting
