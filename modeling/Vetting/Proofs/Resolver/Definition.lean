import Mathlib.Data.List.Forall2
import Mathlib.Data.List.Induction
import Vetting.Proofs.Purity
import Vetting.Proofs.Resolver.Setup

/-!
# The criteria that a resolver keeps

Criteria are defined one after the other, and ids may repeat. A resolver keeps each id once, in the
order of the first definitions, as its last definition says; only the expressions of rules are parsed
anew, and no longer have functions of their own. Setting up does the same whenever it is done.
-/

namespace Vetting

open Engine

variable {σ : Type}

/-! ## What is kept of a definition -/

/-- What is kept of a rule in a session: an expression is parsed, and has no functions of its own. -/
def Rule.reboundIn (s : Session σ) : Rule → Except Failure Rule
  | custom (.expression source _ _) description => do
    let tree ← s.treeOf source
    return custom (.expression source tree none) description
  | rule => .ok rule

/-- An expression has no functions of its own, so it sees those of the resolver. -/
def Rule.SharesFunctions : Rule → Prop
  | custom (.expression _ _ own) _ => own = none
  | _ => True

def Criterion.keptIn (s : Session σ) (c : Criterion) : Except Failure Criterion := do
  let rules ← c.rules.mapM (Rule.reboundIn s)
  return { c with rules }

def Criterion.last? (criteria : List Criterion) (id : Value) : Option Criterion :=
  criteria.reverse.find? fun c => c.id.sameKey id

/-- Criteria that hold each of the ids once, in the order of its first definition, as its last
definition says. -/
def Criterion.KeepsLast (s : Session σ) (definitions : List Criterion) (ids : List Text)
    (criteria : List Criterion) : Prop :=
  List.Forall₂ (fun id c => ∃ d, last? definitions (.text id) = some d ∧ d.keptIn s = .ok c)
    ids.eraseDups criteria

namespace Criterion

theorem last?_concat (definitions : List Criterion) (d : Criterion) (id : Value) :
    last? (definitions ++ [d]) id = if d.id.sameKey id then some d else last? definitions id := by
  rw [last?, List.reverse_append, List.reverse_singleton, List.singleton_append, List.find?_cons]
  cases d.id.sameKey id <;> rfl

theorem sameKey_of_last? {definitions : List Criterion} {id : Value} {d : Criterion}
    (h : last? definitions id = some d) : d.id.sameKey id = true :=
  @List.find?_some _ (fun c : Criterion => c.id.sameKey id) d _ h

theorem keptIn_id {s : Session σ} {c kept : Criterion} (h : c.keptIn s = .ok kept) :
    kept.id = c.id := by
  unfold keptIn at h
  obtain ⟨rules, _, h⟩ := bind_eq_ok_iff.mp h
  cases h
  rfl

end Criterion

/-! ## Defining one criterion after the other -/

namespace Resolver

section Define
variable {P Q : Text → Criterion → Prop} {ids : List Text} {criteria : List Criterion} {id : Text}
  {c : Criterion}

/-- One more criterion takes the place of the one with its id, or comes last. -/
theorem forall₂_define (h : List.Forall₂ P ids criteria) (hn : ids.Nodup) (hc : c.id = .text id)
    (hP : ∀ u d, P u d → d.id = .text u) (hQ : ∀ u d, u ≠ id → P u d → Q u d) (hQc : Q id c) :
    List.Forall₂ Q (if id ∈ ids then ids else ids ++ [id]) (define criteria c) := by
  induction h with
  | nil => simpa [define] using hQc
  | @cons u d ids criteria hd hrest ih =>
    obtain ⟨hu, hn⟩ := List.nodup_cons.mp hn
    rw [define, hP u d hd, hc, Value.sameKey_text]
    by_cases hid : u = id
    · -- the ids behind are others, so what is said of them stays
      subst hid
      have hothers : List.Forall₂ Q ids criteria := by
        refine (List.forall₂_iff_get.mpr ?_)
        obtain ⟨hlength, hget⟩ := List.forall₂_iff_get.mp hrest
        refine ⟨hlength, fun i h₁ h₂ => hQ _ _ ?_ (hget i h₁ h₂)⟩
        exact fun he => hu (he ▸ List.get_mem ids ⟨i, h₁⟩)
      simpa using And.intro hQc hothers
    · have hmem : id ∈ u :: ids ↔ id ∈ ids := by simp [Ne.symm hid]
      have htail := ih hn
      by_cases hin : id ∈ ids <;> simp only [hmem, hin, hid, ↓reduceIte, decide_false,
        Bool.false_eq_true, List.cons_append] at htail ⊢
      · exact .cons (hQ u d hid hd) htail
      · exact .cons (hQ u d hid hd) htail

end Define

section Defining
variable {s t u : Session σ} {definitions : List Criterion} {ids : List Text}
  {criteria : List Criterion}

theorem keepsLast_define (h : Criterion.KeepsLast s definitions ids criteria) {d c : Criterion}
    {id : Text} (hd : d.id = .text id) (hc : d.keptIn s = .ok c) :
    Criterion.KeepsLast s (definitions ++ [d]) (ids ++ [id]) (define criteria c) := by
  have hcid : c.id = .text id := (Criterion.keptIn_id hc).trans hd
  rw [Criterion.KeepsLast, eraseDups_concat]
  have hstep := forall₂_define
    (Q := fun u e => ∃ f, Criterion.last? (definitions ++ [d]) (.text u) = some f ∧
      f.keptIn s = .ok e) h (nodup_eraseDups ids) hcid ?_ ?_ ?_
  · simpa only [List.mem_eraseDups] using hstep
  · rintro u e ⟨f, hf, he⟩
    rw [Criterion.keptIn_id he]
    exact Value.eq_text_of_sameKey (Criterion.sameKey_of_last? hf)
  · rintro u e hu ⟨f, hf, he⟩
    refine ⟨f, ?_, he⟩
    rw [Criterion.last?_concat, hd, Value.sameKey_text, decide_eq_false (Ne.symm hu)]
    exact hf
  · refine ⟨d, ?_, hc⟩
    rw [Criterion.last?_concat, hd, Value.sameKey_text, decide_eq_true rfl]
    rfl

theorem outcome_rebound (ht : s.Later t) (rule : Rule) :
    ∃ u, s.Later u ∧ outcome (Rule.rebound rule) t = (Rule.reboundIn s rule, u) := by
  cases rule with
  | custom validator description =>
    cases validator with
    | function f => exact ⟨t, ht, rfl⟩
    | expression source tree functions =>
      obtain ⟨u, hu, hp⟩ := outcome_parse_of_later ht source
      refine ⟨u, hu, ?_⟩
      rw [Rule.rebound, outcome_bind, hp, Rule.reboundIn]
      cases s.treeOf source <;> rfl
  | _ => exact ⟨t, ht, rfl⟩

theorem outcome_reboundAll (ht : s.Later t) (rules : List Rule) :
    ∃ u, s.Later u ∧ outcome (Rule.reboundAll rules) t = (rules.mapM (Rule.reboundIn s), u) := by
  induction rules generalizing t with
  | nil => exact ⟨t, ht, rfl⟩
  | cons rule rest ih =>
    obtain ⟨u, hu, hrule⟩ := outcome_rebound ht rule
    rw [Rule.reboundAll, outcome_bind, hrule, List.mapM_cons]
    cases Rule.reboundIn s rule with
    | error e => exact ⟨u, hu, rfl⟩
    | ok first =>
      obtain ⟨w, hw, hrest⟩ := ih hu
      refine ⟨w, hw, ?_⟩
      rw [proceed_ok, outcome_bind, hrest]
      cases rest.mapM (Rule.reboundIn s) <;> rfl

theorem keepsLast_defineAll {configs defined : List Criterion} {more : List Text}
    (ht : s.Later t) (hids : configs.map (·.id) = more.map Value.text)
    (hcriteria : Criterion.KeepsLast s definitions ids criteria)
    (h : outcome (defineAll criteria (configs.map .criterion)) t = (.ok defined, u)) :
    Criterion.KeepsLast s (definitions ++ configs) (ids ++ more) defined ∧ s.Later u := by
  induction configs generalizing definitions ids criteria more t with
  | nil =>
    obtain rfl : more = [] := by simpa using hids.symm
    cases h
    simpa using ⟨hcriteria, ht⟩
  | cons d rest ih =>
    obtain ⟨id, more, rfl⟩ : ∃ id more', more = id :: more' := by
      cases more with
      | nil => simp at hids
      | cons id more' => exact ⟨id, more', rfl⟩
    obtain ⟨hd, hrest⟩ := List.cons.inj hids
    obtain ⟨c, rules, w, x, hc, hw, hrules, h⟩ := defineAll_cons_eq_ok h
    cases hc
    obtain ⟨y, hy, hrebound⟩ := outcome_reboundAll (hw s ht) d.rules
    rw [hrules] at hrebound
    obtain ⟨hmap, rfl⟩ := Prod.mk.inj hrebound
    have hkept : d.keptIn s = .ok { d with rules } := by
      rw [Criterion.keptIn, ← hmap]
      rfl
    have hall := ih hy hrest (keepsLast_define hcriteria hd hkept) h
    simpa using hall

end Defining

/-! ## Expressions without functions of their own -/

section Sharing
variable {s t : Session σ}

theorem sharesFunctions_of_rebound {rule kept : Rule}
    (h : outcome (Rule.rebound rule) s = (.ok kept, t)) : kept.SharesFunctions := by
  cases rule with
  | custom validator description =>
    cases validator with
    | function f =>
      cases h
      trivial
    | expression source tree own =>
      rw [Rule.rebound, outcome_bind_eq_ok_iff] at h
      obtain ⟨_, _, _, h⟩ := h
      cases h
      rfl
  | _ =>
    cases h
    trivial

theorem sharesFunctions_of_reboundAll {rules kept : List Rule}
    (h : outcome (Rule.reboundAll rules) s = (.ok kept, t)) : ∀ rule ∈ kept, rule.SharesFunctions := by
  induction rules generalizing s kept with
  | nil =>
    cases h
    exact fun _ h => nomatch h
  | cons rule rest ih =>
    rw [Rule.reboundAll, outcome_bind_eq_ok_iff] at h
    obtain ⟨first, _, hfirst, h⟩ := h
    rw [outcome_bind_eq_ok_iff] at h
    obtain ⟨others, _, hothers, h⟩ := h
    cases h
    exact List.forall_mem_cons.mpr ⟨sharesFunctions_of_rebound hfirst, ih hothers⟩

theorem sharesFunctions_of_defineAll {criteria defined : List Criterion} {definitions : List Definition}
    (hcriteria : ∀ c ∈ criteria, ∀ rule ∈ c.rules, rule.SharesFunctions)
    (h : outcome (defineAll criteria definitions) s = (.ok defined, t)) :
    ∀ c ∈ defined, ∀ rule ∈ c.rules, rule.SharesFunctions := by
  induction definitions generalizing criteria s with
  | nil =>
    cases h
    exact hcriteria
  | cons definition rest ih =>
    obtain ⟨c, rules, _, _, _, _, hrules, h⟩ := defineAll_cons_eq_ok h
    refine ih (fun d hd => ?_) h
    rcases mem_define hd with rfl | hd
    · exact sharesFunctions_of_reboundAll hrules
    · exact hcriteria d hd

theorem sharesFunctions_of_create {definitions : Definitions} {wanted : Value}
    {functions : List (Text × Value)} {catalog : Catalog} {r : Resolver}
    (h : outcome (create definitions wanted functions catalog) s = (.ok r, t)) :
    ∀ c ∈ r.criteria, ∀ rule ∈ c.rules, rule.SharesFunctions := by
  obtain ⟨_, _, _, _, hcriteria, _, _⟩ := create_eq_ok h
  exact sharesFunctions_of_defineAll (List.forall_mem_nil _) hcriteria

end Sharing

/-! ## Setting up -/

section Steady
variable {s : Session σ}

theorem steady_chooseLanguage (catalog : Catalog) (wanted : Value) :
    Steady s (chooseLanguage catalog wanted) := by
  refine steady_bind steady_settings fun fields => ?_
  refine steady_bind (steady_ofFault _) fun known => ?_
  cases known with
  | true => exact steady_pure _
  | false => exact steady_bind (steady_log _) fun _ => steady_pure _

theorem steady_rebound (rule : Rule) : Steady s (Rule.rebound rule : Engine σ Rule) := by
  cases rule with
  | custom validator description =>
    cases validator with
    | function f => exact steady_pure _
    | expression source tree functions => exact steady_bind (steady_parse _) fun _ => steady_pure _
  | _ => exact steady_pure _

theorem steady_reboundAll (rules : List Rule) : Steady s (Rule.reboundAll rules : Engine σ (List Rule)) := by
  induction rules with
  | nil => exact steady_pure _
  | cons rule rest ih =>
    exact steady_bind (steady_rebound rule) fun _ => steady_bind ih fun _ => steady_pure _

theorem steady_defineAll (criteria : List Criterion) (definitions : List Definition) :
    Steady s (defineAll criteria definitions : Engine σ (List Criterion)) := by
  induction definitions generalizing criteria with
  | nil => exact steady_pure criteria
  | cons definition rest ih =>
    refine steady_bind (steady_ofResult _) fun c => steady_bind (steady_ofFault _) fun _ => ?_
    have hdefine : Steady s (do
        let rules ← Rule.reboundAll c.rules
        defineAll (define criteria { c with rules }) rest : Engine σ (List Criterion)) :=
      steady_bind (steady_reboundAll c.rules) fun _ => ih _
    dsimp only
    split
    · exact steady_bind (steady_log _) fun _ => hdefine
    · exact hdefine

/-- Setting up does the same whenever it is done. -/
theorem steady_create (definitions : Definitions) (wanted : Value) (functions : List (Text × Value))
    (catalog : Catalog) : Steady s (create definitions wanted functions catalog : Engine σ Resolver) :=
  steady_bind (steady_ofResult _) fun _ => steady_bind (steady_ofFault _) fun items =>
    steady_bind (steady_defineAll [] items) fun _ =>
      steady_bind (steady_chooseLanguage catalog wanted) fun _ => steady_pure _

end Steady

/-- A resolver that was set up in a session later than `s`, part by part. -/
structure SetUp (s : Session σ) (configs : List Criterion) (ids : List Text) (wanted : Value)
    (functions : List (Text × Value)) (catalog : Catalog) (r : Resolver) : Prop where
  registry : (Registry.builtins registryName).addAll functions = .ok r.registry
  criteria : Criterion.KeepsLast s configs ids r.criteria
  messages : r.catalog = catalog
  language : ∃ t, s.Later t ∧ (outcome (chooseLanguage catalog wanted) t).1 = .ok r.language

theorem setUp_of_create {s t u : Session σ} {configs : List Criterion} {ids : List Text}
    {wanted : Value} {functions : List (Text × Value)} {catalog : Catalog} {r : Resolver}
    (ht : s.Later t) (hids : configs.map (·.id) = ids.map Value.text)
    (h : outcome (create (.loaded configs) wanted functions catalog) t = (.ok r, u)) :
    SetUp s configs ids wanted functions catalog r := by
  obtain ⟨items, w, hregistry, hitems, hcriteria, hmessages, hlanguage⟩ := create_eq_ok h
  cases hitems
  have hnone : Criterion.KeepsLast s [] [] [] := .nil
  have hkeeps : Criterion.KeepsLast s configs ids r.criteria ∧ s.Later w :=
    keepsLast_defineAll ht hids hnone hcriteria
  exact ⟨hregistry, hkeeps.1, hmessages, w, hkeeps.2, congrArg Prod.fst hlanguage⟩

end Resolver

namespace Criterion.KeepsLast

variable {s : Session σ} {definitions criteria : List Criterion} {ids : List Text}

theorem map_id (h : KeepsLast s definitions ids criteria) :
    criteria.map (·.id) = ids.eraseDups.map Value.text := by
  unfold KeepsLast at h
  generalize ids.eraseDups = distinct at h
  induction h with
  | nil => rfl
  | @cons id c _ _ hc _ ih =>
    obtain ⟨d, hd, hc⟩ := hc
    have hid : c.id = .text id :=
      (keptIn_id hc).trans (Value.eq_text_of_sameKey (sameKey_of_last? hd))
    rw [List.map_cons, List.map_cons, ih, hid]

theorem exists_last_of_mem (h : KeepsLast s definitions ids criteria) {c : Criterion}
    (hc : c ∈ criteria) : ∃ d, last? definitions c.id = some d ∧ d.keptIn s = .ok c := by
  obtain ⟨i, hi, rfl⟩ := List.getElem_of_mem hc
  obtain ⟨hlength, hget⟩ := List.forall₂_iff_get.mp h
  obtain ⟨d, hd, hkept⟩ := hget i (hlength ▸ hi) hi
  have hid : criteria[i].id = .text (ids.eraseDups.get ⟨i, hlength ▸ hi⟩) :=
    (keptIn_id hkept).trans (Value.eq_text_of_sameKey (sameKey_of_last? hd))
  exact ⟨d, hid ▸ hd, hkept⟩

theorem exists_mem_of_last (h : KeepsLast s definitions ids criteria)
    (hids : definitions.map (·.id) = ids.map Value.text) {id : Text} {d : Criterion}
    (hd : last? definitions (.text id) = some d) : ∃ c ∈ criteria, d.keptIn s = .ok c := by
  have hmem : id ∈ ids.eraseDups := by
    have hdid : d.id = .text id := Value.eq_text_of_sameKey (sameKey_of_last? hd)
    have hin : d ∈ definitions := List.mem_reverse.mp (List.mem_of_find?_eq_some hd)
    have hid : Value.text id ∈ ids.map Value.text := hids ▸ hdid ▸ List.mem_map_of_mem hin
    obtain ⟨id', hid', he⟩ := List.mem_map.mp hid
    cases he
    exact List.mem_eraseDups.mpr hid'
  obtain ⟨i, hi, rfl⟩ := List.getElem_of_mem hmem
  obtain ⟨hlength, hget⟩ := List.forall₂_iff_get.mp h
  obtain ⟨e, he, hkept⟩ := hget i hi (hlength ▸ hi)
  cases hd.symm.trans he
  exact ⟨_, List.get_mem criteria _, hkept⟩

end Criterion.KeepsLast
end Vetting
