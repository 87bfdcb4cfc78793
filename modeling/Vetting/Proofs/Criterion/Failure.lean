import Vetting.Proofs.Criterion.Loading
import Vetting.Proofs.Resolver.Equation
import Vetting.Proofs.Value.Fields
import Vetting.Proofs.Value.Literal

/-!
# How loading a document fails

A document is checked step by step, and what is wrong with it is an error of the configuration. There is
one exception: the message about unknown keys lists them in order, and several keys that are not of one
family have no order. Such a criterion ends the loading with a fault.
-/

namespace Vetting

variable {σ : Type}

/-! ## Data -/

namespace Value

/-- What a document holds: no functions, and no integer with too many digits to be written. -/
inductive IsData : Value → Prop
  | null : IsData null
  | boolean (b : Bool) : IsData (boolean b)
  | integer {i : Int} (h : i.natAbs < Number.unwritable) : IsData (integer i)
  | float (x : Binary64) : IsData (float x)
  | text (t : Text) : IsData (text t)
  | foreign (thing : Foreign) : IsData (foreign thing)
  | array {items : List Value} (h : ∀ v ∈ items, IsData v) : IsData (array items)
  | tuple {items : List Value} (h : ∀ v ∈ items, IsData v) : IsData (tuple items)
  | object {fields : Fields} (hk : ∀ field ∈ fields, IsData field.1)
      (hv : ∀ field ∈ fields, IsData field.2) : IsData (object fields)

theorem exists_inspectList {vs : List Value} (h : ∀ v ∈ vs, ∃ t, v.inspect = .ok t) :
    ∃ ts, inspectList vs = .ok ts := by
  induction vs with
  | nil => exact ⟨[], rfl⟩
  | cons v rest ih =>
    obtain ⟨hv, hr⟩ := List.forall_mem_cons.mp h
    obtain ⟨t, ht⟩ := hv
    obtain ⟨ts, hts⟩ := ih hr
    exact ⟨t :: ts, by rw [inspectList, ht, hts]; rfl⟩

theorem exists_inspectFields {fields : Fields} (hk : ∀ field ∈ fields, ∃ t, field.1.inspect = .ok t)
    (hv : ∀ field ∈ fields, ∃ t, field.2.inspect = .ok t) : ∃ ts, inspectFields fields = .ok ts := by
  induction fields with
  | nil => exact ⟨[], rfl⟩
  | cons field rest ih =>
    obtain ⟨⟨k, hkey⟩, hk⟩ := List.forall_mem_cons.mp hk
    obtain ⟨⟨v, hvalue⟩, hv⟩ := List.forall_mem_cons.mp hv
    obtain ⟨ts, hts⟩ := ih hk hv
    exact ⟨_, by rw [inspectFields, hkey, hvalue, hts]; rfl⟩

/-- Data can be shown in a message. -/
theorem IsData.exists_inspect {v : Value} (h : v.IsData) : ∃ t, v.inspect = .ok t := by
  induction h with
  | @integer i h =>
    exact ⟨_, by rw [Value.integer, inspect, Number.inspect, Number.writeInteger_eq h]⟩
  | array _ ih =>
    obtain ⟨ts, hts⟩ := exists_inspectList ih
    exact ⟨_, by rw [inspect, hts]; rfl⟩
  | tuple _ ih =>
    obtain ⟨ts, hts⟩ := exists_inspectList ih
    rw [inspect, hts]
    rcases ts with _ | ⟨one, _ | ⟨_, _⟩⟩ <;> exact ⟨_, rfl⟩
  | object _ _ ihk ihv =>
    obtain ⟨ts, hts⟩ := exists_inspectFields ihk ihv
    exact ⟨_, by rw [inspect, hts]; rfl⟩
  | null => exact ⟨_, rfl⟩
  | boolean b => exact ⟨_, rfl⟩
  | float x => exact ⟨_, rfl⟩
  | text t => exact ⟨_, rfl⟩
  | foreign thing => exact ⟨_, rfl⟩

theorem IsData.of_field? {fields : Fields} {name : Text} {v : Value}
    (h : ∀ field ∈ fields, field.2.IsData) (hv : fields.field? name = some v) : v.IsData := by
  obtain ⟨k, hmem, _⟩ := Fields.exists_mem_of_get? hv
  exact h _ hmem

theorem IsData.getD_field? {fields : Fields} (h : ∀ field ∈ fields, field.2.IsData) (name : Text) :
    ((fields.field? name).getD Value.null).IsData := by
  cases hv : fields.field? name with
  | none => exact .null
  | some v => exact .of_field? h hv

end Value

namespace Criterion.Loading

/-! ## Keys in order -/

/-- The objects outside the model that have an order, with those of their own family only. -/
inductive ForeignFamily where
  | day
  | moment (hasOffset : Bool)
  | bytes

def foreignFamily? : Foreign → Option ForeignFamily
  | .day _ => some .day
  | .moment m => some (.moment m.offset.isSome)
  | .bytes _ => some .bytes
  | _ => none

/-- The keys that have an order, with those of their own family only. -/
inductive KeyFamily where
  | number
  | text
  | foreign (family : ForeignFamily)

def family? : Value → Option KeyFamily
  | .boolean _ | .number _ => some .number
  | .text _ => some .text
  | .foreign x => (foreignFamily? x).map .foreign
  | _ => none

theorem exists_compare_iff {x y : Foreign} : (∃ o, x.compare y = .ok o) ↔
    ∃ family, foreignFamily? x = some family ∧ foreignFamily? y = some family := by
  cases x <;> cases y
  case moment.moment m n =>
    cases hm : m.offset <;> cases hn : n.offset <;>
      simp [Foreign.compare, Foreign.compareMoments, foreignFamily?, hm, hn]
  all_goals simp [Foreign.compare, foreignFamily?]

theorem exists_keyOrder_iff {a b : Value} : (∃ o, keyOrder a b = .ok o) ↔
    ∃ family, family? a = some family ∧ family? b = some family := by
  cases a <;> cases b
  case foreign.foreign x y => simpa [keyOrder, family?] using exists_compare_iff
  all_goals simp [keyOrder, family?, Value.keyNumber?]

theorem kind_of_keyOrder_eq_error {a b : Value} {f : Fault} (h : keyOrder a b = .error f) :
    f.kind = .type := by
  unfold keyOrder Foreign.compare Foreign.compareMoments at h
  repeat' split at h
  all_goals cases h
  all_goals rfl

/-- Whether keys have no order: there are several, and not all of one family. -/
def Unordered (keys : List Value) : Prop :=
  2 ≤ keys.length ∧ ¬ ∃ family, ∀ key ∈ keys, family? key = some family

theorem family?_eq_of_not_unordered {a : Value} {rest : List Value} {family : KeyFamily}
    (h : ¬ Unordered (a :: rest)) (ha : family? a = some family) :
    ∀ key ∈ a :: rest, family? key = some family := by
  cases rest with
  | nil => simpa using ha
  | cons b rest =>
    obtain ⟨family', hall⟩ := not_not.mp fun hnone => h ⟨by simp, hnone⟩
    obtain rfl : family' = family := Option.some.inj ((hall a List.mem_cons_self).symm.trans ha)
    exact hall

theorem checkOrder_eq_ok_iff {keys : List Value} : checkOrder keys = .ok () ↔ ¬ Unordered keys := by
  induction keys with
  | nil => simp [checkOrder, Unordered]
  | cons a rest ih =>
    cases rest with
    | nil => simp [checkOrder, Unordered]
    | cons b rest =>
      rw [checkOrder, bind_eq_ok_iff, exists_and_right, exists_keyOrder_iff, ih]
      constructor
      · rintro ⟨⟨family, hb, ha⟩, hrest⟩ ⟨_, hnone⟩
        exact hnone ⟨family, List.forall_mem_cons.mpr ⟨ha, family?_eq_of_not_unordered hrest hb⟩⟩
      · intro h
        obtain ⟨family, hall⟩ := not_not.mp fun hnone => h ⟨by simp, hnone⟩
        obtain ⟨ha, hrest⟩ := List.forall_mem_cons.mp hall
        exact ⟨⟨family, hrest b List.mem_cons_self, ha⟩, fun hu => hu.2 ⟨family, hrest⟩⟩

theorem kind_of_checkOrder_eq_error {keys : List Value} {f : Fault} (h : checkOrder keys = .error f) :
    f.kind = .type := by
  induction keys with
  | nil => cases h
  | cons a rest ih =>
    cases rest with
    | nil => cases h
    | cons b rest =>
      rw [checkOrder, bind_eq_error_iff] at h
      rcases h with h | ⟨_, _, h⟩
      · exact kind_of_keyOrder_eq_error h
      · exact ih h

end Criterion.Loading

/-! ## Errors of the configuration -/

/-- Whether a failure is an error of the configuration, or of a class that specialises it. -/
def Failure.IsConfiguration (e : Failure) : Prop :=
  ∃ error : EngineError, e = .engine error ∧ ErrorCategory.configuration.className ∈ error.classes

theorem Failure.isConfiguration (message : Text) (details : List (Text × Value)) :
    (configuration message details).IsConfiguration := ⟨_, rfl, List.mem_cons_self⟩

theorem Registry.isConfiguration_of_add {registry : Registry} {name function : Value}
    {description category : Text} {builtin : Bool} {e : Failure}
    (h : registry.add name function description category builtin = .error e) : e.IsConfiguration := by
  cases name with
  | text t =>
    simp only [add] at h
    split at h
    · cases h
      exact Failure.isConfiguration _ _
    split at h
    · cases h
      exact Failure.isConfiguration _ _
    split at h
    · cases h
      exact ⟨_, rfl, by simp [EngineError.classes]⟩
    · cases h
  | _ =>
    cases h
    exact Failure.isConfiguration _ _

theorem Registry.isConfiguration_of_addAll {registry : Registry} {functions : List (Text × Value)}
    {e : Failure} (h : registry.addAll functions = .error e) : e.IsConfiguration := by
  induction functions generalizing registry with
  | nil => cases h
  | cons f rest ih =>
    rw [addAll] at h
    cases hadd : registry.add (.text f.1) f.2 "" customCategory false with
    | error e' =>
      rw [hadd] at h
      cases h
      exact isConfiguration_of_add hadd
    | ok next =>
      rw [hadd] at h
      exact ih h

theorem Rule.isConfiguration_of_ofFields {fields : Fields} {given : Option Validator} {e : Failure}
    (hfields : ∀ field ∈ fields, field.2.IsData) (h : ofFields fields given = .error e) :
    e.IsConfiguration := by
  obtain ⟨shown, hshown⟩ := (Value.IsData.getD_field? hfields "type").exists_inspect
  unfold ofFields at h
  cases hread : Reading.ofFields fields given with
  | ok rule =>
    rw [hread] at h
    cases h
  | error problems =>
    rw [hread, Except.mapError, Reading.failure, hshown] at h
    cases h
    exact Failure.isConfiguration _ _

theorem Rule.isConfiguration_of_ofValue {v : Value} {e : Failure} (hv : v.IsData)
    (h : ofValue v = .error e) : e.IsConfiguration := by
  cases hv with
  | object hk hvs => exact isConfiguration_of_ofFields hvs h
  | _ =>
    cases h
    exact Failure.isConfiguration _ _

/-! ## What a step comes to -/

namespace Criterion.Loading

section Loads
variable {α β : Type} {Good : α → Prop} {Good' : β → Prop} {Escapes Escapes' : Prop} {s : Session σ}

/-- What a step of loading comes to: a result in a session that can evaluate, an error of the
configuration, or a fault of types where one can escape. -/
inductive Loads (Good : α → Prop) (Escapes : Prop) : Except Failure α × Session σ → Prop
  | ok {a : α} {t : Session σ} (ht : t.Ready) (h : Good a) : Loads Good Escapes (.ok a, t)
  | configuration {e : Failure} (t : Session σ) (h : e.IsConfiguration) :
      Loads Good Escapes (.error e, t)
  | fault {f : Fault} (t : Session σ) (hkind : f.kind = .type) (h : Escapes) :
      Loads Good Escapes (.error (.fault f), t)

theorem Loads.bind {m : Engine σ α} {g : α → Engine σ β} (hm : Loads Good Escapes (outcome m s))
    (hg : ∀ a t, t.Ready → outcome m s = (.ok a, t) → Good a →
      Loads Good' Escapes (outcome (g a) t)) : Loads Good' Escapes (outcome (m >>= g) s) := by
  generalize ho : outcome m s = o at hm
  cases hm with
  | ok ht h =>
    rw [outcome_bind_of_ok ho]
    exact hg _ _ ht ho h
  | configuration t h =>
    rw [outcome_bind_of_error ho]
    exact .configuration t h
  | fault t hkind h =>
    rw [outcome_bind_of_error ho]
    exact .fault t hkind h

theorem Loads.imp {Good' : α → Prop} {o : Except Failure α × Session σ} (h : Loads Good Escapes o)
    (hgood : ∀ a, Good a → Good' a) (hescapes : Escapes → Escapes') : Loads Good' Escapes' o := by
  cases h with
  | ok ht h => exact .ok ht (hgood _ h)
  | configuration t h => exact .configuration t h
  | fault t hkind h => exact .fault t hkind (hescapes h)

/-! ## Expressions and rules -/

/-- A value that does not parse is an error of the expression. -/
theorem exists_outcome_parse (hs : s.Ready) (source : Value) : ∃ r t, t.Ready ∧
    outcome (Engine.parse source) s = (r, t) ∧
      ∀ e, r = .error e → ∃ x, e = .engine (.expression x) := by
  cases source with
  | text text =>
    obtain ⟨length, depth, hl⟩ := hs.limits
    obtain ⟨cache, hc, hp⟩ := Engine.outcome_parse hs text
    exact ⟨_, { s with cache }, ⟨hs.limits, hc, hs.log⟩, hp,
      fun e => Expression.exists_of_parseText_eq_error hl⟩
  | _ => exact ⟨_, _, hs, rfl, fun e he => ⟨_, (Except.error.inj he).symm⟩⟩

theorem loads_parseExpression (hs : s.Ready) (what id : Text) (expression : Value) :
    Loads (fun _ => True) Escapes (outcome (parseExpression what id expression) s) := by
  obtain ⟨r, t, ht, hp, hr⟩ := exists_outcome_parse hs expression
  have hattempt : outcome (Engine.attempt (Engine.parse expression)) s = (.ok r, t) := by
    rw [Engine.outcome_attempt, hp]
  rw [parseExpression, outcome_bind_of_ok hattempt]
  cases r with
  | ok tree => exact .ok ht trivial
  | error e =>
    obtain ⟨x, rfl⟩ := hr e rfl
    exact .configuration t (Failure.isConfiguration _ _)

def RuleData.IsData : RuleData → Prop
  | plain v => v.IsData
  | custom fields _ => ∀ field ∈ fields, field.2.IsData

theorem isData_ruleFields {fields : Fields} {expression : Value}
    (hfields : ∀ field ∈ fields, field.2.IsData) (hexpression : expression.IsData) :
    ∀ field ∈ ruleFields fields expression, field.2.IsData := by
  have hrest : ∀ field ∈ fields.filter fun field => !field.1.sameKey (.text "expression"),
      field.2.IsData := fun field h => hfields field (List.mem_filter.mp h).1
  unfold ruleFields
  dsimp only
  split
  · exact hrest
  · intro field hfield
    rcases Fields.mem_or_eq_of_mem_put hfield with h | h
    · exact hrest field h
    · exact h ▸ hexpression

theorem ruleExpression?_eq_some {data expression : Value} {fields : Fields}
    (h : ruleExpression? data = some (fields, expression)) :
    data = .object fields ∧ fields.field? "expression" = some expression := by
  unfold ruleExpression? at h
  split at h
  · split at h
    · rename_i hexpression
      split at h
      · cases h
        exact ⟨rfl, hexpression⟩
      · cases h
    · cases h
  · cases h

theorem loads_ruleData (hs : s.Ready) (functions : Scope) (id : Text) {data : Value}
    (hdata : data.IsData) :
    Loads RuleData.IsData Escapes (outcome (ruleData functions id data) s) := by
  unfold ruleData
  split
  · exact .ok hs hdata
  · rename_i fields expression hexpression
    obtain ⟨rfl, hfield⟩ := ruleExpression?_eq_some hexpression
    cases hdata with
    | object _ hvalues =>
      refine (loads_parseExpression hs _ _ _).bind fun tree t ht _ _ => .ok ht ?_
      exact isData_ruleFields hvalues (.of_field? hvalues hfield)

theorem loads_rulesData (hs : s.Ready) (functions : Scope) (id : Text) {list : List Value}
    (hlist : ∀ data ∈ list, data.IsData) :
    Loads (fun parsed => ∀ data ∈ parsed, data.IsData) Escapes
      (outcome (rulesData functions id list) s) := by
  induction list generalizing s with
  | nil => exact .ok hs fun data h => absurd h List.not_mem_nil
  | cons data rest ih =>
    obtain ⟨hdata, hrest⟩ := List.forall_mem_cons.mp hlist
    refine (loads_ruleData hs functions id hdata).bind fun first t ht _ hfirst => ?_
    refine (ih ht hrest).bind fun others u hu _ hothers => ?_
    exact .ok hu (List.forall_mem_cons.mpr ⟨hfirst, hothers⟩)

theorem isConfiguration_of_rules {parsed : List RuleData} {e : Failure}
    (hparsed : ∀ data ∈ parsed, data.IsData) (h : rules parsed = .error e) : e.IsConfiguration := by
  induction parsed with
  | nil => cases h
  | cons data rest ih =>
    obtain ⟨hdata, hrest⟩ := List.forall_mem_cons.mp hparsed
    rw [rules] at h
    cases hrule : data.rule with
    | error e' =>
      rw [hrule] at h
      cases h
      cases data with
      | plain v => exact Rule.isConfiguration_of_ofValue hdata hrule
      | custom fields validator => exact Rule.isConfiguration_of_ofFields hdata hrule
    | ok rule =>
      rw [hrule] at h
      cases hothers : rules rest with
      | error e' =>
        rw [hothers] at h
        cases h
        exact ih hrest hothers
      | ok others =>
        rw [hothers] at h
        cases h

theorem loads_rules (hs : s.Ready) {parsed : List RuleData} (hparsed : ∀ data ∈ parsed, data.IsData) :
    Loads (fun _ => True) Escapes (outcome (Engine.ofResult (rules parsed)) s) := by
  rw [Engine.outcome_ofResult]
  cases h : rules parsed with
  | ok list => exact .ok hs trivial
  | error e => exact .configuration s (isConfiguration_of_rules hparsed h)

/-! ## One criterion -/

/-- What an entry and the criterion that it describes have to do with each other. -/
inductive Describes : Value → Criterion → Prop
  | intro {fields : Fields} {id : Text} (hid : fields.field? "id" = some (.text id))
      (hne : id.isEmpty = false) (rules : List Rule) :
      Describes (.object fields)
        ⟨.text id, (fields.field? "name").getD .null, (fields.field? "derive").getD .null, rules⟩

/-- Whether an entry has an id, and unknown keys without an order. -/
inductive HasUnorderedKeys : Value → Prop
  | intro {fields : Fields} {id : Text} (hid : fields.field? "id" = some (.text id))
      (hne : id.isEmpty = false) (hkeys : Unordered (unknownKeys fields)) :
      HasUnorderedKeys (.object fields)

/-- The id of an entry is the text that stands there, unless it is empty. -/
theorem idOf_cases (index : Nat) (fields : Fields) :
    (∃ id, idOf index fields = .ok id ∧ fields.field? "id" = some (.text id) ∧ id.isEmpty = false) ∨
      ∃ e, idOf index fields = .error e ∧ e.IsConfiguration := by
  unfold idOf
  split
  · rename_i id hid
    split
    · exact .inr ⟨_, rfl, Failure.isConfiguration _ _⟩
    · rename_i hne
      exact .inl ⟨id, rfl, hid, by simpa using hne⟩
  · exact .inr ⟨_, rfl, Failure.isConfiguration _ _⟩

theorem idOf_eq_ok {fields : Fields} {id : Text} (index : Nat) (hid : fields.field? "id" = some (.text id))
    (hne : id.isEmpty = false) : idOf index fields = .ok id := by
  rw [idOf, hid]
  simp only [hne, Bool.false_eq_true, if_false]

theorem loads_idOf (hs : s.Ready) (index : Nat) (fields : Fields) :
    Loads (fun id => fields.field? "id" = some (.text id) ∧ id.isEmpty = false) Escapes
      (outcome (Engine.ofResult (idOf index fields)) s) := by
  rw [Engine.outcome_ofResult]
  rcases idOf_cases index fields with ⟨id, h, hid⟩ | ⟨e, h, he⟩
  · exact h ▸ .ok hs hid
  · exact h ▸ .configuration s he

theorem isData_unknownKeys {fields : Fields} (hkeys : ∀ field ∈ fields, field.1.IsData) :
    ∀ key ∈ unknownKeys fields, key.IsData := by
  intro key hkey
  obtain ⟨field, hfield, rfl⟩ := List.mem_map.mp (List.mem_filter.mp hkey).1
  exact hkeys field hfield

/-- Unknown keys are an error of the configuration, if they can be put in order to be shown. -/
theorem loads_checkKeys (hs : s.Ready) (id : Text) {fields : Fields}
    (hkeys : ∀ field ∈ fields, field.1.IsData) :
    Loads (fun _ => True) (Unordered (unknownKeys fields))
      (outcome (Engine.ofResult (checkKeys id fields)) s) := by
  rw [Engine.outcome_ofResult, checkKeys]
  split
  · exact .ok hs trivial
  cases hcheck : checkOrder (unknownKeys fields) with
  | error f =>
    simp only [sortedKeys, hcheck, bind, Except.bind, ofFault]
    refine .fault s (kind_of_checkOrder_eq_error hcheck) (not_not.mp fun h => ?_)
    rw [checkOrder_eq_ok_iff.mpr h] at hcheck
    cases hcheck
  | ok _ =>
    have hsorted : (Value.array ((unknownKeys fields).mergeSort keyLeq)).IsData :=
      .array fun key hkey => isData_unknownKeys hkeys key (List.mem_mergeSort.mp hkey)
    obtain ⟨shown, hshown⟩ := hsorted.exists_inspect
    simp only [sortedKeys, hcheck, bind, Except.bind, pure, Except.pure, ofFault, hshown]
    exact .configuration s (Failure.isConfiguration _ _)

theorem loads_checkDerivation (hs : s.Ready) (id : Text) (derivation : Value) :
    Loads (fun _ => True) Escapes (outcome (checkDerivation id derivation) s) := by
  cases derivation with
  | null => exact .ok hs trivial
  | text t => exact (loads_parseExpression hs _ _ _).bind fun _ _ ht _ _ => .ok ht trivial
  | _ => exact .configuration s (Failure.isConfiguration _ _)

theorem loads_ruleList (hs : s.Ready) (id : Text) {rules : Value} (hrules : rules.IsData) :
    Loads (fun list => ∀ data ∈ list, data.IsData) Escapes
      (outcome (Engine.ofResult (ruleList id rules)) s) := by
  rw [Engine.outcome_ofResult]
  unfold ruleList
  split
  · exact .ok hs fun data h => absurd h List.not_mem_nil
  split
  · cases hrules with
    | array hitems => exact .ok hs hitems
  · exact .configuration s (Failure.isConfiguration _ _)

theorem loads_criterion (hs : s.Ready) (functions : Scope) (index : Nat) {data : Value}
    (hdata : data.IsData) :
    Loads (Describes data) (HasUnorderedKeys data) (outcome (criterion functions index data) s) := by
  cases hdata with
  | @object fields hkeys hvalues =>
    refine (loads_idOf hs index fields).bind fun id s hs _ hid => ?_
    have hcheck := (loads_checkKeys hs id hkeys).imp (fun _ h => h) (HasUnorderedKeys.intro hid.1 hid.2)
    refine hcheck.bind fun _ s hs _ _ => ?_
    refine (loads_checkDerivation hs id _).bind fun _ s hs _ _ => ?_
    refine (loads_ruleList hs id (.getD_field? hvalues "rules")).bind fun list s hs _ hlist => ?_
    refine (loads_rulesData hs functions id hlist).bind fun parsed s hs _ hparsed => ?_
    refine (loads_rules hs hparsed).bind fun rules s hs _ _ => ?_
    exact .ok hs (.intro hid.1 hid.2 rules)
  | _ => exact .configuration s (Failure.isConfiguration _ _)

/-- Unknown keys without an order are a fault, whatever else the entry holds. -/
theorem raises_criterion (functions : Scope) (index : Nat) {data : Value} (h : HasUnorderedKeys data)
    (s : Session σ) : ∃ f, Raises (criterion functions index data) s (.fault f) := by
  cases h with
  | @intro fields id hid hne hkeys =>
    have hnonempty : (unknownKeys fields).isEmpty = false := by
      cases hnil : unknownKeys fields with
      | nil => exact absurd hkeys.1 (by simp [hnil])
      | cons key rest => rfl
    cases hcheck : checkOrder (unknownKeys fields) with
    | ok _ => exact absurd hkeys (checkOrder_eq_ok_iff.mp hcheck)
    | error f =>
      have hidOf : outcome (Engine.ofResult (idOf index fields)) s = (.ok id, s) := by
        rw [Engine.outcome_ofResult, idOf_eq_ok index hid hne]
      have hkeysOf : outcome (Engine.ofResult (checkKeys id fields)) s = (.error (.fault f), s) := by
        rw [Engine.outcome_ofResult, checkKeys, hnonempty]
        simp only [sortedKeys, hcheck, bind, Except.bind, ofFault, Bool.false_eq_true, if_false]
      refine ⟨f, raises_of_outcome (t := s) ?_⟩
      rw [criterion, outcome_bind_of_ok hidOf, outcome_bind_of_error hkeysOf]

/-! ## All criteria -/

/-- Whether the entries up to some one are loaded, and that one has unknown keys without an order. -/
def MeetsUnorderedKeys (functions : Scope) (index : Nat) (entries : List Value) (s : Session σ) : Prop :=
  ∃ before entry after criteria t, entries = before ++ entry :: after ∧
    outcome (criteriaFrom functions index before) s = (.ok criteria, t) ∧ HasUnorderedKeys entry

theorem loads_criteriaFrom (hs : s.Ready) (functions : Scope) (index : Nat) {entries : List Value}
    (hentries : ∀ entry ∈ entries, entry.IsData) :
    Loads (List.Forall₂ Describes entries) (MeetsUnorderedKeys functions index entries s)
      (outcome (criteriaFrom functions index entries) s) := by
  induction entries generalizing index s with
  | nil => exact .ok hs .nil
  | cons entry rest ih =>
    obtain ⟨hentry, hrest⟩ := List.forall_mem_cons.mp hentries
    have hhere (h : HasUnorderedKeys entry) :
        MeetsUnorderedKeys functions index (entry :: rest) s := ⟨[], entry, rest, [], s, rfl, rfl, h⟩
    refine ((loads_criterion hs functions index hentry).imp (fun _ h => h) hhere).bind
      fun first t ht hfirst hdescribes => ?_
    have hlater : MeetsUnorderedKeys functions (index + 1) rest t →
        MeetsUnorderedKeys functions index (entry :: rest) s := by
      rintro ⟨before, other, after, criteria, u, rfl, hbefore, hother⟩
      refine ⟨entry :: before, other, after, first :: criteria, u, rfl, ?_, hother⟩
      rw [criteriaFrom, outcome_bind_of_ok hfirst, outcome_bind_of_ok hbefore]
      rfl
    refine ((ih ht (index + 1) hrest).imp (fun _ h => h) hlater).bind fun others u hu _ hothers => ?_
    exact .ok hu (.cons hdescribes hothers)

theorem exists_raises_criteriaFrom {functions : Scope} {index : Nat} {entries : List Value}
    (h : MeetsUnorderedKeys functions index entries s) :
    ∃ f, Raises (criteriaFrom functions index entries) s (.fault f) := by
  obtain ⟨before, entry, after, criteria, t, rfl, hbefore, hentry⟩ := h
  induction before generalizing index s criteria with
  | nil =>
    obtain ⟨f, hf⟩ := raises_criterion functions index hentry s
    exact ⟨f, raises_bind_iff.mpr (.inl hf)⟩
  | cons first before ih =>
    rw [criteriaFrom, outcome_bind_eq_ok_iff] at hbefore
    obtain ⟨c, u, hfirst, hbefore⟩ := hbefore
    rw [outcome_bind_eq_ok_iff] at hbefore
    obtain ⟨others, w, hothers, hbefore⟩ := hbefore
    cases hbefore
    obtain ⟨f, hf⟩ := ih others hothers
    exact ⟨f, raises_bind_iff.mpr (.inr ⟨c, u, hfirst, raises_bind_iff.mpr (.inl hf)⟩)⟩

end Loads

end Criterion.Loading

/-! ## Documents -/

namespace Criterion

open Loading

variable {s : Session σ} {document : Value} {functions : List (Text × Value)}

theorem isData_listed (h : document.IsData) : (listed document).IsData := by
  cases document with
  | object fields =>
    cases h with
    | object _ hvalues => exact .getD_field? hvalues "criteria"
  | _ => exact h

theorem ofDocument_eq_of_listed {entries : List Value} (h : listed document = .array entries)
    (functions : List (Text × Value)) :
    (ofDocument document functions : Engine σ (List Criterion)) =
      ofDocument (.array entries) functions := by
  rw [ofDocument_eq, ofDocument_eq, h]
  rfl

/-- The criteria of a list are loaded with the functions once these are registered. -/
theorem outcome_ofDocument_array {registry : Registry} (entries : List Value)
    (h : (Registry.builtins loadingRegistry).addAll functions = .ok registry) (s : Session σ) :
    outcome (ofDocument (.array entries) functions) s =
      outcome (criteriaFrom registry.functions 0 entries) s := by
  have hregistry : outcome (Engine.ofResult ((Registry.builtins loadingRegistry).addAll functions)) s =
      (.ok registry, s) := by rw [Engine.outcome_ofResult, h]
  exact outcome_bind_of_ok hregistry

theorem outcome_ofDocument_array_of_error {e : Failure} (entries : List Value)
    (h : (Registry.builtins loadingRegistry).addAll functions = .error e) (s : Session σ) :
    outcome (ofDocument (.array entries) functions) s = (.error e, s) := by
  have hregistry : outcome (Engine.ofResult ((Registry.builtins loadingRegistry).addAll functions)) s =
      (.error e, s) := by rw [Engine.outcome_ofResult, h]
  exact outcome_bind_of_error hregistry

/-- Whether a document lists entries up to some one that load, and that one has an id and unknown keys
without an order. -/
def ListsUnorderedKeys (document : Value) (functions : List (Text × Value)) (s : Session σ) : Prop :=
  ∃ before entry after criteria t, listed document = .array (before ++ entry :: after) ∧
    outcome (ofDocument (.array before) functions) s = (.ok criteria, t) ∧ HasUnorderedKeys entry

theorem loads_ofDocument (hs : s.Ready) (hdocument : document.IsData) (functions : List (Text × Value)) :
    Loads (fun criteria => ∃ entries, listed document = .array entries ∧
      List.Forall₂ Describes entries criteria) (ListsUnorderedKeys document functions s)
      (outcome (ofDocument document functions) s) := by
  have hdata := isData_listed hdocument
  cases hlist : listed document with
  | array entries =>
    rw [ofDocument_eq_of_listed hlist]
    rw [hlist] at hdata
    cases hdata with
    | array hentries =>
      cases hadd : (Registry.builtins loadingRegistry).addAll functions with
      | error e =>
        rw [outcome_ofDocument_array_of_error entries hadd]
        exact .configuration s (Registry.isConfiguration_of_addAll hadd)
      | ok registry =>
        rw [outcome_ofDocument_array entries hadd]
        refine (loads_criteriaFrom hs registry.functions 0 hentries).imp
          (fun criteria h => ⟨entries, rfl, h⟩) ?_
        rintro ⟨before, entry, after, criteria, t, rfl, hbefore, hentry⟩
        rw [← outcome_ofDocument_array before hadd] at hbefore
        exact ⟨before, entry, after, criteria, t, hlist, hbefore, hentry⟩
  | _ =>
    rw [ofDocument_eq, hlist]
    exact .configuration s (Failure.isConfiguration _ _)

theorem exists_raises_ofDocument (h : ListsUnorderedKeys document functions s) :
    ∃ f, Raises (ofDocument document functions) s (.fault f) := by
  obtain ⟨before, entry, after, criteria, t, hlist, hbefore, hentry⟩ := h
  rw [ofDocument_eq_of_listed hlist]
  cases hadd : (Registry.builtins loadingRegistry).addAll functions with
  | error e =>
    rw [outcome_ofDocument_array_of_error before hadd] at hbefore
    cases hbefore
  | ok registry =>
    rw [outcome_ofDocument_array before hadd] at hbefore
    simp only [Raises, outcome_ofDocument_array _ hadd]
    exact exists_raises_criteriaFrom ⟨before, entry, after, criteria, t, rfl, hbefore, hentry⟩

/-- Loading a document gives one criterion for each entry, in order and each with an id that is a text
and not empty, or ends with an error of the configuration. The one other end is a fault of types: it comes
exactly when entries load up to one that has an id and several unknown keys that are not of one family. -/
theorem loading_fails_with_configuration_unless_unordered (document : Value) (hdocument : document.IsData)
    (functions : List (Text × Value)) (s : Session σ) (hs : s.Ready) :
    ((∃ entries criteria t, listed document = .array entries ∧
        outcome (ofDocument document functions) s = (.ok criteria, t) ∧
        List.Forall₂ Describes entries criteria) ∨
      (∃ e, Raises (ofDocument document functions) s e ∧ e.IsConfiguration) ∨
      ∃ f, Raises (ofDocument document functions) s (.fault f) ∧ f.kind = .type) ∧
    ((∃ f, Raises (ofDocument document functions) s (.fault f)) ↔
      ListsUnorderedKeys document functions s) := by
  have hload := loads_ofDocument hs hdocument functions
  generalize ho : outcome (ofDocument document functions) s = o at hload
  refine ⟨?_, fun hraises => ?_, exists_raises_ofDocument⟩
  · cases hload with
    | @ok criteria t _ h =>
      obtain ⟨entries, hlist, hdescribes⟩ := h
      exact .inl ⟨entries, criteria, t, hlist, rfl, hdescribes⟩
    | configuration t h => exact .inr (.inl ⟨_, raises_of_outcome ho, h⟩)
    | fault t hkind _ => exact .inr (.inr ⟨_, raises_of_outcome ho, hkind⟩)
  · obtain ⟨f, hf⟩ := hraises
    rw [Raises, ho] at hf
    cases hload with
    | ok _ _ => cases hf
    | configuration t h =>
      obtain ⟨error, rfl, _⟩ := h
      cases hf
    | fault t _ h => exact h

def mixedEntry : Fields :=
  [(.integer 0, .text "x"), (.text "id", .text "a"), (.text "foo", .text "y")]

theorem isData_mixedEntry : (Value.array [.object mixedEntry]).IsData := by
  have hzero : (Value.integer 0).IsData :=
    .integer (Nat.lt_of_lt_of_le (by decide) Number.integralLimit_le_unwritable)
  refine .array fun v hv => ?_
  obtain rfl := List.mem_singleton.mp hv
  refine .object ?_ ?_
  · simpa [mixedEntry] using ⟨hzero, .text "id", .text "foo"⟩
  · simpa [mixedEntry] using ⟨.text "x", .text "a", .text "y"⟩

theorem hasUnorderedKeys_mixedEntry : HasUnorderedKeys (.object mixedEntry) := by
  have hkeys : unknownKeys mixedEntry = [.integer 0, .text "foo"] := rfl
  have hunordered : Unordered (unknownKeys mixedEntry) := by
    rw [hkeys]
    refine ⟨Nat.le_refl 2, ?_⟩
    rintro ⟨family, h⟩
    have hnumber := h (.integer 0) List.mem_cons_self
    rw [← h (.text "foo") (by simp)] at hnumber
    cases hnumber
  exact .intro (Eq.refl (some (Value.text "a"))) rfl hunordered

theorem listsUnorderedKeys_mixedEntry :
    ListsUnorderedKeys (.array [.object mixedEntry]) [] Resolver.freshSession :=
  ⟨[], .object mixedEntry, [], [], Resolver.freshSession, rfl, rfl, hasUnorderedKeys_mixedEntry⟩

theorem mixed_keys_end_loading :
    (Value.array [.object mixedEntry]).IsData ∧ Resolver.freshSession.Ready ∧
      ∃ f, Raises (ofDocument (.array [.object mixedEntry]) []) Resolver.freshSession (.fault f) :=
  ⟨isData_mixedEntry, Resolver.ready_freshSession,
    (loading_fails_with_configuration_unless_unordered _ isData_mixedEntry [] _
      Resolver.ready_freshSession).2.mpr listsUnorderedKeys_mixedEntry⟩

theorem raises_mixedEntry : Raises (ofDocument (.array [.object mixedEntry]) [])
    Resolver.freshSession (.fault (.unordered "<" "str" "int")) := rfl

/-- Not every document is loaded or ends with an error of the configuration. -/
theorem not_every_loading_fails_with_configuration :
    ¬ ∀ (document : Value) (functions : List (Text × Value)) (s : Session Unit),
      document.IsData → s.Ready →
        (∃ entries criteria t, listed document = .array entries ∧
          outcome (ofDocument document functions) s = (.ok criteria, t) ∧
          List.Forall₂ Describes entries criteria) ∨
        ∃ e, Raises (ofDocument document functions) s e ∧ e.IsConfiguration := by
  intro h
  have hraises := raises_mixedEntry
  rcases h _ [] _ isData_mixedEntry Resolver.ready_freshSession with
    ⟨_, _, _, _, hload, _⟩ | ⟨e, he, error, rfl, _⟩
  · exact not_raises_of_ok hload hraises
  · rw [Raises] at he hraises
    rw [hraises] at he
    cases he

end Criterion
end Vetting
