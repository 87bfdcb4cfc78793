import Vetting.Proofs.Coercion.Repetition

/-!
# The kind of a coerced value

A coercion either keeps its value or gives one of the kind that the rules ask for. Without a rule for
numbers, texts or booleans it converts texts only.
-/

namespace Vetting

def TypeRule.kind : TypeRule → Kind
  | number => .number
  | string => .string
  | boolean => .boolean
  | array => .array

namespace Coercion

variable {v w : Value} {rules : List Rule} {type : TypeRule}

/-! ## The first rule for a kind -/

/-- No rule asks for numbers, texts or booleans. -/
def Untyped (rules : List Rule) : Prop := ∀ type, .ofType type ∈ rules → type = .array

/-- The first rule that asks for numbers, texts or booleans is the one for `type`. -/
def AsksFor (type : TypeRule) (rules : List Rule) : Prop :=
  type ≠ .array ∧ ∃ before after, rules = before ++ .ofType type :: after ∧ Untyped before

/-- The kind that a rule asks for, if it is one for numbers, texts or booleans. -/
def asked? : Rule → Option TypeRule
  | .ofType .array => none
  | .ofType type => some type
  | _ => none

theorem targetType_eq (rules : List Rule) : targetType rules = rules.findSome? asked? := rfl

theorem asked?_eq_some_iff {rule : Rule} :
    asked? rule = some type ↔ rule = .ofType type ∧ type ≠ .array := by
  cases rule with
  | ofType other => cases other <;> cases type <;> simp [asked?]
  | _ => simp [asked?]

theorem asked?_eq_none_iff {rule : Rule} :
    asked? rule = none ↔ ∀ type, rule = .ofType type → type = .array := by
  constructor
  · rintro h type rfl
    by_contra htype
    rw [asked?_eq_some_iff.mpr ⟨rfl, htype⟩] at h
    cases h
  · intro h
    by_contra hne
    obtain ⟨type, htype⟩ := Option.ne_none_iff_exists'.mp hne
    obtain ⟨hrule, harray⟩ := asked?_eq_some_iff.mp htype
    exact harray (h type hrule)

theorem untyped_iff : Untyped rules ↔ ∀ rule ∈ rules, asked? rule = none := by
  constructor
  · intro h rule hmem
    apply asked?_eq_none_iff.mpr
    rintro type rfl
    exact h type hmem
  · intro h type hmem
    exact asked?_eq_none_iff.mp (h _ hmem) type rfl

theorem targetType_eq_none_iff : targetType rules = none ↔ Untyped rules := by
  rw [targetType_eq, List.findSome?_eq_none_iff, untyped_iff]

theorem targetType_eq_some_iff : targetType rules = some type ↔ AsksFor type rules := by
  rw [targetType_eq, List.findSome?_eq_some_iff]
  constructor
  · rintro ⟨before, rule, after, rfl, hrule, hbefore⟩
    obtain ⟨rfl, htype⟩ := asked?_eq_some_iff.mp hrule
    exact ⟨htype, before, after, rfl, untyped_iff.mpr hbefore⟩
  · rintro ⟨htype, before, after, rfl, hbefore⟩
    exact ⟨before, _, after, rfl, asked?_eq_some_iff.mpr ⟨rfl, htype⟩, untyped_iff.mp hbefore⟩

/-! ## What a coercion gives -/

theorem kind_of_strict_number (h : strict v .number = .ok w) : w = v ∨ w.kind? = some .number := by
  unfold strict at h
  split at h
  · cases h
    exact .inl rfl
  obtain ⟨text, _, h⟩ := bind_eq_ok_iff.mp h
  dsimp only at h
  split at h
  · obtain ⟨n, _, h⟩ := bind_eq_ok_iff.mp h
    cases h
    exact .inr rfl
  · cases h
    exact .inl rfl

theorem kind_of_strict_boolean (h : strict v .boolean = .ok w) :
    w = v ∨ w.kind? = some .boolean := by
  unfold strict at h
  split at h
  · cases h
    exact .inl rfl
  obtain ⟨text, _, h⟩ := bind_eq_ok_iff.mp h
  dsimp only at h
  split at h
  · cases h
    exact .inr rfl
  · cases h
    exact .inl rfl

theorem exists_text_of_strict_other (hv : v ≠ .null) (h : strict v .other = .ok w) :
    ∃ t, w = .text t := by
  unfold strict at h
  split at h
  · exact absurd rfl hv
  obtain ⟨text, _, h⟩ := bind_eq_ok_iff.mp h
  cases h
  exact ⟨text, rfl⟩

theorem kind_of_flexible {t : Text} (h : flexible (.text t) = .ok w) :
    w = .text t ∨ (∃ n, w = .number n) ∨ ∃ b, w = .boolean b := by
  unfold flexible at h
  dsimp only at h
  split at h
  · obtain ⟨n, _, h⟩ := bind_eq_ok_iff.mp h
    cases h
    exact .inr (.inl ⟨n, rfl⟩)
  · split at h
    · cases h
      exact .inr (.inr ⟨_, rfl⟩)
    · cases h
      exact .inl rfl

theorem flexible_of_ne_text (hv : ∀ t, v ≠ .text t) : flexible v = .ok v := by
  cases v with
  | text t => exact absurd rfl (hv t)
  | _ => rfl

/-- By a rule for a kind, a value stays as it is or becomes one of that kind; a text always. -/
theorem kind_of_asksFor (hrules : AsksFor type rules) (h : coerce v rules = .ok w) :
    (w = v ∨ w.kind? = some type.kind) ∧ (type = .string → v ≠ .null → ∃ t, w = .text t) := by
  by_cases hv : v = .null
  · subst hv
    cases h
    exact ⟨.inl rfl, fun _ hne => absurd rfl hne⟩
  rw [coerce_of_targeted hv (targetType_eq_some_iff.mpr hrules)] at h
  cases type with
  | number => exact ⟨kind_of_strict_number h, nofun⟩
  | boolean => exact ⟨kind_of_strict_boolean h, nofun⟩
  | string =>
    obtain ⟨t, rfl⟩ := exists_text_of_strict_other hv h
    exact ⟨.inr rfl, fun _ _ => ⟨t, rfl⟩⟩
  | array => exact absurd rfl hrules.1

/-- Without such a rule only texts are converted, to numbers and booleans. -/
theorem kind_of_untyped (hrules : Untyped rules) (h : coerce v rules = .ok w) :
    (w = v ∨ (∃ n, w = .number n) ∨ ∃ b, w = .boolean b) ∧ ((∀ t, v ≠ .text t) → w = v) := by
  by_cases hv : v = .null
  · subst hv
    cases h
    exact ⟨.inl rfl, fun _ => rfl⟩
  rw [coerce_of_untargeted hv (targetType_eq_none_iff.mpr hrules)] at h
  by_cases ht : ∃ t, v = .text t
  · obtain ⟨t, rfl⟩ := ht
    exact ⟨kind_of_flexible h, fun hne => absurd rfl (hne t)⟩
  · have hne : ∀ t, v ≠ .text t := fun t he => ht ⟨t, he⟩
    rw [flexible_of_ne_text hne] at h
    cases h
    exact ⟨.inl rfl, fun _ => rfl⟩

/-- What is coerced has the kind that the rules ask for or is what it was, and stays so when it is
coerced again. -/
theorem coerce_is_kind_sound_and_idempotent (h : coerce v rules = .ok w) :
    (v = .null → w = .null) ∧
      (∀ type, AsksFor type rules → (w = v ∨ w.kind? = some type.kind) ∧
        (type = .string → v ≠ .null → ∃ t, w = .text t)) ∧
      (Untyped rules → (w = v ∨ (∃ n, w = .number n) ∨ ∃ b, w = .boolean b) ∧
        ((∀ t, v ≠ .text t) → w = v)) ∧
      ∃ again, coerce w rules = .ok again ∧ (again = w ∨ again.equal w = true) := by
  refine ⟨?_, fun type hrules => kind_of_asksFor hrules h, fun hrules => kind_of_untyped hrules h, ?_⟩
  · rintro rfl
    cases h
    rfl
  · obtain ⟨again, ha, hr⟩ := coerce_again h
    exact ⟨again, ha, hr.eq_or_equal⟩

/-- The numeral `2.0` becomes a binary64 number that is coerced to the integer 2. -/
theorem coerce_is_kind_sound_and_idempotent_integral_text :
    coerce (.text "2.0") [.ofType .array, .ofType .number] =
        .ok (.float (Binary64.ofDecimal false 20 (-1))) ∧
      ∃ again, coerce (.float (Binary64.ofDecimal false 20 (-1))) [.ofType .array, .ofType .number] =
        .ok again ∧ (again = .float (Binary64.ofDecimal false 20 (-1)) ∨
          again.equal (.float (Binary64.ofDecimal false 20 (-1))) = true) := by
  have h : coerce (.text "2.0") [.ofType .array, .ofType .number] =
      .ok (.float (Binary64.ofDecimal false 20 (-1))) := rfl
  exact ⟨h, (coerce_is_kind_sound_and_idempotent h).2.2.2⟩

end Coercion
end Vetting
