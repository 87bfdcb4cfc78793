import Vetting.Catalog
import Vetting.Proofs.Template.Filling

/-!
# When a message cannot be rendered

A message is the template of a catalog, filled with parameters. It cannot be rendered where the catalog
has something else than a text in the place of the template, or where a parameter that stands in the
template has no text.
-/

namespace Vetting

def Template.parameterText (parameters : Fields) (name : Text) : Except Fault Text :=
  match parameters.field? name with
  | some v => v.toText
  | none => .ok (written name)

theorem Template.message_eq_fill (template : Text) (parameters : Fields) :
    message template parameters = fill (parameterText parameters) (ofText template) := rfl

/-- Why a message cannot be rendered. -/
inductive Catalog.RenderEscapes (catalog : Catalog) (language key : Value) (parameters : Fields) :
    Fault → Prop
  /-- A language of the catalog is no key. -/
  | lookup {f : Fault} (h : catalog.get language key = .error f) :
      RenderEscapes catalog language key parameters f
  | bytes {octets : List Nat} (h : catalog.get language key = .ok (.foreign (.bytes octets))) :
      RenderEscapes catalog language key parameters .bytesNotText
  | template {v : Value} (h : catalog.get language key = .ok v) (hnull : v ≠ .null)
      (htext : v.isText = false) (hbytes : ∀ octets, v ≠ .foreign (.bytes octets)) :
      RenderEscapes catalog language key parameters (.notText v.familyTypeName)
  /-- A parameter that stands in the template has no text. -/
  | parameter {template name shown : Text} {before after : List Template.Piece} {v : Value} {f : Fault}
      (h : catalog.get language key = .ok (.text template))
      (ht : Template.ofText template = before ++ .placeholder name :: after)
      (hb : Template.fill (Template.parameterText parameters) before = .ok shown)
      (hv : parameters.field? name = some v) (hf : v.toText = .error f) :
      RenderEscapes catalog language key parameters f

section Messages
variable {catalog : Catalog} {language key fallback : Value} {parameters : Fields} {f : Fault}

theorem Template.parameterText_eq_error_iff {name : Text} :
    parameterText parameters name = .error f ↔
      ∃ v, parameters.field? name = some v ∧ v.toText = .error f := by
  unfold parameterText
  cases parameters.field? name <;> simp

theorem Template.message_eq_error_iff {template : Text} :
    message template parameters = .error f ↔ ∃ before name after shown v,
      ofText template = before ++ .placeholder name :: after ∧
        fill (parameterText parameters) before = .ok shown ∧ parameters.field? name = some v ∧
          v.toText = .error f := by
  rw [message_eq_fill, fill_eq_error_iff]
  simp only [parameterText_eq_error_iff, exists_and_left]

def Catalog.rendered (parameters : Fields) (fallback : Value) : Value → Except Fault Value
  | .null => .ok fallback
  | .text template => (Template.message template parameters).map .text
  | .foreign (.bytes _) => .error .bytesNotText
  | v => .error (.notText v.familyTypeName)

theorem Catalog.render_of_get {v : Value} (h : catalog.get language key = .ok v) :
    catalog.render language key parameters fallback = rendered parameters fallback v := by
  rw [render, h]
  cases v with
  | text template =>
    show Except.bind (Template.message template parameters) _ = Except.map _ _
    cases Template.message template parameters <;> rfl
  | foreign object => cases object <;> rfl
  | _ => rfl

/-- A message is not rendered exactly for these reasons. -/
theorem Catalog.render_eq_error_iff :
    catalog.render language key parameters fallback = .error f ↔
      catalog.RenderEscapes language key parameters f := by
  constructor
  · intro h
    cases hget : catalog.get language key with
    | error g =>
      rw [render, hget] at h
      cases h
      exact .lookup hget
    | ok v =>
      rw [render_of_get hget] at h
      unfold rendered at h
      split at h
      · cases h
      · rename_i template
        cases hm : Template.message template parameters with
        | ok shown =>
          rw [hm] at h
          cases h
        | error g =>
          rw [hm] at h
          cases h
          obtain ⟨before, name, after, shown, v, ht, hb, hv, hf⟩ := Template.message_eq_error_iff.mp hm
          exact .parameter hget ht hb hv hf
      · cases h
        exact .bytes hget
      · rename_i hnull htext hbytes
        cases h
        refine .template hget hnull ?_ hbytes
        cases v with
        | text t => exact absurd rfl (htext t)
        | _ => rfl
  · intro h
    cases h with
    | lookup h =>
      rw [render, h]
      rfl
    | bytes h => exact render_of_get h
    | template h hnull htext hbytes =>
      rw [render_of_get h]
      unfold rendered
      split
      · exact absurd rfl hnull
      · cases htext
      · exact absurd rfl (hbytes _)
      · rfl
    | parameter h ht hb hv hf =>
      rw [render_of_get h, rendered, Template.message_eq_error_iff.mpr ⟨_, _, _, _, _, ht, hb, hv, hf⟩]
      rfl

end Messages
end Vetting
