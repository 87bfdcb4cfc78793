import Vetting.Proofs.Outcome
import Vetting.Proofs.Value.Writing

/-!
# Logs that can be written

The events of the engine carry texts and booleans. A log can write them all if its context and the
id of the evaluation can be written.
-/

namespace Vetting

/-- Texts and booleans, which every log can write. -/
def Value.IsPlain (v : Value) : Prop := v.isText = true ∨ ∃ b, v = .boolean b

theorem Value.isPlain_text (t : Text) : (Value.text t).IsPlain := .inl rfl

theorem Value.isPlain_boolean (b : Bool) : (Value.boolean b).IsPlain := .inr ⟨b, rfl⟩

theorem Value.IsPlain.exists_display {v : Value} (h : v.IsPlain) : ∃ t, v.display = .ok t := by
  rcases h with h | ⟨b, rfl⟩
  · cases v with
    | text t => exact ⟨t, rfl⟩
    | _ => cases h
  · exact ⟨_, rfl⟩

theorem Value.IsPlain.exists_jsonForm {v : Value} (h : v.IsPlain) : ∃ w, v.jsonForm = .ok w := by
  rcases h with h | ⟨b, rfl⟩
  · cases v with
    | text t => exact ⟨_, rfl⟩
    | _ => cases h
  · exact ⟨_, rfl⟩

namespace Fields

/-- Whether the fields are texts and booleans under texts. -/
def ArePlain (fields : Fields) : Prop := ∀ field ∈ fields, field.1.isText = true ∧ field.2.IsPlain

theorem ArePlain.put {fields : Fields} (h : fields.ArePlain) {key value : Value}
    (hk : key.isText = true) (hv : value.IsPlain) : (fields.put key value).ArePlain := by
  induction fields with
  | nil => exact List.forall_mem_singleton.mpr ⟨hk, hv⟩
  | cons field rest ih =>
    obtain ⟨hf, hr⟩ := List.forall_mem_cons.mp h
    rw [Fields.put]
    split
    · exact List.forall_mem_cons.mpr ⟨⟨hf.1, hv⟩, hr⟩
    · exact List.forall_mem_cons.mpr ⟨hf, ih hr⟩

theorem ArePlain.putAll {fields changes : Fields} (h : fields.ArePlain) (hc : changes.ArePlain) :
    (fields.putAll changes).ArePlain := by
  induction changes generalizing fields with
  | nil => exact h
  | cons change rest ih =>
    obtain ⟨hf, hr⟩ := List.forall_mem_cons.mp hc
    exact ih (h.put hf.1 hf.2) hr

theorem arePlain_ofNamed {named : List (Text × Value)} (h : ∀ n ∈ named, n.2.IsPlain) :
    (ofNamed named).ArePlain := by
  intro field hfield
  obtain ⟨n, hn, rfl⟩ := List.mem_map.mp hfield
  exact ⟨rfl, h n hn⟩

theorem ArePlain.exists_jsonForm {fields : Fields} (h : fields.ArePlain) (done : Fields) :
    ∃ result, Value.jsonFormFields done fields = .ok result := by
  induction fields generalizing done with
  | nil => exact ⟨done, rfl⟩
  | cons field rest ih =>
    obtain ⟨⟨hk, hv⟩, hr⟩ := List.forall_mem_cons.mp h
    obtain ⟨k, v⟩ := field
    cases k with
    | text key =>
      obtain ⟨w, hw⟩ := hv.exists_jsonForm
      obtain ⟨result, hresult⟩ := ih hr (done.put (.text key) w)
      exact ⟨result, by rw [Value.jsonFormFields, hw]; exact hresult⟩
    | _ => cases hk

end Fields

/-- Whether the values of an event are texts and booleans under names that are free. -/
structure LogEvent.Plain (event : LogEvent) : Prop where
  names : Log.checkParts event.values = .ok ()
  values : ∀ named ∈ event.values, named.2.IsPlain

namespace Log

def Writable (log : Log) : Prop :=
  ∀ (instant : Int) (event : LogEvent), event.Plain → ∃ line, log.render instant event = .ok line

theorem Writable.exists_write {log : Log} (h : log.Writable) (instant : Int) {event : LogEvent}
    (he : event.Plain) : ∃ log', log.write instant event = .ok log' ∧ log'.Writable := by
  unfold write
  split
  · exact ⟨log, rfl, h⟩
  · obtain ⟨line, hline⟩ := h instant event he
    simp only [hline, bind, Except.bind, pure, Except.pure]
    split
    · exact ⟨_, rfl, h⟩
    · exact ⟨_, rfl, h⟩

theorem exists_valueTexts {values : List (Text × Value)} (h : ∀ named ∈ values, named.2.IsPlain) :
    ∃ texts, valueTexts values = .ok texts := by
  induction values with
  | nil => exact ⟨[], rfl⟩
  | cons named rest ih =>
    obtain ⟨hn, hr⟩ := List.forall_mem_cons.mp h
    obtain ⟨t, ht⟩ := hn.exists_display
    obtain ⟨texts, htexts⟩ := ih hr
    exact ⟨_, by rw [valueTexts, ht, htexts]; rfl⟩

/-- A log is writable when the evaluation has no id or a text as its id, and the context is plain. -/
theorem writable_of_plain {log : Log} (hid : log.evaluationId = .null ∨ log.evaluationId.isText = true)
    (hc : log.context.ArePlain) : log.Writable := by
  intro instant event he
  unfold render
  rw [he.names]
  simp only [bind, Except.bind]
  split
  · have hown : (Fields.ofNamed [("timestamp", .text (timestamp instant)), ("level", .text event.label),
        ("logger", .text log.name), ("message", .text event.message)]).ArePlain := by
      refine Fields.arePlain_ofNamed ?_
      simp [Value.isPlain_text]
    have hrecord : (log.record instant event).ArePlain := by
      unfold record
      refine Fields.ArePlain.putAll (Fields.ArePlain.putAll ?_ hc) (Fields.arePlain_ofNamed he.values)
      split
      · rename_i hset
        rcases hid with hid | hid
        · simp [hid, Value.isSet] at hset
        · exact hown.put rfl (.inl hid)
      · exact hown
    obtain ⟨fields, hf⟩ := hrecord.exists_jsonForm []
    exact ⟨_, by rw [hf]; rfl⟩
  · obtain ⟨texts, ht⟩ := exists_valueTexts he.values
    simp only [readable, ht, bind, Except.bind]
    rcases hid with hid | hid
    · exact ⟨_, by simp [hid, Value.isSet, pure, Except.pure]; rfl⟩
    · obtain ⟨id, hdisplay⟩ := (show log.evaluationId.IsPlain from .inl hid).exists_display
      simp only [hdisplay]
      cases log.evaluationId.isSet <;> exact ⟨_, rfl⟩

theorem writable_new (name : Text) (structured : Bool) (threshold : LogLevel) :
    (new name structured threshold).Writable :=
  writable_of_plain (.inl rfl) fun _ h => nomatch h

end Log
end Vetting
