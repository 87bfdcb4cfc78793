import Vetting.Files
import Vetting.Proofs.Session

/-!
# Settings that are reloaded

A reload computes the new settings and their problems before it changes anything, so one that fails
leaves the session as it is. One that succeeds replaces all settings by the defaults with the document
merged into them. So after any number of reloads the settings are those of the last one that succeeded,
and nothing of the settings before it is left.
-/

namespace Vetting

namespace Settings

/-- The fields that a settings document adds to the defaults: those of a mapping, and none if the
document counts as nothing. Any other document is no settings. -/
def documentFields? (document : Value) : Option Fields :=
  if document.isSet then
    match document with
    | .object fields => some fields
    | _ => none
  else some []

def fresh (content : Except Fault Value) : Except Fault Fields := do
  let document ← content
  let fields ← ofContent document
  let _ ← problems fields
  return fields

theorem ofContent_eq_ok_iff {document : Value} {settings : Fields} :
    ofContent document = .ok settings ↔
      ∃ fields, documentFields? document = some fields ∧ settings = merge defaults fields := by
  unfold ofContent documentFields?
  cases document.isSet with
  | false => simp [merge, eq_comm]
  | true => cases document <;> simp [eq_comm]

/-- New settings are the defaults with the document merged into them, if their problems can be told. -/
theorem fresh_eq_ok_iff {content : Except Fault Value} {settings : Fields} :
    fresh content = .ok settings ↔
      ∃ document fields found, content = .ok document ∧ documentFields? document = some fields ∧
        settings = merge defaults fields ∧ problems settings = .ok found := by
  rw [fresh, bind_eq_ok_iff]
  constructor
  · rintro ⟨document, hc, h⟩
    rw [bind_eq_ok_iff] at h
    obtain ⟨_, hd, h⟩ := h
    rw [bind_eq_ok_iff] at h
    obtain ⟨found, hp, h⟩ := h
    cases h
    obtain ⟨fields, hfields, hmerge⟩ := ofContent_eq_ok_iff.mp hd
    exact ⟨document, fields, found, hc, hfields, hmerge, hp⟩
  · rintro ⟨document, fields, found, hc, hfields, hmerge, hp⟩
    refine ⟨document, hc, ?_⟩
    rw [bind_eq_ok_iff]
    refine ⟨settings, ofContent_eq_ok_iff.mpr ⟨fields, hfields, hmerge⟩, ?_⟩
    rw [bind_eq_ok_iff]
    exact ⟨found, hp, rfl⟩

end Settings

/-- A missing settings file counts as an empty one. -/
theorem Files.settings_of_missing {files : Files} {path : Text} (h : files path = .missing) :
    ∃ document, files.settings path = .ok document ∧ Settings.documentFields? document = some [] := by
  refine ⟨.null, ?_, rfl⟩
  rw [Files.settings, h]

namespace Engine

variable {σ : Type}

/-! ## One reload -/

/-- Warnings add lines to the log and change nothing else. -/
theorem outcome_warnings (problems : List Text) (s : Session σ) :
    ∃ log, outcome (forIn problems PUnit.unit fun problem _ => do
        logLine ("Invalid setting: " ++ problem)
        pure (.yield PUnit.unit)) s = (.ok ⟨⟩, { s with log }) := by
  induction problems generalizing s with
  | nil => exact ⟨s.log, rfl⟩
  | cons problem rest ih =>
    obtain ⟨log, h⟩ := ih (outcome (logLine ("Invalid setting: " ++ problem)) s).2
    refine ⟨log, ?_⟩
    rw [List.forIn_cons, bind_assoc]
    exact h

/-- A reload that succeeds replaces the settings, and may log warnings. -/
theorem outcome_reload_of_ok {content : Except Fault Value} {settings : Fields}
    (h : Settings.fresh content = .ok settings) (s : Session σ) :
    ∃ log, outcome (reload content) s = (.ok ⟨⟩, { s with settings, log }) := by
  obtain ⟨document, fields, found, rfl, hfields, hmerge, hp⟩ := Settings.fresh_eq_ok_iff.mp h
  obtain ⟨log, hlog⟩ := outcome_warnings found s
  have hdocument : outcome (ofFault (.ok document)) s = (.ok document, s) := rfl
  have hsettings : outcome (ofFault (Settings.ofContent document)) s = (.ok settings, s) := by
    rw [Settings.ofContent_eq_ok_iff.mpr ⟨fields, hfields, hmerge⟩]
    rfl
  have hproblems : outcome (ofFault (Settings.problems settings)) s = (.ok found, s) := by
    rw [hp]
    rfl
  refine ⟨log, ?_⟩
  rw [reload, outcome_bind_of_ok hdocument, outcome_bind_of_ok hsettings,
    outcome_bind_of_ok hproblems, outcome_bind_of_ok hlog]
  rfl

/-- A reload that fails does so before it has changed anything. -/
theorem outcome_reload_of_error {content : Except Fault Value} {f : Fault}
    (h : Settings.fresh content = .error f) (s : Session σ) :
    outcome (reload content) s = (.error (.fault f), s) := by
  cases content with
  | error g =>
    cases h
    rfl
  | ok document =>
    have hdocument : outcome (ofFault (.ok document)) s = (.ok document, s) := rfl
    rw [reload, outcome_bind_of_ok hdocument]
    cases hd : Settings.ofContent document with
    | error g =>
      have hg : Settings.fresh (.ok document) = .error g := by
        simp [Settings.fresh, hd, bind, Except.bind]
      cases hg.symm.trans h
      rfl
    | ok settings =>
      have hsettings : outcome (ofFault (.ok settings)) s = (.ok settings, s) := rfl
      rw [outcome_bind_of_ok hsettings]
      cases hp : Settings.problems settings with
      | error g =>
        have hg : Settings.fresh (.ok document) = .error g := by
          simp [Settings.fresh, hd, hp, bind, Except.bind]
        cases hg.symm.trans h
        rfl
      | ok found =>
        obtain ⟨fields, hfields, hmerge⟩ := Settings.ofContent_eq_ok_iff.mp hd
        have hok := Settings.fresh_eq_ok_iff.mpr ⟨document, fields, found, rfl, hfields, hmerge, hp⟩
        cases hok.symm.trans h

theorem isOk_reload_iff {content : Except Fault Value} {s : Session σ} :
    (outcome (reload content) s).1.isOk = true ↔ ∃ document fields found,
      content = .ok document ∧ Settings.documentFields? document = some fields ∧
        Settings.problems (Settings.merge Settings.defaults fields) = .ok found := by
  cases h : Settings.fresh content with
  | error f =>
    rw [outcome_reload_of_error h]
    constructor
    · intro hok
      cases hok
    · rintro ⟨document, fields, found, hc, hfields, hp⟩
      cases h.symm.trans (Settings.fresh_eq_ok_iff.mpr ⟨_, _, _, hc, hfields, rfl, hp⟩)
  | ok settings =>
    obtain ⟨log, hok⟩ := outcome_reload_of_ok h s
    obtain ⟨document, fields, found, hc, hfields, rfl, hp⟩ := Settings.fresh_eq_ok_iff.mp h
    rw [hok]
    exact ⟨fun _ => ⟨document, fields, found, hc, hfields, hp⟩, fun _ => rfl⟩

theorem session_of_raises_reload {content : Except Fault Value} {s : Session σ} {e : Failure}
    (he : Raises (reload content) s e) : (outcome (reload content) s).2 = s := by
  cases h : Settings.fresh content with
  | error f => rw [outcome_reload_of_error h]
  | ok settings =>
    obtain ⟨log, hok⟩ := outcome_reload_of_ok h s
    exact absurd he (not_raises_of_ok hok)

/-! ## Reloads one after the other -/

def afterReloads (s : Session σ) : List (Except Fault Value) → Session σ
  | [] => s
  | content :: rest => afterReloads (outcome (reload content) s).2 rest

def lastReloaded? (s : Session σ) : List (Except Fault Value) → Option (Except Fault Value)
  | [] => none
  | content :: rest =>
    match lastReloaded? (outcome (reload content) s).2 rest with
    | some later => some later
    | none => if (outcome (reload content) s).1.isOk then some content else none

/-- Settings that go back to one content: the defaults with its document merged into them. Without a
content they are the settings of the start. -/
def SettingsFrom (start : Fields) (content : Option (Except Fault Value)) (settings : Fields) : Prop :=
  match content with
  | none => settings = start
  | some content => ∃ document fields, content = .ok document ∧
      Settings.documentFields? document = some fields ∧
      settings = Settings.merge Settings.defaults fields

theorem settingsFrom_afterReloads (s : Session σ) (contents : List (Except Fault Value)) :
    SettingsFrom s.settings (lastReloaded? s contents) (afterReloads s contents).settings := by
  induction contents generalizing s with
  | nil => rfl
  | cons content rest ih =>
    have hrest := ih (outcome (reload content) s).2
    rw [lastReloaded?, afterReloads]
    cases hlast : lastReloaded? (outcome (reload content) s).2 rest with
    | some later =>
      rw [hlast] at hrest
      exact hrest
    | none =>
      -- no later reload succeeds, so the settings stay as this one leaves them
      rw [hlast] at hrest
      cases h : Settings.fresh content with
      | error f =>
        rw [outcome_reload_of_error h] at hrest ⊢
        exact hrest
      | ok settings =>
        obtain ⟨log, hok⟩ := outcome_reload_of_ok h s
        obtain ⟨document, fields, _, hc, hfields, hmerge, _⟩ := Settings.fresh_eq_ok_iff.mp h
        rw [hok] at hrest ⊢
        exact ⟨document, fields, hc, hfields, hrest.trans hmerge⟩

/-- Whatever reading the settings file gives, a reload succeeds exactly if that is a document that is a
mapping or nothing, as for a missing file, and the problems of the merged settings can be told; one
that fails changes nothing. After any reloads the settings are the defaults with the document of the last
one that succeeded merged into them, and the settings of the start if none did. -/
theorem reloads_leave_settings_of_last (s : Session σ) (contents : List (Except Fault Value)) :
    (∀ (files : Files) (path : Text), files path = .missing →
        ∃ document, files.settings path = .ok document ∧
          Settings.documentFields? document = some []) ∧
      (∀ (t : Session σ) (content : Except Fault Value),
        ((outcome (reload content) t).1.isOk = true ↔ ∃ document fields found,
            content = .ok document ∧ Settings.documentFields? document = some fields ∧
              Settings.problems (Settings.merge Settings.defaults fields) = .ok found) ∧
          ∀ e, Raises (reload content) t e → (outcome (reload content) t).2 = t) ∧
      SettingsFrom s.settings (lastReloaded? s contents) (afterReloads s contents).settings := by
  refine ⟨fun files path h => Files.settings_of_missing h, fun t content => ⟨isOk_reload_iff, ?_⟩,
    settingsFrom_afterReloads s contents⟩
  exact fun e he => session_of_raises_reload he

end Engine
end Vetting
