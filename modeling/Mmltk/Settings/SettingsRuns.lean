import Mathlib.Data.List.Basic
import Mmltk.Settings.SettingsSystem

namespace Mmltk.Settings

namespace SettingsSystem

variable {V : Vocabulary} {tables : SettingsTables V} {system after : SettingsSystem V}
  {candidate : GuiSettingsState V} {operation : Operation V} {answer : SaveAnswer}

/-! All that an operation can do to the system, unless it unlocks the training configuration. -/

inductive Effect (tables : SettingsTables V) (system : SettingsSystem V) :
    SettingsSystem V → Prop where
  | kept (terminal : MutationResult) : Effect tables system { system with terminal }
  | lock : Effect tables system { system with trainingLocked := true }
  | recorded (candidate : GuiSettingsState V) (terminal : MutationResult) :
      Effect tables system { system with
        retrySnapshot := candidate
        retryable := true
        candidateVersion := system.candidateVersion + 1
        terminal }
  | saved (candidate : GuiSettingsState V) (terminal : MutationResult)
      (hvalid : tables.valid candidate = true)
      (hlocked : system.trainingLocked = true →
        candidate.train.sameConfiguration system.settingsState.train = true) :
      Effect tables system { system with
        settingsState := candidate
        revision := system.revision + 1
        retrySnapshot := tables.blank
        retryable := false
        candidateVersion := system.candidateVersion + 1
        terminal
        documents := system.documents ++ [⟨candidate, system.revision + 1⟩] }

/-- No document was written, and the settings are those before. -/
def Unsaved (system after : SettingsSystem V) : Prop :=
  after.settingsState = system.settingsState ∧ after.revision = system.revision ∧
    after.loaded = system.loaded ∧ after.documents = system.documents

theorem unsaved_refl : Unsaved system system := ⟨rfl, rfl, rfl, rfl⟩

def Settled {α : Type} (tables : SettingsTables V) (system : SettingsSystem V)
    (call : SettingsSystem V × Except Failure α) : Prop :=
  Effect tables system call.1 ∧ ∀ failure, call.2 = .error failure → Unsaved system call.1

structure Follows (system after : SettingsSystem V) : Prop where
  loaded : after.loaded = system.loaded
  revision_le : system.revision ≤ after.revision
  version_le : system.candidateVersion ≤ after.candidateVersion
  documents_le : system.documents.length ≤ after.documents.length
  same_revision : after.revision = system.revision → after.settingsState = system.settingsState
  same_documents : after.documents.length = system.documents.length →
    after.settingsState = system.settingsState ∧ after.revision = system.revision
  same_version : after.candidateVersion = system.candidateVersion →
    after.settingsState = system.settingsState ∧ after.retryable = system.retryable ∧
      after.retrySnapshot = system.retrySnapshot

theorem Follows.trans {later : SettingsSystem V} (h : Follows system after)
    (hlater : Follows after later) : Follows system later where
  loaded := hlater.loaded.trans h.loaded
  revision_le := Nat.le_trans h.revision_le hlater.revision_le
  version_le := Nat.le_trans h.version_le hlater.version_le
  documents_le := Nat.le_trans h.documents_le hlater.documents_le
  same_revision heq := by
    have hfirst := h.revision_le
    have hsecond := hlater.revision_le
    rw [hlater.same_revision (by omega), h.same_revision (by omega)]
  same_documents heq := by
    have hfirst := h.documents_le
    have hsecond := hlater.documents_le
    obtain ⟨hsettings, hrevision⟩ := h.same_documents (by omega)
    obtain ⟨hsettings', hrevision'⟩ := hlater.same_documents (by omega)
    exact ⟨hsettings'.trans hsettings, hrevision'.trans hrevision⟩
  same_version heq := by
    have hfirst := h.version_le
    have hsecond := hlater.version_le
    obtain ⟨hsettings, hretryable, hsnapshot⟩ := h.same_version (by omega)
    obtain ⟨hsettings', hretryable', hsnapshot'⟩ := hlater.same_version (by omega)
    exact ⟨hsettings'.trans hsettings, hretryable'.trans hretryable, hsnapshot'.trans hsnapshot⟩

theorem Effect.written (h : Effect tables system after) :
    after.documents = system.documents ++ [⟨after.settingsState, after.revision⟩] ∧
        after.revision = system.revision + 1 ∧ after.loaded = system.loaded ∨
      Unsaved system after := by
  cases h with
  | kept terminal => exact .inr unsaved_refl
  | lock => exact .inr unsaved_refl
  | recorded candidate terminal => exact .inr unsaved_refl
  | saved candidate terminal hvalid hsame => exact .inl ⟨rfl, rfl, rfl⟩

/-- Settings whose carried fields are trivial. -/
def plain : Vocabulary := ⟨Unit, Unit, Unit, inferInstance, inferInstance⟩

end SettingsSystem

end Mmltk.Settings
