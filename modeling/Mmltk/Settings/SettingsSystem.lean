import Mmltk.Settings.GuiSettings

namespace Mmltk.Settings

/-! The settings system. Every operation holds the mutation lock throughout, so one operation is one
step; what a call on the settings file meets is an argument of the operation. -/

/-- `SettingsLocation`: empty when the value is too long. -/
def locationCapacity : Nat := 512

def validLocation (location : String) : Bool :=
  location.utf8ByteSize ≠ 0 && location.utf8ByteSize ≤ locationCapacity

/-- `bounded_compute_error` and `bounded_detail` -/
def bounded (capacity : Nat) (detail : String) : String := String.ofList (detail.toList.take capacity)

def computeErrorCapacity : Nat := 4 * 1024

def storeDetailBytes : Nat := 256

inductive SettingsTerminal where
  | applied
  | rejected
  | persistenceFailed
  | notLoaded
  deriving DecidableEq, Repr

structure MutationResult where
  terminal : SettingsTerminal
  revision : Nat
  detail : String
  deriving DecidableEq, Repr

def MutationResult.applied (result : MutationResult) : Bool := result.terminal = .applied

structure Document (V : Vocabulary) where
  settings : GuiSettingsState V
  revision : Nat

/-- What `load_record` finds, or fails with, and what the write after it fails with. -/
structure SaveAnswer where
  frontier : Except String Nat
  write : Option String

structure SaveResult where
  succeeded : Bool
  revision : Nat
  detail : String
  deriving DecidableEq, Repr

variable {V : Vocabulary}

/-- `SettingsStore::save` -/
def save (tables : SettingsTables V) (answer : SaveAnswer) (settings : GuiSettingsState V)
    (revision : Nat) : SaveResult :=
  match answer.frontier with
  | .error detail => ⟨false, revision, bounded storeDetailBytes detail⟩
  | .ok frontier =>
      if revision ≤ frontier then
        ⟨false, revision, "settings revision is not newer than durable frontier"⟩
      else if ¬ tables.valid settings then
        ⟨false, revision, bounded storeDetailBytes "refusing to persist invalid typed GUI settings"⟩
      else
        match answer.write with
        | some detail => ⟨false, revision, bounded storeDetailBytes detail⟩
        | none => ⟨true, revision, ""⟩

/-- `documents` are those that `save` wrote, in order. -/
structure SettingsSystem (V : Vocabulary) where
  settingsState : GuiSettingsState V
  revision : Nat
  retrySnapshot : GuiSettingsState V
  h2dDataloaderOverride : Option Bool
  location : String
  candidateVersion : Nat
  loaded : Bool
  trainingLocked : Bool
  retryable : Bool
  terminal : MutationResult
  documents : List (Document V)

structure ExploreSourceFact where
  selection : ExploreDatasetSource
  compiledSource : String
  available : Bool
  deriving DecidableEq, Repr

structure SettingsUiState (V : Vocabulary) where
  revision : Nat
  settingsState : GuiSettingsState V
  trainExecution : ExecutionFacts
  trainingBatchDistribution : TrainingBatchDistribution
  trainingValidationExecution : ExecutionFacts
  validationExecution : ExecutionFacts
  predictionExecution : ExecutionFacts
  exploreSource : ExploreSourceFact
  validationSource : String

structure ExploreSettingsCandidate where
  version : Nat
  h2dDataloader : Bool
  deviceId : Int
  projection : ExploreProjection
  sampleSelection : ExploreClassSelection
  overlaySelection : ExploreClassSelection
  classCatalogIdentity : Nat
  augmentationPreviewEnabled : Bool
  showOriginalDimensions : Bool
  deriving DecidableEq, Repr

namespace GuiSettingsState

/-- `select_data_loading` -/
def selectDataLoading (state : GuiSettingsState V) (h2d : Bool) : GuiSettingsState V :=
  { state with
    train := { state.train with request := { state.train.request with h2dDataloader := h2d } }
    validate := { state.validate with h2dDataloader := h2d }
    predict := { state.predict with h2dDataloader := h2d }
    explore := { state.explore with h2dDataloader := h2d } }

/-- `directory / file` -/
def joinPath (directory file : String) : String :=
  if directory = "" ∨ directory.back = '/' then directory ++ file else directory ++ "/" ++ file

/-- `resolve_validation_source` -/
def validationSource (state : GuiSettingsState V) : String :=
  if state.validate.compiledPath ≠ "" then state.validate.compiledPath
  else if state.train.useCompiledDirectoryDefaults then
    joinPath state.train.compiledDatasetDir "val.bin"
  else state.train.request.valCompiledPath

/-- `resolve_explore_source` -/
def exploreSource (state : GuiSettingsState V) : ExploreSourceFact :=
  let compiledSource :=
    match state.explore.datasetSource with
    | .train => state.train.request.trainCompiledPath
    | .validation => state.train.request.valCompiledPath
    | .test => state.train.request.testCompiledPath
    | .custom => state.explore.customCompiledPath
  ⟨state.explore.datasetSource, compiledSource, compiledSource ≠ ""⟩

end GuiSettingsState

namespace SettingsSystem

def initial (tables : SettingsTables V) : SettingsSystem V where
  settingsState := tables.blank
  revision := 0
  retrySnapshot := tables.blank
  h2dDataloaderOverride := none
  location := ""
  candidateVersion := 0
  loaded := false
  trainingLocked := false
  retryable := false
  terminal := ⟨.notLoaded, 0, ""⟩
  documents := []

def lockTrainingConfiguration (system : SettingsSystem V) (revision : Nat) :
    SettingsSystem V × Except Failure Unit :=
  if ¬ system.loaded ∨ revision ≠ system.revision then
    (system, .error (.busy "training settings changed before admission"))
  else if system.trainingLocked then
    (system, .error (.busy "training settings are already admitted"))
  else ({ system with trainingLocked := true }, .ok ())

def unlockTrainingConfiguration (system : SettingsSystem V) : SettingsSystem V :=
  { system with trainingLocked := false }

def mutationCandidate (system : SettingsSystem V) : Except Failure (GuiSettingsState V) :=
  if system.loaded then .ok system.settingsState
  else .error (.unavailable "settings are not loaded")

def persist (tables : SettingsTables V) (system : SettingsSystem V) (candidate : GuiSettingsState V)
    (preserveRetryOnFailure : Bool) (answer : SaveAnswer) :
    SettingsSystem V × Except Failure MutationResult :=
  let settle := fun system : SettingsSystem V => (system, Except.ok system.terminal)
  if system.trainingLocked ∧ ¬ candidate.train.sameConfiguration system.settingsState.train then
    (system, .error (.busy "training configuration is locked during an admitted run"))
  else if ¬ system.loaded ∨ ¬ validLocation system.location then
    settle { system with terminal := ⟨.notLoaded, system.revision, "settings are not loaded"⟩ }
  else if system.revision = counterLimit - 1 then
    settle { system with
      terminal := ⟨.persistenceFailed, system.revision, "settings revision exhausted"⟩ }
  else if system.candidateVersion = counterLimit - 1 then
    settle { system with
      terminal := ⟨.persistenceFailed, system.revision, "settings candidate version exhausted"⟩ }
  else
    let revision := system.revision + 1
    let candidateVersion := system.candidateVersion + 1
    let saved := save tables answer candidate revision
    let system :=
      if saved.succeeded then
        { system with documents := system.documents ++ [⟨candidate, revision⟩] }
      else system
    if ¬ saved.succeeded ∨ saved.revision ≠ revision then
      let system :=
        if preserveRetryOnFailure then system
        else { system with retrySnapshot := candidate, retryable := true, candidateVersion }
      settle { system with
        terminal :=
          ⟨.persistenceFailed, system.revision, bounded computeErrorCapacity saved.detail⟩ }
    else
      settle { system with
        settingsState := candidate
        revision
        retrySnapshot := tables.blank
        retryable := false
        candidateVersion
        terminal := ⟨.applied, revision, ""⟩ }

def snapshot (tables : SettingsTables V) (system : SettingsSystem V) :
    Except Failure (SettingsUiState V) :=
  let state := system.h2dDataloaderOverride.elim system.settingsState
    system.settingsState.selectDataLoading
  let facts : Except String (SettingsUiState V) := do
    let trainExecution ← state.train.request.executionFacts tables.policies system.revision
    let trainingBatchDistribution ← state.train.request.batchDistribution
    let trainingValidationExecution ← state.train.request.validationFacts system.revision
    let validationExecution ← state.validate.executionFacts system.revision
    let predictionExecution ← state.predict.executionFacts system.revision
    return {
      revision := system.revision
      settingsState := state
      trainExecution
      trainingBatchDistribution
      trainingValidationExecution
      validationExecution
      predictionExecution
      exploreSource := state.exploreSource
      validationSource := state.validationSource }
  facts.mapError .invalidArgument

/-- What an Explore edit applies to. -/
def editable (system : SettingsSystem V) : GuiSettingsState V :=
  if system.retryable then system.retrySnapshot else system.settingsState

def exploreSettingsCandidate (system : SettingsSystem V) :
    Except Failure ExploreSettingsCandidate :=
  if ¬ system.loaded then .error (.unavailable "settings are not loaded")
  else
    let explore := system.editable.explore
    .ok {
      version := system.candidateVersion
      h2dDataloader := system.h2dDataloaderOverride.getD explore.h2dDataloader
      deviceId := explore.deviceId
      projection := explore.projection
      sampleSelection := .ofClasses explore.sampleClasses
      overlaySelection := .ofClasses explore.overlayClasses
      classCatalogIdentity := explore.classCatalogIdentity
      augmentationPreviewEnabled := system.editable.train.visualizeAugmentationInExplore
      showOriginalDimensions := explore.showOriginalDimensions }

/-- An operation after `persist`: a mutation that was not applied is an exception. -/
def settle {α : Type} (persisted : SettingsSystem V × Except Failure MutationResult)
    (reply : SettingsSystem V → Except Failure α) : SettingsSystem V × Except Failure α :=
  match persisted with
  | (system, .error failure) => (system, .error failure)
  | (system, .ok result) =>
      if result.applied then (system, reply system) else (system, .error (.failed result.detail))

def restoreTrainingCheckpoint (tables : SettingsTables V) (system : SettingsSystem V)
    (request : TrainRequest V.Recipe V.Options) (checkpoint : String) (answer : SaveAnswer) :
    SettingsSystem V × Except Failure Unit :=
  if system.trainingLocked then
    (system, .error (.busy "training configuration is locked during an admitted run"))
  else
    match system.mutationCandidate >>= tables.checkpointCandidate request checkpoint with
    | .error failure => (system, .error failure)
    | .ok candidate => settle (persist tables system candidate false answer) fun _ => .ok ()

/-- `Update` of a settings request. -/
def update (tables : SettingsTables V) (system : SettingsSystem V)
    (request : SettingsUpdateRequest V) (answer : SaveAnswer) :
    SettingsSystem V × Except Failure (SettingsUiState V) :=
  if request.updates.isEmpty ∧ request.laneConfiguration.isNone ∧
      request.trainingModelCount.isNone then
    (system, .error (.invalidIntent "invalid settings update"))
  else
    match system.mutationCandidate >>= tables.updateCandidate request with
    | .error failure => (system, .error failure)
    | .ok candidate => settle (persist tables system candidate false answer) (snapshot tables)

def reset (tables : SettingsTables V) (system : SettingsSystem V) (answer : SaveAnswer) :
    SettingsSystem V × Except Failure (SettingsUiState V) :=
  if system.trainingLocked then
    (system, .error (.busy "settings reset is locked during admitted training"))
  else if ¬ system.loaded then (system, .error (.unavailable "settings are not loaded"))
  else settle (persist tables system tables.defaults false answer) (snapshot tables)

def retry (tables : SettingsTables V) (system : SettingsSystem V) (answer : SaveAnswer) :
    SettingsSystem V × Except Failure MutationResult :=
  if ¬ system.retryable then (system, .ok system.terminal)
  else persist tables system system.retrySnapshot false answer

/-- `Update` of an Explore candidate. -/
def updateExplore (tables : SettingsTables V) (system : SettingsSystem V)
    (installed : ExploreSettingsCandidate) (edit : ExploreSettingsEdit) (answer : SaveAnswer) :
    SettingsSystem V × Except Failure ExploreSettingsCandidate :=
  if ¬ system.loaded then (system, .error (.unavailable "settings are not loaded"))
  else if installed.version ≠ system.candidateVersion then
    (system, .error (.busy "Explore settings candidate is stale"))
  else
    match edit.candidate tables system.editable with
    | .error failure => (system, .error failure)
    | .ok candidate =>
        settle (persist tables system candidate edit.classCatalogIdentity.isSome answer)
          exploreSettingsCandidate

inductive Operation (V : Vocabulary) where
  | update (request : SettingsUpdateRequest V) (answer : SaveAnswer)
  | reset (answer : SaveAnswer)
  | retry (answer : SaveAnswer)
  | updateExplore (installed : ExploreSettingsCandidate) (edit : ExploreSettingsEdit)
      (answer : SaveAnswer)
  | restoreTrainingCheckpoint (request : TrainRequest V.Recipe V.Options) (checkpoint : String)
      (answer : SaveAnswer)
  | lockTrainingConfiguration (revision : Nat)
  | unlockTrainingConfiguration

inductive Reply (V : Vocabulary) where
  | state (state : SettingsUiState V)
  | result (result : MutationResult)
  | candidate (candidate : ExploreSettingsCandidate)
  | done

def answered {α : Type} (reply : α → Reply V) (call : SettingsSystem V × Except Failure α) :
    SettingsSystem V × Except Failure (Reply V) :=
  (call.1, call.2.map reply)

def perform (tables : SettingsTables V) (system : SettingsSystem V) :
    Operation V → SettingsSystem V × Except Failure (Reply V)
  | .update request answer => answered .state (update tables system request answer)
  | .reset answer => answered .state (reset tables system answer)
  | .retry answer => answered .result (retry tables system answer)
  | .updateExplore installed edit answer =>
      answered .candidate (updateExplore tables system installed edit answer)
  | .restoreTrainingCheckpoint request checkpoint answer =>
      answered (fun _ => .done) (restoreTrainingCheckpoint tables system request checkpoint answer)
  | .lockTrainingConfiguration revision =>
      answered (fun _ => .done) (lockTrainingConfiguration system revision)
  | .unlockTrainingConfiguration => (unlockTrainingConfiguration system, .ok .done)

/-- The operations in the order the mutation lock admits them. -/
def run (tables : SettingsTables V) (system : SettingsSystem V) (operations : List (Operation V)) :
    SettingsSystem V :=
  operations.foldl (fun system operation => (perform tables system operation).1) system

end SettingsSystem

end Mmltk.Settings
