import Mmltk.Foundation.Transaction

namespace Mmltk.ViewModel

open Mmltk.Foundation

/-! Installed snapshots. `V` stands for the values that the reductions only compare and copy. -/

inductive UiErrorKind where
  | invalidIntent
  | busy
  | unavailable
  | failed
  | transport
  | protocol
  | presentation
  deriving DecidableEq, Repr

structure UiError where
  kind : UiErrorKind
  title : String
  detail : String
  deriving DecidableEq, Repr

def UiError.protocol (detail : String) : UiError := ⟨.protocol, "Protocol error", detail⟩

inductive Observation where
  | installed
  | current
  | stale
  deriving DecidableEq, Repr

section Records

variable (V : Type)

structure SettingsUiState where
  revision : Nat
  rest : V
  deriving DecidableEq

inductive ComputeOperationOutcome where
  | idle
  | running
  | succeeded
  | failed
  | cancelled
  | cancellationRequested
  | refused
  deriving DecidableEq, Repr

structure ComputeProgress where
  sequence : Nat
  rest : V
  deriving DecidableEq

structure ComputeTerminal where
  outcome : ComputeOperationOutcome
  generation : Nat
  rest : V
  deriving DecidableEq

structure ComputeUiState where
  generationFrontier : Nat
  active : Bool
  progress : ComputeProgress V
  terminal : ComputeTerminal V
  output : V
  deriving DecidableEq

structure ExecutionFacts where
  operationGeneration : Nat
  admittedCapacity : Nat
  rest : V
  deriving DecidableEq

structure VisualFrame where
  revision : Nat
  rest : V
  deriving DecidableEq

structure PredictProgressState where
  revision : Nat
  operation : ComputeUiState V
  execution : ExecutionFacts V
  paused : Bool
  video : Bool
  deriving DecidableEq

/-- `rest`: the document, labels, image and preview of the frame, and the inspected source. -/
structure PredictSnapshot where
  revision : Nat
  operation : ComputeUiState V
  execution : ExecutionFacts V
  paused : Bool
  video : Bool
  frame : VisualFrame V
  rest : V
  deriving DecidableEq

inductive TrainingInspectionStatus where
  | idle
  | running
  | ready
  | failed
  | cancelled
  deriving DecidableEq, Repr

structure TrainingCheckpointCapability where
  resumable : Bool
  rest : V
  deriving DecidableEq

structure TrainingCheckpointInspection where
  generation : Nat
  path : String
  status : TrainingInspectionStatus
  checkpoint : Option (TrainingCheckpointCapability V)
  error : String
  deriving DecidableEq

/-- `localState` is the field `local`. -/
structure TrainingSnapshot where
  revision : Nat
  activity : V
  localState : ComputeUiState V
  offers : V
  remote : V
  metrics : V
  sources : V
  persistence : V
  inspection : TrainingCheckpointInspection V
  deriving DecidableEq

structure TrainingProgress where
  revision : Nat
  activity : V
  localState : ComputeUiState V
  metrics : V
  sources : V
  persistence : V
  deriving DecidableEq

inductive DatasetCompilePhase where
  | idle
  | planning
  | downloading
  | indexing
  | extracting
  | labels
  | pixels
  | compacting
  | syncing
  | publishing
  deriving DecidableEq, Repr

structure ArtifactProgress where
  phase : DatasetCompilePhase
  rest : V
  deriving DecidableEq

inductive ArtifactTerminalOutcome where
  | idle
  | succeeded
  | failed
  | cancelled
  | cancellationRequested
  | refused
  deriving DecidableEq, Repr

structure ArtifactTerminal where
  outcome : ArtifactTerminalOutcome
  rest : V
  deriving DecidableEq

structure ArtifactCompileState where
  revision : Nat
  generation : Nat
  active : Bool
  progress : ArtifactProgress V
  terminal : ArtifactTerminal V
  deriving DecidableEq

structure ArtifactUiState extends ArtifactCompileState V where
  inspection : V
  deriving DecidableEq

inductive ContinuationMode where
  | transfer
  | resume
  deriving DecidableEq, Repr

inductive CheckpointCapability where
  | idle
  | pending (request generation : Option Nat)
  | ready (checkpoint : TrainingCheckpointCapability V)
  | failed
  deriving DecidableEq

structure Continuation where
  mode : ContinuationMode
  selection : Option V
  artifact : Option String
  capability : CheckpointCapability V
  modeChosen : Bool
  cancelNeeded : Bool
  refreshRequested : Bool
  observed : Option (TrainingCheckpointInspection V)
  deriving DecidableEq

end Records

variable {V : Type} [DecidableEq V]

def PredictSnapshot.progress (snapshot : PredictSnapshot V) : PredictProgressState V where
  revision := snapshot.revision
  operation := snapshot.operation
  execution := snapshot.execution
  paused := snapshot.paused
  video := snapshot.video

/-- `apply_to`. -/
def PredictProgressState.applyTo (progress : PredictProgressState V) (target : PredictSnapshot V) :
    PredictSnapshot V :=
  { target with
    revision := progress.revision
    operation := progress.operation
    execution := progress.execution
    paused := progress.paused
    video := progress.video }

/-! The reductions: what is written to the target stays written when they fail. -/

abbrev Reduction (σ α : Type) := Transaction σ UiError α

/-- `observation.revision` decides: an older one is dropped, an equal one has to be the same. -/
def mergeObservation {T : Type} [DecidableEq T] (revision : T → Nat) (family : String)
    (incoming : T) : Reduction (Option T) Observation :=
  Transaction.read >>= fun target =>
    match target with
    | none => Transaction.modify (fun _ => some incoming) >>= fun _ => pure .installed
    | some installed =>
        if revision incoming < revision installed then pure .stale
        else if revision incoming = revision installed then
          if incoming ≠ installed then
            Transaction.fail
              (.protocol ("inconsistent " ++ family ++ " snapshot observation revision"))
          else pure .current
        else Transaction.modify (fun _ => some incoming) >>= fun _ => pure .installed

def ComputeOperationOutcome.isFinal (outcome : ComputeOperationOutcome) : Bool :=
  outcome = .succeeded || outcome = .failed || outcome = .cancelled || outcome = .refused

def ComputeOperationOutcome.rank : ComputeOperationOutcome → Nat
  | .idle => 0
  | .running => 1
  | .cancellationRequested => 2
  | .succeeded | .failed | .cancelled | .refused => 3

def mergeComputeState (incoming : ComputeUiState V) : Reduction (ComputeUiState V) Observation :=
  Transaction.read >>= fun target =>
    if incoming.generationFrontier < incoming.terminal.generation then
      Transaction.fail (.protocol "Compute snapshot terminal exceeds its generation frontier")
    else if incoming.generationFrontier < target.generationFrontier then pure .stale
    else if target.generationFrontier < incoming.generationFrontier then
      Transaction.modify (fun _ => incoming) >>= fun _ => pure .installed
    else if target.terminal.outcome.isFinal then
      if !incoming.terminal.outcome.isFinal then pure .stale
      else if incoming.terminal ≠ target.terminal then
        Transaction.fail (.protocol "inconsistent final Compute snapshot for one generation")
      else pure .current
    else
      let incoming :=
        if incoming.progress.sequence < target.progress.sequence then
          { incoming with progress := target.progress }
        else incoming
      let incoming :=
        if incoming.terminal.outcome.rank < target.terminal.outcome.rank then
          { incoming with terminal := target.terminal, active := target.active }
        else incoming
      if incoming = target then pure .current
      else Transaction.modify (fun _ => incoming) >>= fun _ => pure .installed

def mergeExecutionFacts (current incoming : ExecutionFacts V) : Except UiError (ExecutionFacts V) :=
  if incoming.operationGeneration < current.operationGeneration then .ok current
  else if incoming.operationGeneration = current.operationGeneration ∧
      current.admittedCapacity ≠ 0 then
    if incoming.admittedCapacity = 0 then .ok current
    else if incoming ≠ current then
      .error (.protocol "inconsistent inference capacity for one operation")
    else .ok incoming
  else .ok incoming

/-- What `merge_compute_state` makes of a copy of the operation. -/
def mergedOperation (operation incoming : ComputeUiState V) :
    Except UiError (Observation × ComputeUiState V) :=
  match mergeComputeState incoming operation with
  | (merged, .ok observation) => .ok (observation, merged)
  | (_, .error failure) => .error failure

/-- The snapshot that is installed, and the last full one. -/
abbrev PredictTarget (V : Type) := Option (PredictSnapshot V) × Option (PredictProgressState V)

def mergePredictSnapshot (incoming : PredictSnapshot V) : Reduction (PredictTarget V) Observation :=
  let full := incoming.progress
  Transaction.read >>= fun target =>
    match target with
    | (none, _) =>
        Transaction.modify (fun _ => (some incoming, some full)) >>= fun _ => pure .installed
    | (some _, none) => Transaction.fail (.protocol "installed Predict full observation")
    | (some installed, some previousFull) =>
        let latest := installed.progress
        if incoming.revision < previousFull.revision then pure .stale
        else if incoming.revision = previousFull.revision then
          if full ≠ previousFull then
            Transaction.fail (.protocol "inconsistent Predict snapshot revision")
          else if latest.applyTo incoming = installed then pure .current
          else Transaction.fail (.protocol "inconsistent Predict snapshot revision")
        else if incoming.frame.revision < installed.frame.revision then pure .stale
        else if incoming.frame.revision = installed.frame.revision ∧
            incoming.frame ≠ installed.frame then
          Transaction.fail (.protocol "inconsistent Predict frame revision")
        else
          Transaction.lift (mergedOperation installed.operation incoming.operation) >>= fun merged =>
            if merged.1 = .stale then pure .stale
            else if incoming.revision = latest.revision ∧ full ≠ latest then
              Transaction.fail (.protocol "inconsistent Predict progress revision")
            else
              let incoming := { incoming with operation := merged.2 }
              let incoming :=
                if incoming.revision < latest.revision then latest.applyTo incoming else incoming
              Transaction.lift (mergeExecutionFacts installed.execution incoming.execution) >>=
                fun execution =>
                  Transaction.modify (fun _ => (some { incoming with execution }, some full)) >>=
                    fun _ => pure .installed

def ArtifactTerminalOutcome.isFinal (outcome : ArtifactTerminalOutcome) : Bool :=
  outcome = .succeeded || outcome = .failed || outcome = .cancelled || outcome = .refused

def ArtifactTerminalOutcome.rank : ArtifactTerminalOutcome → Nat
  | .idle => 0
  | .cancellationRequested => 1
  | .succeeded | .failed | .cancelled | .refused => 2

def compareDatasetCompile (installed incoming : ArtifactCompileState V) :
    Except UiError Observation :=
  if incoming.generation < installed.generation ∨ incoming.revision < installed.revision then
    .ok .stale
  else if incoming.revision = installed.revision then
    if incoming = installed then .ok .current
    else .error (.protocol "inconsistent Dataset compile state revision")
  else if incoming.generation = installed.generation then
    if installed.terminal.outcome.isFinal then
      if incoming.terminal.outcome.isFinal ∧ incoming.terminal ≠ installed.terminal then
        .error (.protocol "inconsistent final Dataset snapshot for one generation")
      else .ok .stale
    else if incoming.terminal.outcome.rank < installed.terminal.outcome.rank then .ok .stale
    else if installed.active ∧ (!incoming.active ∧ !incoming.terminal.outcome.isFinal ∨
        incoming.progress.phase = .idle ∧ installed.progress.phase ≠ .idle) then .ok .stale
    else .ok .installed
  else .ok .installed

def mergeDatasetState (incoming : ArtifactUiState V) :
    Reduction (Option (ArtifactUiState V)) Observation :=
  Transaction.read >>= fun target =>
    match target with
    | none => Transaction.modify (fun _ => some incoming) >>= fun _ => pure .installed
    | some installed =>
        Transaction.lift (compareDatasetCompile installed.toArtifactCompileState
            incoming.toArtifactCompileState) >>= fun observation =>
          if observation ≠ .stale then
            Transaction.modify (fun _ => some incoming) >>= fun _ => pure observation
          else pure observation

/-! Checkpoint inspections, which have generations of their own. -/

def mergeCheckpointInspection (value : TrainingCheckpointInspection V) :
    Reduction (TrainingCheckpointInspection V) Unit :=
  Transaction.read >>= fun current =>
    if value.generation < current.generation then pure ()
    else if value.generation = current.generation then
      if value = current then pure ()
      else if value.path ≠ current.path then
        Transaction.fail (.protocol "inconsistent checkpoint inspection path")
      else if value.status = .running then pure ()
      else if current.status ≠ .running then
        Transaction.fail (.protocol "inconsistent checkpoint inspection terminal")
      else Transaction.modify fun _ => value
    else Transaction.modify fun _ => value

/-- `Continuation::observe`. -/
def Continuation.observe (continuation : Continuation V) (value : TrainingCheckpointInspection V) :
    Continuation V :=
  if continuation.artifact ≠ some value.path then continuation
  else
    match continuation.capability with
    | .pending _ none =>
        match continuation.observed with
        | some observed =>
            match mergeCheckpointInspection value observed with
            | (merged, .ok ()) => { continuation with observed := some merged }
            | (merged, .error _) =>
                { continuation with observed := some merged, capability := .failed }
        | none => { continuation with observed := some value }
    | .pending _ (some generation) =>
        if generation ≠ value.generation then continuation
        else
          match value.status with
          | .ready =>
              match value.checkpoint with
              | some checkpoint =>
                  { continuation with
                    mode :=
                      if continuation.modeChosen then continuation.mode
                      else if checkpoint.resumable then .resume
                      else .transfer
                    capability := .ready checkpoint }
              | none => { continuation with capability := .failed }
          | .failed | .cancelled => { continuation with capability := .failed }
          | .idle | .running => continuation
    | _ => continuation

/-! The model of the application. `O` are the snapshots of the other systems. -/

structure ApplicationModel (V O : Type) where
  settingsSnapshot : Option (SettingsUiState V)
  /-- `workflow.settings_revision`. -/
  settingsRevision : Option Nat
  /-- `predict_snapshot` and `predict_full_progress`. -/
  predict : PredictTarget V
  training : Option (TrainingSnapshot V)
  trainContinuation : Continuation V
  dataset : Option (ArtifactUiState V)
  others : O

variable {O : Type}

def installSettingsSnapshot (snapshot : SettingsUiState V) :
    Reduction (ApplicationModel V O) Observation :=
  Transaction.focus ApplicationModel.settingsSnapshot
      (fun model settings => { model with settingsSnapshot := settings }) id
      (mergeObservation SettingsUiState.revision "Settings" snapshot) >>= fun observation =>
    if observation = .installed then
      Transaction.modify (fun model => { model with settingsRevision := some snapshot.revision }) >>=
        fun _ => pure observation
    else pure observation

def installPredictSnapshot (snapshot : PredictSnapshot V) :
    Reduction (ApplicationModel V O) Observation :=
  Transaction.focus ApplicationModel.predict (fun model predict => { model with predict }) id
    (mergePredictSnapshot snapshot)

/-- The inspection is merged and observed before the revision of the snapshot is compared. -/
def installTrainingSnapshot (snapshot : TrainingSnapshot V) :
    Reduction (ApplicationModel V O) Observation :=
  Transaction.read >>= fun model =>
    (match model.training with
    | some current =>
        Transaction.focus (fun _ => current.inspection)
            (fun model inspection =>
              { model with training := some { current with inspection } }) id
            (mergeCheckpointInspection snapshot.inspection) >>= fun _ =>
          Transaction.read >>= fun merged =>
            pure { snapshot with
              inspection := (merged.training.map TrainingSnapshot.inspection).getD
                snapshot.inspection }
    | none => pure snapshot) >>= fun snapshot =>
      Transaction.modify
          (fun model =>
            { model with
              trainContinuation := model.trainContinuation.observe snapshot.inspection }) >>= fun _ =>
        Transaction.focus ApplicationModel.training (fun model training => { model with training }) id
          (mergeObservation TrainingSnapshot.revision "Training" snapshot)

def installTrainingProgress (progress : TrainingProgress V) :
    Reduction (ApplicationModel V O) Observation :=
  Transaction.read >>= fun model =>
    match model.training with
    | none => pure .stale
    | some installed =>
        if progress.revision < installed.revision then pure .stale
        else if progress.revision = installed.revision then
          if progress.activity ≠ installed.activity ∨ progress.localState ≠ installed.localState ∨
              progress.metrics ≠ installed.metrics ∨ progress.sources ≠ installed.sources ∨
              progress.persistence ≠ installed.persistence then
            Transaction.fail (.protocol "inconsistent Training progress observation revision")
          else pure .current
        else
          Transaction.modify
              (fun model =>
                { model with
                  training := some
                    { installed with
                      revision := progress.revision
                      activity := progress.activity
                      localState := progress.localState
                      metrics := progress.metrics
                      sources := progress.sources
                      persistence := progress.persistence } }) >>= fun _ => pure .installed

def installDatasetProgress (snapshot : ArtifactCompileState V) :
    Reduction (ApplicationModel V O) Observation :=
  Transaction.read >>= fun model =>
    match model.dataset with
    | none => pure .stale
    | some dataset =>
        Transaction.lift (compareDatasetCompile dataset.toArtifactCompileState snapshot) >>=
          fun observation =>
            if observation = .installed then
              Transaction.modify
                  (fun model =>
                    { model with
                      dataset := some { dataset with toArtifactCompileState := snapshot } }) >>=
                fun _ => pure observation
            else pure observation

def installDatasetSnapshot (snapshot : ArtifactUiState V) :
    Reduction (ApplicationModel V O) Observation :=
  Transaction.focus ApplicationModel.dataset (fun model dataset => { model with dataset }) id
    (mergeDatasetState snapshot)

/-- A snapshot of a bootstrap; those of the other systems are `S`. -/
inductive ApplicationSnapshot (V S : Type) where
  | settings (snapshot : SettingsUiState V)
  | predict (snapshot : PredictSnapshot V)
  | training (snapshot : TrainingSnapshot V)
  | dataset (snapshot : ArtifactUiState V)
  | other (snapshot : S)

/-- What the generated code and the other systems contribute. -/
structure Generated (V O S : Type) where
  schemaFingerprint : Nat × Nat
  bootstrapComplete : List (ApplicationSnapshot V S) → Bool
  /-- `ApplicationModel::default`, with what a bootstrap takes over from the model before. -/
  replacement : ApplicationModel V O → ApplicationModel V O
  installOther : S → Reduction O Unit

variable {S : Type}

def installSnapshot (generated : Generated V O S) (snapshot : ApplicationSnapshot V S) :
    Reduction (ApplicationModel V O) Unit :=
  match snapshot with
  | .settings snapshot => installSettingsSnapshot snapshot >>= fun _ => pure ()
  | .predict snapshot => installPredictSnapshot snapshot >>= fun _ => pure ()
  | .training snapshot => installTrainingSnapshot snapshot >>= fun _ => pure ()
  | .dataset snapshot => installDatasetSnapshot snapshot >>= fun _ => pure ()
  | .other snapshot =>
      Transaction.focus ApplicationModel.others (fun model others => { model with others }) id
        (generated.installOther snapshot)

def installSnapshots (generated : Generated V O S) :
    List (ApplicationSnapshot V S) → Reduction (ApplicationModel V O) Unit
  | [] => pure ()
  | snapshot :: rest => installSnapshot generated snapshot >>= fun _ => installSnapshots generated rest

/-- The snapshots go into a model of their own, which takes the place of this one at the end. -/
def installBootstrap (generated : Generated V O S) (fingerprint : Nat × Nat)
    (snapshots : List (ApplicationSnapshot V S)) : Reduction (ApplicationModel V O) Unit :=
  if fingerprint ≠ generated.schemaFingerprint then
    Transaction.fail (.protocol "application schema fingerprint mismatch")
  else if !generated.bootstrapComplete snapshots then
    Transaction.fail (.protocol
      "bootstrap does not contain every generated application snapshot exactly once")
  else
    Transaction.read >>= fun model =>
      match installSnapshots generated snapshots (generated.replacement model) with
      | (_, .error failure) => Transaction.fail failure
      | (replacement, .ok ()) => Transaction.modify fun _ => replacement

end Mmltk.ViewModel
