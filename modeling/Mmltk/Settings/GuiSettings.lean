import Mmltk.Settings.ExecutionPlan

namespace Mmltk.Settings

/-! The settings document, and the candidates that requests derive from it. -/

/-- The types of the fields that are carried along, and of a value in an update. -/
structure Vocabulary where
  Recipe : Type
  Options : Type
  Value : Type
  recipeEq : DecidableEq Recipe
  optionsEq : DecidableEq Options

attribute [instance] Vocabulary.recipeEq Vocabulary.optionsEq

inductive ModelSelectionSource where
  | canonical
  | custom
  deriving DecidableEq, Repr

inductive ModelArtifactInputKind where
  | none
  | weights
  | onnx
  | tensorRt
  deriving DecidableEq, Repr

structure WorkflowOutputSelection where
  directory : String
  automatic : Bool
  deriving DecidableEq, Repr

/-- `options` are the members, its base's included, that no settings operation names. -/
structure TrainViewState (V : Vocabulary) where
  request : TrainRequest V.Recipe V.Options
  modelSource : ModelSelectionSource
  modelInput : ModelArtifactInputKind
  compiledDatasetDir : String
  output : WorkflowOutputSelection
  useCompiledDirectoryDefaults : Bool
  options : V.Options
  visualizeAugmentationInExplore : Bool
  deriving DecidableEq

/-- The fields of a validation or prediction request. -/
structure InferenceRequest where
  h2dDataloader : Bool
  batchSize : Nat
  lanes : Int
  compiledPath : String
  deriving DecidableEq, Repr

def InferenceRequest.executionFacts (request : InferenceRequest) (revision : Nat) :
    Except String ExecutionFacts :=
  inferenceFacts request.batchSize request.lanes revision

inductive ExploreDatasetSource where
  | train
  | validation
  | test
  | custom
  deriving DecidableEq, Repr

inductive ExploreOrder where
  | sequential
  | shuffled
  deriving DecidableEq, Repr

/-- The members that `ExploreSettingsProjection` relates to a filter update. -/
structure ExploreProjection where
  requireBoxes : Bool
  requireMasks : Bool
  minInstances : Nat
  maxInstances : Nat
  minCompiledIndex : Nat
  maxCompiledIndex : Nat
  order : ExploreOrder
  shuffleSeed : Nat
  showBoxes : Bool
  showMasks : Bool
  showKeypoints : Bool
  showLabels : Bool
  deriving DecidableEq, Repr

structure ExploreViewState where
  h2dDataloader : Bool
  datasetSource : ExploreDatasetSource
  customCompiledPath : String
  deviceId : Int
  projection : ExploreProjection
  classCatalogIdentity : Nat
  sampleClasses : List Bool
  overlayClasses : List Bool
  showOriginalDimensions : Bool
  deriving DecidableEq, Repr

/-- `options` are the fields outside the four workflows. -/
structure GuiSettingsState (V : Vocabulary) where
  train : TrainViewState V
  validate : InferenceRequest
  predict : InferenceRequest
  explore : ExploreViewState
  options : V.Options
  deriving DecidableEq

structure SettingsValueUpdate (V : Vocabulary) where
  path : String
  /-- `none` is the null value. -/
  value : Option V.Value

structure SettingsUpdateRequest (V : Vocabulary) where
  laneConfiguration : Option (TrainLaneConfiguration V.Recipe)
  trainingModelCount : Option Nat
  updates : List (SettingsValueUpdate V)

/-- A member of `TrainRecipeCatalog`: a null value restores it, any other overrides the catalog. -/
structure RecipeMember (V : Vocabulary) where
  path : String
  restore : V.Recipe → V.Recipe
  overridden : V.Recipe → V.Recipe

/-- The tables that reflection makes of the declarations of the settings. -/
structure SettingsTables (V : Vocabulary) where
  policies : FieldPolicies V.Recipe V.Options
  /-- `apply_gui_settings_values(_, _, false)` -/
  applyValues : List (String × V.Value) → GuiSettingsState V → Option (GuiSettingsState V)
  recipeMembers : List (RecipeMember V)
  resolveTrainRecipe : V.Recipe → V.Recipe
  /-- `training_stochastic_key(seed, id, 0, 0)` -/
  stochasticKey : Int → Nat → Nat
  /-- `gui_settings_valid`, but for the execution facts of the workflows. -/
  fieldsValid : GuiSettingsState V → Bool
  /-- `default_gui_settings_state()` -/
  defaults : GuiSettingsState V
  /-- `GuiSettingsState{}` -/
  blank : GuiSettingsState V

inductive Failure where
  | busy (message : String)
  | unavailable (message : String)
  | invalidIntent (message : String)
  | invalidArgument (message : String)
  | failed (detail : String)
  deriving DecidableEq, Repr

variable {V : Vocabulary}

/-- `same_training_configuration` -/
def TrainViewState.sameConfiguration (left right : TrainViewState V) : Bool :=
  left.request = right.request && left.modelSource = right.modelSource &&
    left.modelInput = right.modelInput && left.compiledDatasetDir = right.compiledDatasetDir &&
    left.useCompiledDirectoryDefaults = right.useCompiledDirectoryDefaults &&
    left.options = right.options

namespace SettingsTables

/-- `valid_execution_products` of the three workflows, and the rest of `gui_settings_valid`. -/
def valid (tables : SettingsTables V) (state : GuiSettingsState V) : Bool :=
  (state.train.request.executionFacts tables.policies 0).isOk &&
    (state.train.request.validationFacts 0).isOk && (state.validate.executionFacts 0).isOk &&
    (state.predict.executionFacts 0).isOk && tables.fieldsValid state

/-- The visits of one catalog member to the updates that name it. -/
def applyMember (member : RecipeMember V) (updates : List (SettingsValueUpdate V))
    (recipe : V.Recipe) : V.Recipe :=
  updates.foldl (fun recipe update =>
    if update.path = member.path then
      match update.value with
      | none => member.restore recipe
      | some _ => member.overridden recipe
    else recipe) recipe

/-- `apply_train_recipe_relation`, and whether it found the updates valid. -/
def applyTrainRecipeRelation (tables : SettingsTables V) (candidate : GuiSettingsState V)
    (updates : List (SettingsValueUpdate V)) : GuiSettingsState V × Bool :=
  let request := candidate.train.request
  let recipe := tables.recipeMembers.foldl
    (fun recipe member => applyMember member updates recipe) request.recipe
  let related := fun update : SettingsValueUpdate V =>
    tables.recipeMembers.any fun member => member.path = update.path
  ({ candidate with train := { candidate.train with
      request := { request with recipe := tables.resolveTrainRecipe recipe } } },
    updates.all (fun update => update.value.isSome || related update) &&
      decide (updates.map (·.path)).Nodup)

/-- The models of a replacement keep their identities. -/
def checkMembership (replacement previous : TrainLaneConfiguration V.Recipe) :
    Except Failure Unit :=
  if replacement.nextModelId ≠ previous.nextModelId ∨
      replacement.models.length ≠ previous.models.length then
    .error (.invalidIntent "use the native model-count operation to change training membership")
  else if replacement.models.map (·.modelId) ≠ previous.models.map (·.modelId) then
    .error (.invalidIntent "training model identities are native-owned")
  else .ok ()

def resizeModels (tables : SettingsTables V) (request : TrainRequest V.Recipe V.Options)
    (count : Nat) : Except Failure (TrainRequest V.Recipe V.Options) :=
  match request.laneConfiguration.resize count request.recipe (tables.stochasticKey request.seed) with
  | .error message => .error (.invalidArgument message)
  | .ok laneConfiguration => .ok { request with laneConfiguration }

/-- `Update`, the lane configuration of a request. -/
def replaceLanes (tables : SettingsTables V) (request : TrainRequest V.Recipe V.Options)
    (replacement : TrainLaneConfiguration V.Recipe) (count : Option Nat) :
    Except Failure (TrainRequest V.Recipe V.Options) := do
  if ¬ tables.policies.laneFieldsValid replacement then
    .error (.invalidIntent "invalid typed training lane configuration")
  checkMembership replacement request.laneConfiguration
  let models := replacement.models.map fun model =>
    { model with recipe := tables.resolveTrainRecipe model.recipe }
  let request := { request with laneConfiguration := { replacement with models } }
  if count.isNone ∧ replacement.mode ≠ .sharedGradients then
    if models.isEmpty then tables.resizeModels request request.lanes.toNat
    else .ok { request with lanes := models.length }
  else .ok request

/-- `Update`, the model count of a request. -/
def replaceCount (tables : SettingsTables V) (request : TrainRequest V.Recipe V.Options)
    (updates : List (SettingsValueUpdate V)) (count : Nat) :
    Except Failure (TrainRequest V.Recipe V.Options) := do
  if count = 0 ∨ count > maximumTrainingModels then
    .error (.invalidIntent "training model count must be between one and sixteen")
  if updates.any fun update => update.path = "workflows.train.request.lanes" then
    .error (.invalidIntent "training model count and lane edits conflict")
  let request ← tables.resizeModels request count
  return { request with lanes := count }

def withRequest (candidate : GuiSettingsState V) (request : TrainRequest V.Recipe V.Options) :
    GuiSettingsState V :=
  { candidate with train := { candidate.train with request } }

/-- What `Update` makes of the installed settings. -/
def updateCandidate (tables : SettingsTables V) (request : SettingsUpdateRequest V)
    (candidate : GuiSettingsState V) : Except Failure (GuiSettingsState V) := do
  let ordinary := request.updates.filterMap fun update =>
    update.value.map fun value => (update.path, value)
  let candidate ←
    if ordinary.isEmpty then .ok candidate
    else
      match tables.applyValues ordinary candidate with
      | none => .error (.invalidIntent "invalid settings update")
      | some candidate => .ok candidate
  let related := tables.applyTrainRecipeRelation candidate request.updates
  if ¬ related.2 then .error (.invalidIntent "invalid settings update")
  let training ←
    match request.laneConfiguration with
    | none => .ok related.1.train.request
    | some replacement =>
        tables.replaceLanes related.1.train.request replacement request.trainingModelCount
  let training ←
    match request.trainingModelCount with
    | none => .ok training
    | some count => tables.replaceCount training request.updates count
  let candidate := withRequest related.1 training
  if ¬ tables.valid candidate then .error (.invalidIntent "invalid settings update")
  match training.executionFacts tables.policies 0 with
  | .error message => .error (.invalidArgument message)
  | .ok _ => .ok candidate

/-- What `RestoreTrainingCheckpoint` makes of them. -/
def checkpointCandidate (tables : SettingsTables V) (request : TrainRequest V.Recipe V.Options)
    (checkpoint : String) (candidate : GuiSettingsState V) :
    Except Failure (GuiSettingsState V) :=
  let deviceIds := if request.deviceIds.isEmpty then [request.deviceId] else request.deviceIds
  let request := { request with
    outputDir := ""
    fromScratch := false
    encoderWeightsPath := ""
    weightsPath := checkpoint
    classLayoutPath := ""
    resumePath := checkpoint
    distributedWorker := false
    distributedRank := 0
    distributedWorldSize := 1
    distributedStorePath := ""
    deviceIds }
  let candidate := { candidate with train := { candidate.train with
    request
    useCompiledDirectoryDefaults := false
    modelSource := .custom
    modelInput := .weights } }
  if tables.valid candidate then .ok candidate
  else .error (.invalidIntent "checkpoint training settings are invalid")

end SettingsTables

inductive ExploreClassSelectionMode where
  | all
  | none
  | subset
  deriving DecidableEq, Repr

structure ExploreClassSelection where
  mode : ExploreClassSelectionMode
  classes : List Nat
  deriving DecidableEq, Repr

structure ExploreFilterUpdate where
  projection : ExploreProjection
  sampleSelection : ExploreClassSelection
  overlaySelection : ExploreClassSelection
  deriving DecidableEq, Repr

structure ExploreSettingsEdit where
  preferences : Option ExploreFilterUpdate
  augmentationEnabled : Option Bool
  showOriginalDimensions : Option Bool
  classCatalogIdentity : Option Nat
  deriving DecidableEq, Repr

namespace ExploreClassSelection

/-- `project` of `explore_preferences` -/
def ofClasses (values : List Bool) : ExploreClassSelection :=
  let selected := values.count true
  if selected = values.length then ⟨.all, []⟩
  else if selected = 0 then ⟨.none, []⟩
  else ⟨.subset, (List.range values.length).filter fun index => values.getD index false⟩

def installSubset : List Nat → List Bool → Except Failure (List Bool)
  | [], target => .ok target
  | index :: rest, target =>
      if index ≥ target.length then
        .error (.invalidIntent "Explore class is outside settings capacity")
      else installSubset rest (target.set index true)

/-- `install` of `install_explore_preferences` -/
def install (selection : ExploreClassSelection) (target : List Bool) :
    Except Failure (List Bool) :=
  match selection.mode with
  | .all => .ok (target.map fun _ => true)
  | .none => .ok (target.map fun _ => false)
  | .subset => installSubset selection.classes (target.map fun _ => false)

end ExploreClassSelection

/-- `install_explore_preferences` -/
def ExploreViewState.install (explore : ExploreViewState) (request : ExploreFilterUpdate) :
    Except Failure ExploreViewState := do
  let sampleClasses ← request.sampleSelection.install explore.sampleClasses
  let overlayClasses ← request.overlaySelection.install explore.overlayClasses
  return { explore with projection := request.projection, sampleClasses, overlayClasses }

namespace ExploreSettingsEdit

/-- The refusal of an edit that makes the settings invalid. -/
def invalidDetail (edit : ExploreSettingsEdit) : String :=
  if edit.classCatalogIdentity.isSome then "Explore preferences are invalid"
  else if edit.preferences.isSome then
    if edit.augmentationEnabled.isSome then "Explore product preferences are invalid"
    else "Explore filter preferences are invalid"
  else if edit.showOriginalDimensions.isSome then "Explore detail settings are invalid"
  else "Explore augmentation settings are invalid"

/-- What an Explore edit makes of the settings it was issued for. -/
def candidate (edit : ExploreSettingsEdit) (tables : SettingsTables V)
    (settings : GuiSettingsState V) : Except Failure (GuiSettingsState V) := do
  if edit.classCatalogIdentity.isSome ∧ edit.preferences.isNone then
    .error (.invalidIntent "Explore preferences are invalid")
  let explore ←
    match edit.preferences with
    | none => .ok settings.explore
    | some preferences => settings.explore.install preferences
  let settings := { settings with
    train := { settings.train with
      visualizeAugmentationInExplore :=
        edit.augmentationEnabled.getD settings.train.visualizeAugmentationInExplore }
    explore := { explore with
      showOriginalDimensions :=
        edit.showOriginalDimensions.getD explore.showOriginalDimensions
      classCatalogIdentity := edit.classCatalogIdentity.getD explore.classCatalogIdentity } }
  if tables.valid settings then .ok settings else .error (.invalidIntent edit.invalidDetail)

end ExploreSettingsEdit

end Mmltk.Settings
