import Mathlib.Algebra.Group.Nat.Defs

namespace Mmltk.Settings

/-! Training requests and what is derived from them. -/

def counterLimit : Nat := 2 ^ 64

def maximumTrainingModels : Nat := 16

inductive TrainLaneMode where
  | sharedGradients
  | independent
  | periodicAveraging
  deriving DecidableEq, Repr

inductive TrainFinalPolicy where
  | off
  | uniform
  | explicit
  | validationGreedy
  deriving DecidableEq, Repr

/-- `coefficient` is a double, by its bits. -/
structure TrainModelSettings (Recipe : Type) where
  modelId : Nat
  seed : Nat
  recipe : Recipe
  coefficient : BitVec 64
  deriving DecidableEq

structure TrainLaneConfiguration (Recipe : Type) where
  mode : TrainLaneMode
  models : List (TrainModelSettings Recipe)
  nextModelId : Nat
  mergeRounds : Nat
  finalPolicy : Option TrainFinalPolicy
  deriving DecidableEq

/-- The fields of a request that the settings read or write. `options` stands for the others. -/
structure TrainRequest (Recipe Options : Type) where
  h2dDataloader : Bool
  batchSize : Nat
  gradAccumSteps : Int
  valBatchSize : Nat
  trainCompiledPath : String
  valCompiledPath : String
  testCompiledPath : String
  weightsPath : String
  classLayoutPath : String
  resumePath : String
  encoderWeightsPath : String
  fromScratch : Bool
  outputDir : String
  distributedStorePath : String
  seed : Int
  lanes : Int
  deviceId : Int
  deviceIds : List Int
  distributedRank : Int
  distributedWorldSize : Int
  distributedWorker : Bool
  recipe : Recipe
  laneConfiguration : TrainLaneConfiguration Recipe
  validationLanes : Int
  options : Options
  deriving DecidableEq

/-- `validate_reflected_fields` and `train_recipe_valid` of the parts of a request, and whether
doubles have a finite positive sum. -/
structure FieldPolicies (Recipe Options : Type) where
  recipeValid : Recipe → Bool
  dataPolicyValid : Options → Bool
  laneFieldsValid : TrainLaneConfiguration Recipe → Bool
  positiveFiniteSum : List (BitVec 64) → Bool

/-- 1.0 -/
def unitCoefficient : BitVec 64 := 0x3ff0000000000000

inductive ExecutionLimitation where
  | none
  | experimentalIndependentModels
  | experimentalPeriodicAveraging
  deriving DecidableEq, Repr

structure ExecutionFacts where
  settingsRevision : Nat
  logicalModels : Nat
  microbatchesPerAttempt : Nat
  effectiveBatchPerModel : Nat
  aggregateRoundImages : Nat
  configuredCapacity : Nat
  limitation : ExecutionLimitation
  deriving DecidableEq, Repr

structure TrainingBatchDistribution where
  ranks : Nat
  minimumRankBatch : Nat
  maximumRankBatch : Nat
  deriving DecidableEq, Repr

variable {Recipe Options : Type}

def checkedTrainingProduct (left right : Nat) : Except String Nat :=
  if right ≠ 0 ∧ left > (counterLimit - 1) / right then
    .error "training logical count overflows"
  else .ok (left * right)

namespace TrainLaneConfiguration

def effectiveFinalPolicy (configuration : TrainLaneConfiguration Recipe) : TrainFinalPolicy :=
  configuration.finalPolicy.getD
    (if configuration.mode = .independent then .validationGreedy else .off)

/-- The loop that appends models until there are `count`. -/
def appendModels (key : Nat → Nat) (recipe : Recipe) :
    Nat → TrainLaneConfiguration Recipe → TrainLaneConfiguration Recipe
  | 0, configuration => configuration
  | missing + 1, configuration =>
      let id := configuration.nextModelId
      appendModels key recipe missing { configuration with
        nextModelId := id + 1
        models := configuration.models ++ [⟨id, key id, recipe, unitCoefficient⟩] }

/-- `resize_training_models`; `key` is `training_stochastic_key` of the session's seed. -/
def resize (configuration : TrainLaneConfiguration Recipe) (count : Nat) (recipe : Recipe)
    (key : Nat → Nat) : Except String (TrainLaneConfiguration Recipe) :=
  if count = 0 ∨ count > maximumTrainingModels then
    .error "model count must be between one and sixteen"
  else if configuration.nextModelId = 0 ∨
      count - min count configuration.models.length >
        counterLimit - 1 - configuration.nextModelId then
    .error "training model identity exhausted"
  else
    let kept := configuration.models.take count
    .ok (appendModels key recipe (count - kept.length) { configuration with models := kept })

end TrainLaneConfiguration

namespace TrainRequest

/-- The loop over the models: each against those before it. -/
def validateModels (policies : FieldPolicies Recipe Options) (nextModelId : Nat)
    (prior : List (TrainModelSettings Recipe)) :
    List (TrainModelSettings Recipe) → Except String Unit
  | [] => .ok ()
  | model :: rest =>
      if model.modelId ≥ nextModelId ∨ ¬ policies.recipeValid model.recipe then
        .error "invalid training model identity or recipe"
      else if prior.any fun earlier => earlier.modelId = model.modelId then
        .error "duplicate training model identity"
      else validateModels policies nextModelId (prior ++ [model]) rest

/-- `validate_training_configuration` -/
def validateConfiguration (policies : FieldPolicies Recipe Options)
    (request : TrainRequest Recipe Options) : Except String Unit := do
  let configuration := request.laneConfiguration
  if ¬ policies.recipeValid request.recipe then
    .error "invalid training recipe: UltralyticsLinear requires SGD; Nesterov requires SGD with positive momentum"
  if ¬ policies.dataPolicyValid request.options then .error "invalid training data policy"
  if ¬ policies.laneFieldsValid configuration ∨ request.lanes < 1 ∨ request.gradAccumSteps < 1 ∨
      request.batchSize = 0 then
    .error "invalid training lane configuration"
  if configuration.mode ≠ .sharedGradients ∧ configuration.models.length ≠ request.lanes.toNat then
    .error "independent training lane count must match model entries"
  validateModels policies configuration.nextModelId [] configuration.models
  if configuration.effectiveFinalPolicy = .explicit ∧
      ¬ policies.positiveFiniteSum (configuration.models.map (·.coefficient)) then
    .error "explicit final coefficients require a finite positive sum"

/-- `derive_execution_facts` of a training request. -/
def executionFacts (policies : FieldPolicies Recipe Options) (request : TrainRequest Recipe Options)
    (revision : Nat) : Except String ExecutionFacts := do
  validateConfiguration policies request
  let shared := request.laneConfiguration.mode = .sharedGradients
  let steps := request.gradAccumSteps.toNat
  let lanes := request.lanes.toNat
  let attempt ← checkedTrainingProduct steps (if shared then lanes else 1)
  let effective ← checkedTrainingProduct request.batchSize attempt
  let round ← checkedTrainingProduct request.batchSize steps
  let aggregate ← checkedTrainingProduct round lanes
  return {
    settingsRevision := revision
    logicalModels := if shared then 1 else lanes
    microbatchesPerAttempt := attempt
    effectiveBatchPerModel := effective
    aggregateRoundImages := aggregate
    configuredCapacity := lanes
    limitation :=
      match request.laneConfiguration.mode with
      | .sharedGradients => .none
      | .independent => .experimentalIndependentModels
      | .periodicAveraging => .experimentalPeriodicAveraging }

/-- `training_rank_slice` of a batch, its count. -/
def rankSlice (batch rank world : Nat) : Except String Nat :=
  if batch = 0 ∨ world = 0 ∨ rank ≥ world then .error "invalid training rank slice"
  else .ok (batch / world + if rank < batch % world then 1 else 0)

/-- `derive_training_batch_distribution` -/
def batchDistribution (request : TrainRequest Recipe Options) :
    Except String TrainingBatchDistribution := do
  let ranks := if request.deviceIds.isEmpty then 1 else request.deviceIds.length
  let minimum ← rankSlice request.batchSize (ranks - 1) ranks
  let maximum ← rankSlice request.batchSize 0 ranks
  return ⟨ranks, minimum, maximum⟩

end TrainRequest

/-- `inference_facts` -/
def inferenceFacts (batch : Nat) (lanes : Int) (revision : Nat) : Except String ExecutionFacts := do
  if batch = 0 ∨ lanes < 1 then .error "inference batch and lanes must be positive"
  let effective ← checkedTrainingProduct batch lanes.toNat
  return {
    settingsRevision := revision
    logicalModels := 1
    microbatchesPerAttempt := 1
    effectiveBatchPerModel := effective
    aggregateRoundImages := effective
    configuredCapacity := lanes.toNat
    limitation := .none }

/-- `derive_training_validation_facts` -/
def TrainRequest.validationFacts (request : TrainRequest Recipe Options) (revision : Nat) :
    Except String ExecutionFacts :=
  inferenceFacts (if request.valBatchSize ≠ 0 then request.valBatchSize else request.batchSize)
    request.validationLanes revision

/-! The revision is only carried along. -/

end Mmltk.Settings
