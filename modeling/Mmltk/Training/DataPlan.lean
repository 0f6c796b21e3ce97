import Mathlib.Data.List.Destutter
import Mathlib.Data.Rat.Floor
import Mmltk.Loading.Schedule
import Mmltk.Settings.ExecutionPlan

namespace Mmltk.Training

open Mmltk.Foundation Mmltk.Loading Mmltk.Settings

/-! Which images each model trains on, and in which order. -/

inductive TrainBalancing where
  | off
  | stratified
  | rareRepeatsStratified
  deriving DecidableEq, Repr

structure TrainDataPolicy where
  balancing : TrainBalancing
  rareThreshold : ℚ
  maximumRepeatFactor : ℚ
  maximumDrawMultiplier : ℚ
  deriving DecidableEq

/-- The bounds on the fields, with a threshold that is not zero. -/
def TrainDataPolicy.valid (policy : TrainDataPolicy) : Bool :=
  0 < policy.rareThreshold && policy.rareThreshold ≤ 1 && 1 ≤ policy.maximumRepeatFactor &&
    policy.maximumRepeatFactor ≤ 64 && 1 ≤ policy.maximumDrawMultiplier &&
    policy.maximumDrawMultiplier ≤ 16

/-- What requests are validated with, but for the data policy. -/
structure RequestPolicies (Recipe : Type) where
  recipeValid : Recipe → Bool
  laneFieldsValid : TrainLaneConfiguration Recipe → Bool
  positiveFiniteSum : List (BitVec 64) → Bool

def RequestPolicies.fields {Recipe : Type} (policies : RequestPolicies Recipe) :
    FieldPolicies Recipe TrainDataPolicy where
  recipeValid := policies.recipeValid
  dataPolicyValid := TrainDataPolicy.valid
  laneFieldsValid := policies.laneFieldsValid
  positiveFiniteSum := policies.positiveFiniteSum

/-- `std::uniform_int_distribution` on the engine that shuffles, from zero up to a bound, and
`std::sqrt`. -/
structure Sampler extends Shuffler where
  uniform : Engine → Nat → Nat × Engine
  uniform_le : ∀ engine bound, (uniform engine bound).1 ≤ bound
  sqrt : ℚ → ℚ

def maximumClasses : Nat := 256

structure TrainingImageClasses where
  classes : List Nat
  eligible : Bool

structure TrainingShard where
  modelId : Nat
  seed : Nat
  images : List Nat
  uniqueSupport : Nat → Nat
  missingClasses : List Nat

structure TrainingDataPlan where
  membership : List TrainingImageClasses
  /-- By class, how many eligible images have it. -/
  support : Nat → Nat
  classes : Nat
  shards : List TrainingShard
  policy : TrainDataPolicy
  batch : Nat
  contributions : Nat
  imageCount : Nat

/-! Keys. -/

def deterministicMix64 (value : UInt64) : UInt64 :=
  let value := value + 0x9e3779b97f4a7c15
  let value := (value ^^^ (value >>> 30)) * 0xbf58476d1ce4e5b9
  let value := (value ^^^ (value >>> 27)) * 0x94d049bb133111eb
  value ^^^ (value >>> 31)

def trainingStochasticKey (seed model epoch occurrence purpose : Nat) : Nat :=
  ([model, epoch, occurrence, purpose].foldl
    (fun seed value => deterministicMix64 (seed ^^^ deterministicMix64 (UInt64.ofNat value)))
    (UInt64.ofNat seed)).toNat

namespace TrainingDataPlan

/-! The plan: every image goes to one shard. -/

/-- Each class of an eligible image once, in order. -/
def uniqueClasses (image : TrainingImageClasses) : TrainingImageClasses :=
  if image.eligible then
    { image with classes := (image.classes.mergeSort (· ≤ ·)).destutter (· ≠ ·) }
  else image

def supportOf (membership : List TrainingImageClasses) (cls : Nat) : Nat :=
  membership.countP fun image => image.eligible && image.classes.contains cls

def classesOf (membership : List TrainingImageClasses) (image : Nat) : List Nat :=
  (membership[image]?.map (·.classes)).getD []

def eligibleSlots (membership : List TrainingImageClasses) : List Nat :=
  (List.range membership.length).filter fun slot => membership[slot]?.any (·.eligible)

/-- The support of the rarest class of an image. -/
def rarity (membership : List TrainingImageClasses) (image : Nat) : Nat :=
  (classesOf membership image).foldl (fun least cls => min least (supportOf membership cls))
    (counterLimit - 1)

def capacity (images shards shard : Nat) : Nat :=
  images / shards + if shard < images % shards then 1 else 0

/-- How full a shard is, and how much of each class of the image it has. -/
def score (membership : List TrainingImageClasses) (balancing : TrainBalancing)
    (shards image shard : Nat) (candidate : TrainingShard) : ℚ :=
  let filled := (candidate.images.length : ℚ) /
    capacity (eligibleSlots membership).length shards shard
  if balancing = .off then filled
  else
    (classesOf membership image).foldl
      (fun score cls => score + (candidate.uniqueSupport cls : ℚ) / supportOf membership cls)
      filled

/-- The shards from an index on: the first one with room that has the lowest score. -/
def chooseShard (room : Nat → TrainingShard → Bool) (score : Nat → TrainingShard → ℚ)
    (best : Option (Nat × ℚ)) : Nat → List TrainingShard → Option Nat
  | _, [] => best.map Prod.fst
  | shard, candidate :: rest =>
      if ! room shard candidate then chooseShard room score best (shard + 1) rest
      else if best.any fun chosen => chosen.2 ≤ score shard candidate then
        chooseShard room score best (shard + 1) rest
      else chooseShard room score (some (shard, score shard candidate)) (shard + 1) rest

def addImage (classes : List Nat) (image : Nat) (shard : TrainingShard) : TrainingShard :=
  { shard with
    images := shard.images ++ [image]
    uniqueSupport := fun cls => shard.uniqueSupport cls + classes.count cls }

def assignImages (membership : List TrainingImageClasses) (balancing : TrainBalancing) :
    List Nat → List TrainingShard → Except String (List TrainingShard)
  | [], shards => .ok shards
  | image :: rest, shards =>
      let images := (eligibleSlots membership).length
      match chooseShard
          (fun shard candidate => candidate.images.length ≠ capacity images shards.length shard)
          (score membership balancing shards.length image) none 0 shards with
      | none => .error "training shard capacity exhausted"
      | some chosen =>
          assignImages membership balancing rest
            (shards.modify chosen (addImage (classesOf membership image) image))

variable {Recipe : Type}

/-- One shard for all models that share their gradients, else one for each, by identity. -/
def emptyShards (request : TrainRequest Recipe TrainDataPolicy) : List TrainingShard :=
  let shards :=
    if request.laneConfiguration.mode = .sharedGradients then
      [⟨0, (request.seed % counterLimit).toNat, [], fun _ => 0, []⟩]
    else
      request.laneConfiguration.models.map fun model =>
        ⟨model.modelId, model.seed, [], fun _ => 0, []⟩
  shards.mergeSort fun shard other => shard.modelId ≤ other.modelId

def imageOrder (sampler : Sampler) (membership : List TrainingImageClasses)
    (balancing : TrainBalancing) (seed : Nat) : List Nat :=
  let order := (sampler.shuffle (sampler.seeded seed) (eligibleSlots membership)).1
  if balancing = .off then order
  else order.mergeSort fun image other => rarity membership image ≤ rarity membership other

def construct (sampler : Sampler) (policies : RequestPolicies Recipe)
    (images : List TrainingImageClasses) (classes : Nat)
    (request : TrainRequest Recipe TrainDataPolicy) : Except String TrainingDataPlan := do
  let facts ← request.executionFacts policies.fields 0
  if classes > maximumClasses then .error "training class catalog exceeds compiled format"
  if images = [] ∨ images.length > 2 ^ 32 - 1 then
    .error "training image membership is empty or too large"
  let membership := images.map uniqueClasses
  if membership.any fun image => image.eligible && image.classes.any (classes ≤ ·) then
    .error "training class is outside catalog"
  if eligibleSlots membership = [] then
    .error "training image membership has no eligible images"
  let order := imageOrder sampler membership request.options.balancing
    (request.seed % counterLimit).toNat
  let shards ← assignImages membership request.options.balancing order (emptyShards request)
  return {
    membership
    support := supportOf membership
    classes
    shards := shards.map fun shard =>
      { shard with
        missingClasses := (List.range classes).filter fun cls => shard.uniqueSupport cls = 0 }
    policy := request.options
    batch := request.batchSize
    contributions := facts.microbatchesPerAttempt
    imageCount := (eligibleSlots membership).length }

/-! The draws of one model in one epoch. -/

structure TrainingEpochDraws where
  schedule : IndexSchedule
  repeatedExposure : Nat → Nat
  unusedTail : Nat
  microbatches : Nat
  attempts : Nat

/-- The images that repeat, how many were proposed so far, and the engine. -/
structure Reservoir (sampler : Sampler) where
  extras : List Nat
  proposed : Nat
  rng : sampler.Engine

variable (sampler : Sampler) (plan : TrainingDataPlan)

/-- One more proposal of an image; once the reservoir is full it may take another's place. -/
def Reservoir.propose {sampler : Sampler} (capacity image : Nat) (reservoir : Reservoir sampler) :
    Reservoir sampler :=
  let proposed := reservoir.proposed + 1
  if reservoir.extras.length < capacity then
    { reservoir with extras := reservoir.extras ++ [image], proposed }
  else
    let (selected, rng) := sampler.uniform reservoir.rng (proposed - 1)
    ⟨if selected < capacity then reservoir.extras.set selected image else reservoir.extras,
      proposed, rng⟩

/-- How often an image repeats beyond its base draw. -/
def repeats (seed modelId epochNumber image : Nat) : Nat :=
  let rarest := (classesOf plan.membership image).foldl
    (fun factor cls =>
      max factor (sampler.sqrt (plan.policy.rareThreshold * plan.imageCount / plan.support cls)))
    1
  let factor := min rarest plan.policy.maximumRepeatFactor
  let whole := ⌊factor⌋₊
  let key := trainingStochasticKey seed modelId epochNumber image 1
  let fractional := ((key / 2 ^ 11 : Nat) : ℚ) / 2 ^ 53
  whole - 1 + if fractional < factor - whole then 1 else 0

/-- The images of the shard, each with its repeats. -/
def thin {sampler : Sampler} (capacity : Nat) (count : Nat → Nat) :
    List Nat → Reservoir sampler → Except String (Reservoir sampler)
  | [], reservoir => .ok reservoir
  | image :: rest, reservoir =>
      if reservoir.proposed > counterLimit - 1 - count image then
        .error "training repeated draws overflow"
      else
        thin capacity count rest (Nat.iterate (Reservoir.propose capacity image) (count image) reservoir)

/-- The repeats of a shard's images; without room for any nothing is proposed. -/
def fillReservoir (shard : TrainingShard) (seed epochNumber capacity : Nat) :
    Except String (Reservoir sampler) :=
  let empty : Reservoir sampler := ⟨[], 0, sampler.seeded seed⟩
  if capacity = 0 then .ok empty
  else thin capacity (plan.repeats sampler seed shard.modelId epochNumber) shard.images empty

/-- The images of a shard and their repeats, shuffled. -/
def epochDraws (shard : TrainingShard) (epochNumber : Nat) : Except String (List Nat) :=
  let seed := trainingStochasticKey shard.seed shard.modelId epochNumber 0 0
  if plan.policy.balancing ≠ .rareRepeatsStratified then
    .ok (sampler.shuffle (sampler.seeded seed) shard.images).1
  else
    let maximum := ⌊plan.policy.maximumDrawMultiplier * shard.images.length⌋₊
    if maximum < shard.images.length ∨ counterLimit - 1 ≤ maximum then
      .error "training repeated draw capacity is invalid"
    else
      (plan.fillReservoir sampler shard seed epochNumber (maximum - shard.images.length)).map
        fun reservoir =>
          let (extras, rng) := sampler.shuffle reservoir.rng reservoir.extras
          (sampler.shuffle rng (shard.images ++ extras)).1

/-- The draws of a model, but for a tail that does not fill a window of microbatches. -/
def epoch (model epochNumber : Nat) : Except String TrainingEpochDraws := do
  match plan.shards[model]? with
  | none => .error "vector::_M_range_check"
  | some shard =>
      let draws ← plan.epochDraws sampler shard epochNumber
      let window ← checkedTrainingProduct plan.batch plan.contributions
      let usable := draws.length / window * window
      if usable = 0 then
        .error "training model has zero complete global accumulation windows"
      let kept := draws.take usable
      return {
        schedule := {
          imageIndices := kept
          drawKeys := kept.mapIdx fun occurrence image =>
            trainingStochasticKey shard.seed shard.modelId epochNumber occurrence image
          microbatchKeys := (List.range (usable / plan.batch)).map fun microbatch =>
            trainingStochasticKey shard.seed shard.modelId epochNumber microbatch 0x4d42 }
        repeatedExposure := fun cls =>
          kept.countP fun image => (classesOf plan.membership image).contains cls
        unusedTail := draws.length - usable
        microbatches := usable / plan.batch
        attempts := usable / window }

/-! The part of each rank. -/

structure TrainingRankSlice where
  start : Nat
  count : Nat

/-- `training_rank_slice` -/
def trainingRankSlice (batch rank world : Nat) : Except String TrainingRankSlice :=
  if batch = 0 ∨ world = 0 ∨ world ≤ rank then .error "invalid training rank slice"
  else
    .ok ⟨batch / world * rank + min rank (batch % world),
      batch / world + if rank < batch % world then 1 else 0⟩

/-- The rank's images of each microbatch. -/
def rankSchedule (global : TrainingEpochDraws) (rank world : Nat) : Except String IndexSchedule := do
  if world = 0 ∨ world ≤ rank then .error "invalid training rank slice"
  let slice ← trainingRankSlice plan.batch rank world
  let places := (List.range global.microbatches).flatMap fun batch =>
    (List.range slice.count).map fun image => batch * plan.batch + slice.start + image
  return {
    imageIndices := places.map fun index => global.schedule.imageIndices.getD index 0
    drawKeys := places.map fun index => global.schedule.drawKeys.getD index 0
    microbatchKeys := if slice.count = 0 then [] else global.schedule.microbatchKeys }

end TrainingDataPlan

end Mmltk.Training
