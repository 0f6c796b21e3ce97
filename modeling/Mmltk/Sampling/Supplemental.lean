import Mathlib.Algebra.GroupWithZero.Nat
import Mathlib.Algebra.Order.Ring.Rat
import Mathlib.Data.List.Sort
import Mathlib.Data.Prod.Lex

namespace Mmltk.Sampling

/-! A sample of Objects365 and Open Images images, balanced over the classes of COCO. -/

inductive SamplingError where
  | runtime (message : String)
  deriving DecidableEq, Repr

inductive BenchmarkDatasetSource where
  | coco2017
  | objects365V2
  | openImagesV7
  | coconut
  | objects365V1
  deriving DecidableEq, Repr

def BenchmarkDatasetSource.value : BenchmarkDatasetSource → UInt64
  | .coco2017 => 0
  | .objects365V2 => 1
  | .openImagesV7 => 2
  | .coconut => 3
  | .objects365V1 => 4

structure NormalizedBox where
  maskRlePairs : Nat
  classId : Nat
  deriving DecidableEq, Repr

structure NormalizedImage where
  sourceImageId : UInt64
  firstBox : Nat
  boxCount : Nat
  sourceShard : UInt16
  deriving DecidableEq, Repr

structure NormalizedAnnotationIndex where
  source : BenchmarkDatasetSource
  images : List NormalizedImage
  boxes : List NormalizedBox
  deriving DecidableEq, Repr

def classCount : Nat := 80
def shardClassCoverageFloor : Nat := 512
def shardCandidateHeadroomNumerator : Nat := 11
def shardCandidateHeadroomDenominator : Nat := 10
def supplementalBudgetDenominator : Nat := 6
def openImagesDiversityDenominator : Nat := 24
def openImagesMaximumDenominator : Nat := 6

def checkedAdd (left right : Nat) (message : String) : Except SamplingError Nat :=
  if 2 ^ 64 ≤ left + right then .error (.runtime message) else .ok (left + right)

/-! The order of a sample. -/

def deterministicMix64 (value : UInt64) : UInt64 :=
  let value := value + 0x9e3779b97f4a7c15
  let value := (value ^^^ (value >>> 30)) * 0xbf58476d1ce4e5b9
  let value := (value ^^^ (value >>> 27)) * 0x94d049bb133111eb
  value ^^^ (value >>> 31)

def samplingHash (source : BenchmarkDatasetSource) (imageId : UInt64) : UInt64 :=
  deterministicMix64 (imageId ^^^ source.value * 0xD6E8FEB86659FD93 ^^^ 0xC080BA1A6CED0002)

structure HashedImage where
  hash : UInt64
  sourceImageId : UInt64
  imageIndex : Nat
  deriving DecidableEq, Repr

/-- The order of the fields as they are declared. -/
def HashedImage.code (image : HashedImage) : Nat ×ₗ Nat ×ₗ Nat :=
  toLex (image.hash.toNat, toLex (image.sourceImageId.toNat, image.imageIndex))

/-! The classes of an image. -/

structure ClassMembership where
  low : BitVec 64 := 0
  high : BitVec 64 := 0
  maskRuns : Nat := 0
  deriving DecidableEq, Repr

namespace ClassMembership

def addClass (membership : ClassMembership) (classId : Nat) : ClassMembership :=
  if classId < 64 then { membership with low := membership.low ||| 1#64 <<< classId }
  else { membership with high := membership.high ||| 1#64 <<< (classId - 64) }

/-- The classes as a cursor has them, from the least to the greatest. -/
def classes (membership : ClassMembership) : List Nat :=
  ((List.range 64).filter fun bit => membership.low.getLsbD bit) ++
    ((List.range 64).filter fun bit => membership.high.getLsbD bit).map (64 + ·)

def addBox (membership : ClassMembership) (box : NormalizedBox) :
    Except SamplingError ClassMembership :=
  if classCount ≤ box.classId then
    .error (.runtime "supplemental sampler received an invalid class id")
  else do
    let maskRuns ← checkedAdd membership.maskRuns box.maskRlePairs
      "supplemental image mask count overflow"
    return { membership.addClass box.classId with maskRuns }

end ClassMembership

/-- One more of each class in a list. -/
def bump (counts : Nat → Nat) (classes : List Nat) : Nat → Nat :=
  fun classId => counts classId + classes.count classId

structure ShardSummary where
  images : Nat := 0
  classImages : Nat → Nat := fun _ => 0

structure SupplementalSamplingStats where
  fullImages : Nat := 0
  fullBoxes : Nat := 0
  selectedImages : Nat := 0
  selectedBoxes : Nat := 0
  availableClassImages : Nat → Nat := fun _ => 0
  selectedClassImages : Nat → Nat := fun _ => 0

structure Memberships where
  available : Nat → Nat
  memberships : List ClassMembership
  shards : List ShardSummary

def imageMembership (source : NormalizedAnnotationIndex) (image : NormalizedImage) :
    Except SamplingError ClassMembership :=
  if image.boxCount = 0 ∨ source.boxes.length < image.firstBox ∨
      source.boxes.length - image.firstBox < image.boxCount then
    .error (.runtime "supplemental sampler received an invalid image box span")
  else do
    let membership ← ((source.boxes.drop image.firstBox).take image.boxCount).foldlM
      ClassMembership.addBox {}
    if membership.low = 0 ∧ membership.high = 0 then
      .error (.runtime "supplemental sampler received an image without mapped classes")
    else return membership

def includeImage (source : NormalizedAnnotationIndex) (built : Memberships)
    (image : NormalizedImage) : Except SamplingError Memberships :=
  if built.shards ≠ [] ∧ built.shards.length ≤ image.sourceShard.toNat then
    .error (.runtime "Objects365 annotation references an unknown image shard")
  else do
    let membership ← imageMembership source image
    return {
      available := bump built.available membership.classes
      memberships := built.memberships ++ [membership]
      shards := built.shards.modify image.sourceShard.toNat fun shard =>
        ⟨shard.images + 1, bump shard.classImages membership.classes⟩ }

/-- The classes of the images; shards are summed up if there are any. -/
def buildMemberships (source : NormalizedAnnotationIndex) (shards : Nat) :
    Except SamplingError Memberships :=
  source.images.foldlM (includeImage source) ⟨fun _ => 0, [], List.replicate shards {}⟩

/-! The shards of Objects365. -/

structure ShardSelection where
  selected : Nat → Bool
  coverage : Nat → Nat
  images : Nat
  archiveBytes : Nat
  result : List Nat

section

variable (score : Nat → Nat → ℚ) (summaries : List ShardSummary) (bytes : List Nat)
  (headroom : Nat) (targets : Nat → Nat)

def summaryAt (shard : Nat) : ShardSummary := summaries.getD shard {}

def covers (coverage : Nat → Nat) : Bool :=
  (List.range classCount).all fun classId => targets classId ≤ coverage classId

def shardGain (selection : ShardSelection) (shard : Nat) : Nat :=
  let summary := summaryAt summaries shard
  let coverageGain := ((List.range classCount).map fun classId =>
    min (targets classId - selection.coverage classId) (summary.classImages classId)).sum
  let usefulImages :=
    if selection.images < headroom then min summary.images (headroom - selection.images) else 0
  usefulImages + coverageGain * 8

/-- The better of two shards by score, then by bytes, then by position. -/
def betterShard (selection : ShardSelection) (best : Option (Nat × ℚ)) (shard : Nat) :
    Option (Nat × ℚ) :=
  if selection.selected shard || (summaryAt summaries shard).images == 0 then best
  else
    let size := max 1 (bytes.getD shard 0)
    let value := score (shardGain summaries headroom targets selection shard) size
    match best with
    | none => some (shard, value)
    | some (other, found) =>
        let otherBytes := bytes.getD other 0
        if found < value ∨ value = found ∧
            (size < otherBytes ∨ size = otherBytes ∧ shard < other) then
          some (shard, value)
        else best

def bestShard (selection : ShardSelection) : Option Nat :=
  ((List.range summaries.length).foldl
    (betterShard score summaries bytes headroom targets selection) none).map Prod.fst

def takeShard (selection : ShardSelection) (shard : Nat) : ShardSelection where
  selected := Function.update selection.selected shard true
  coverage := fun classId => selection.coverage classId + (summaryAt summaries shard).classImages classId
  images := selection.images + (summaryAt summaries shard).images
  archiveBytes := (selection.archiveBytes + bytes.getD shard 0) % 2 ^ 64
  result := selection.result ++ [shard]

/-- Every round takes a shard. -/
def takeShards : (fuel : Nat) → ShardSelection → Except SamplingError ShardSelection
  | 0, _ => .error (.runtime "unfinished")
  | fuel + 1, selection =>
      if headroom ≤ selection.images ∧ covers targets selection.coverage then .ok selection
      else
        match bestShard score summaries bytes headroom targets selection with
        | none => .error (.runtime "Objects365 shard selector cannot satisfy the sample budget")
        | some shard =>
            if 2 ^ 16 ≤ shard then .error (.runtime "Objects365 shard index overflow")
            else takeShards fuel (takeShard summaries bytes selection shard)

/-- A shard is taken back if the others are enough. -/
def pruneShard (position : Nat) (selection : ShardSelection) : ShardSelection :=
  let shard := selection.result.getD position 0
  let summary := summaryAt summaries shard
  let coverage := fun classId => selection.coverage classId - summary.classImages classId
  if selection.images - summary.images < headroom then selection
  else if ¬ covers targets coverage then selection
  else
    { selected := Function.update selection.selected shard false
      coverage
      images := selection.images - summary.images
      archiveBytes := (selection.archiveBytes + 2 ^ 64 - bytes.getD shard 0) % 2 ^ 64
      result := selection.result.eraseIdx position }

def pruneShards : Nat → ShardSelection → ShardSelection
  | 0, selection => selection
  | position + 1, selection =>
      pruneShards position (pruneShard summaries bytes headroom targets position selection)

end

def headroomImages (requiredImages : Nat) : Nat :=
  (requiredImages * shardCandidateHeadroomNumerator + shardCandidateHeadroomDenominator - 1) /
    shardCandidateHeadroomDenominator

def coverageTargets (fullClassImages : Nat → Nat) : Nat → Nat :=
  fun classId => min (fullClassImages classId) shardClassCoverageFloor

/-- The shards and the bytes of their archives; the score is a quotient of floating-point numbers,
which may be rounded in any way. -/
def chooseObjects365Shards (score : Nat → Nat → ℚ) (summaries : List ShardSummary)
    (fullClassImages : Nat → Nat) (bytes : List Nat) (requiredImages : Nat) :
    Except SamplingError (List Nat × Nat) := do
  let headroom := headroomImages requiredImages
  let targets := coverageTargets fullClassImages
  let taken ← takeShards score summaries bytes headroom targets (summaries.length + 1)
    ⟨fun _ => false, fun _ => 0, 0, 0, []⟩
  let kept := pruneShards summaries bytes headroom targets taken.result.length taken
  return (kept.result.insertionSort (· ≤ ·), kept.archiveBytes)

end Mmltk.Sampling
