import Mmltk.Sampling.Supplemental

namespace Mmltk.Sampling

/-! The choice of the images: the class that has the fewest is served first. -/

structure SourceSelection where
  images : List NormalizedImage
  memberships : List ClassMembership
  hashOrder : List HashedImage
  candidates : Nat → List Nat
  cursors : Nat → Nat
  selected : Nat → Bool
  stats : SupplementalSamplingStats
  selectedBoxes : Nat
  selectedRuns : Nat

def membershipAt (memberships : List ClassMembership) (imageIndex : Nat) : ClassMembership :=
  memberships.getD imageIndex {}

/-- All images are eligible if nothing is said of the shards. -/
def eligibleImage (eligible : List Bool) (image : NormalizedImage) : Bool :=
  eligible.isEmpty || eligible.getD image.sourceShard.toNat false

def hashImage (source : BenchmarkDatasetSource) (image : NormalizedImage × Nat) : HashedImage :=
  ⟨samplingHash source image.1.sourceImageId, image.1.sourceImageId, image.2⟩

def makeSourceSelection (source : NormalizedAnnotationIndex) (built : Memberships)
    (eligible : List Bool) : Except SamplingError SourceSelection :=
  let entries := source.images.zipIdx.filter fun image => eligibleImage eligible image.1
  if entries.any fun image => 2 ^ 32 ≤ image.2 then
    .error (.runtime "supplemental image index overflow")
  else
    let hashOrder := (entries.map (hashImage source.source)).insertionSort fun image other =>
      image.code ≤ other.code
    .ok {
      images := source.images
      memberships := built.memberships
      hashOrder
      candidates := fun classId =>
        (hashOrder.filter fun image =>
          (membershipAt built.memberships image.imageIndex).classes.contains classId).map
            HashedImage.imageIndex
      cursors := fun _ => 0
      selected := fun _ => false
      stats := {
        fullImages := source.images.length
        fullBoxes := source.boxes.length
        availableClassImages := built.available }
      selectedBoxes := 0
      selectedRuns := 0 }

namespace SourceSelection

/-- The cursor passes what is selected. -/
def settle (source : SourceSelection) (classId : Nat) : SourceSelection :=
  let cursor := source.cursors classId
  let passed := ((source.candidates classId).drop cursor).takeWhile source.selected
  { source with cursors := Function.update source.cursors classId (cursor + passed.length) }

def classCandidateAvailable (source : SourceSelection) (classId : Nat) : Bool × SourceSelection :=
  let settled := source.settle classId
  (settled.cursors classId < (settled.candidates classId).length, settled)

/-- The next image of a class, and the cursor behind it. -/
def takeClassCandidate (source : SourceSelection) (classId : Nat) :
    Except SamplingError (Nat × SourceSelection) :=
  let (available, settled) := source.classCandidateAvailable classId
  if !available then .error (.runtime "supplemental class candidate unexpectedly exhausted")
  else
    let cursor := settled.cursors classId
    .ok ((settled.candidates classId).getD cursor 0,
      { settled with cursors := Function.update settled.cursors classId (cursor + 1) })

/-- The source and the counts of all sources with one more image. -/
def selectImage (source : SourceSelection) (imageIndex : Nat) (combined : Nat → Nat) :
    Except SamplingError (SourceSelection × (Nat → Nat)) :=
  if source.selected imageIndex then
    .error (.runtime "supplemental sampler selected an image twice")
  else do
    let membership := membershipAt source.memberships imageIndex
    let boxCount := (source.images[imageIndex]?.map fun image => image.boxCount).getD 0
    let selectedBoxes ← checkedAdd source.selectedBoxes boxCount
      "supplemental selected box count overflow"
    let selectedRuns ← checkedAdd source.selectedRuns membership.maskRuns
      "supplemental selected mask count overflow"
    return ({ source with
      selected := Function.update source.selected imageIndex true
      selectedBoxes
      selectedRuns
      stats := { source.stats with
        selectedImages := source.stats.selectedImages + 1
        selectedClassImages := bump source.stats.selectedClassImages membership.classes } },
      bump combined membership.classes)

end SourceSelection

/-- Both sources, the counts of all classes and the number of images. -/
structure Combined where
  objects : SourceSelection
  openImages : SourceSelection
  combined : Nat → Nat
  total : Nat

structure Rarest where
  chosen : Nat
  chosenCount : Nat
  objects : SourceSelection
  openImages : SourceSelection

def considerClass (combined : Nat → Nat) (openOnly openAllowed : Bool) (rarest : Rarest)
    (classId : Nat) : Rarest :=
  let (objectAvailable, objects) :=
    if openOnly then (false, rarest.objects) else rarest.objects.classCandidateAvailable classId
  let (openAvailable, openImages) :=
    if openAllowed then rarest.openImages.classCandidateAvailable classId
    else (false, rarest.openImages)
  if (objectAvailable || openAvailable) && combined classId < rarest.chosenCount then
    ⟨classId, combined classId, objects, openImages⟩
  else { rarest with objects, openImages }

/-- The available class of which there are the fewest images. -/
def rarestAvailableClass (sampling : Combined) (openOnly openAllowed : Bool) : Rarest :=
  (List.range classCount).foldl (considerClass sampling.combined openOnly openAllowed)
    ⟨classCount, 2 ^ 64 - 1, sampling.objects, sampling.openImages⟩

structure Limits where
  target : Nat
  floor : Nat
  ceiling : Nat
  deriving DecidableEq, Repr

def samplingLimits (objects openImages : Nat) : Limits :=
  let target := objects / supplementalBudgetDenominator + openImages / supplementalBudgetDenominator
  let floor := max 1 (target / openImagesDiversityDenominator)
  ⟨target, floor, max floor (target / openImagesMaximumDenominator)⟩

namespace Combined

def selectObject (sampling : Combined) (imageIndex : Nat) : Except SamplingError Combined := do
  let (objects, combined) ← sampling.objects.selectImage imageIndex sampling.combined
  return { sampling with objects, combined, total := sampling.total + 1 }

def selectOpenImage (sampling : Combined) (imageIndex : Nat) : Except SamplingError Combined := do
  let (openImages, combined) ← sampling.openImages.selectImage imageIndex sampling.combined
  return { sampling with openImages, combined, total := sampling.total + 1 }

/-- The class that is served, after a look at the Open Images alone if they are behind. -/
def chooseClass (sampling : Combined) (forceOpen openAllowed : Bool) : Rarest :=
  let rarest := rarestAvailableClass sampling forceOpen openAllowed
  if rarest.chosen = classCount ∧ forceOpen then
    rarestAvailableClass { sampling with objects := rarest.objects, openImages := rarest.openImages }
      false openAllowed
  else rarest

/-- An image of a class, of Objects365 if that is not held back; nothing if there is none. -/
def serveClass (sampling : Combined) (classId : Nat) (forceOpen openAllowed : Bool) :
    Except SamplingError (Combined × Bool) :=
  let (objectAvailable, objects) :=
    if forceOpen then (false, sampling.objects)
    else sampling.objects.classCandidateAvailable classId
  if objectAvailable then do
    let (imageIndex, objects) ← objects.takeClassCandidate classId
    let sampling ← { sampling with objects }.selectObject imageIndex
    return (sampling, true)
  else
    let (openAvailable, openImages) :=
      if openAllowed then sampling.openImages.classCandidateAvailable classId
      else (false, sampling.openImages)
    if openAvailable then do
      let (imageIndex, openImages) ← openImages.takeClassCandidate classId
      let sampling ← { sampling with objects, openImages }.selectOpenImage imageIndex
      return (sampling, true)
    else return ({ sampling with objects, openImages }, false)

/-- One round; `false` ends the loop. -/
def round (limits : Limits) (sampling : Combined) : Except SamplingError (Combined × Bool) :=
  let selected := sampling.openImages.stats.selectedImages
  let openAllowed := decide (selected < limits.ceiling)
  let forceOpen := decide (selected < limits.floor ∧
    selected * limits.target ≤ sampling.total * limits.floor)
  let rarest := sampling.chooseClass forceOpen openAllowed
  let sampling := { sampling with objects := rarest.objects, openImages := rarest.openImages }
  if rarest.chosen = classCount then .ok (sampling, false)
  else sampling.serveClass rarest.chosen forceOpen openAllowed

/-- Every round selects an image or is the last one. -/
def greedy (limits : Limits) : (fuel : Nat) → Combined → Except SamplingError Combined
  | 0, sampling =>
      if limits.target ≤ sampling.total then .ok sampling else .error (.runtime "unfinished")
  | fuel + 1, sampling =>
      if limits.target ≤ sampling.total then .ok sampling
      else do
        let (sampling, more) ← sampling.round limits
        if more then greedy limits fuel sampling else return sampling

def fillObjects (limits : Limits) (maximum : Nat) :
    List HashedImage → Combined → Except SamplingError Combined
  | [], sampling => .ok sampling
  | image :: images, sampling =>
      if sampling.total = limits.target ∨ sampling.objects.stats.selectedImages = maximum then
        .ok sampling
      else if sampling.objects.selected image.imageIndex then
        fillObjects limits maximum images sampling
      else do fillObjects limits maximum images (← sampling.selectObject image.imageIndex)

def fillOpenImages (limits : Limits) (maximum : Nat) :
    List HashedImage → Combined → Except SamplingError Combined
  | [], sampling => .ok sampling
  | image :: images, sampling =>
      if sampling.total = limits.target ∨ sampling.openImages.stats.selectedImages = maximum then
        .ok sampling
      else if sampling.openImages.selected image.imageIndex then
        fillOpenImages limits maximum images sampling
      else do fillOpenImages limits maximum images (← sampling.selectOpenImage image.imageIndex)

/-- What the greedy choice left open is filled in the order of the hashes. -/
def fill (limits : Limits) (sampling : Combined) : Except SamplingError Combined := do
  let sampling ← fillObjects limits (limits.target - limits.floor) sampling.objects.hashOrder
    sampling
  let sampling ← fillOpenImages limits limits.ceiling sampling.openImages.hashOrder sampling
  fillObjects limits limits.target sampling.objects.hashOrder sampling

end Combined

/-- The positions that are selected. -/
def selectedView (source : SourceSelection) : List Nat :=
  (List.range source.images.length).filter source.selected

structure SupplementalSamplingResult where
  view : List Nat
  stats : SupplementalSamplingStats

structure CombinedSupplementalSamplingResult where
  objects365 : SupplementalSamplingResult
  openImages : SupplementalSamplingResult
  limits : Limits
  objects365ArchiveBytes : Nat
  objects365Shards : List Nat

def selectionResult (source : SourceSelection) : SupplementalSamplingResult :=
  ⟨selectedView source, { source.stats with selectedBoxes := source.selectedBoxes }⟩

/-- The flags of the chosen shards. -/
def eligibleShards (count : Nat) (shards : List Nat) : List Bool :=
  (List.range count).map fun shard => shards.contains shard

/-- The sources are sampled one after the other and are not cancelled. -/
def sampleCombinedSupplementalIndices (score : Nat → Nat → ℚ)
    (cocoTrain objects365 openImages : NormalizedAnnotationIndex) (shardBytes : List Nat) :
    Except SamplingError CombinedSupplementalSamplingResult :=
  if cocoTrain.source ≠ .coco2017 ∨ objects365.source ≠ .objects365V2 ∨
      openImages.source ≠ .openImagesV7 then
    .error (.runtime "combined supplemental sampler received the wrong sources")
  else if objects365.images.length < supplementalBudgetDenominator ∨
      openImages.images.length < supplementalBudgetDenominator then
    .error (.runtime "supplemental sources are too small for benchmark sampling")
  else if shardBytes = [] then
    .error (.runtime "Objects365 sampler requires archive byte identities")
  else do
    let limits := samplingLimits objects365.images.length openImages.images.length
    let objectsBuilt ← buildMemberships objects365 shardBytes.length
    let (shards, archiveBytes) ← chooseObjects365Shards score objectsBuilt.shards
      objectsBuilt.available shardBytes (limits.target - limits.floor)
    let objects ← makeSourceSelection objects365 objectsBuilt
      (eligibleShards shardBytes.length shards)
    let openBuilt ← buildMemberships openImages 0
    let selectedOpen ← makeSourceSelection openImages openBuilt []
    let cocoBuilt ← buildMemberships cocoTrain 0
    let greedy ← Combined.greedy limits limits.target
      ⟨objects, selectedOpen, cocoBuilt.available, 0⟩
    let final ← greedy.fill limits
    if final.total ≠ limits.target ∨ final.openImages.stats.selectedImages < limits.floor ∨
        limits.ceiling < final.openImages.stats.selectedImages then
      .error (.runtime "combined supplemental sampler could not fill its exact target")
    else
      return ⟨selectionResult final.objects, selectionResult final.openImages, limits,
        archiveBytes, shards⟩

end Mmltk.Sampling
