import Mmltk.Sampling.GreedyRuns

namespace Mmltk.Sampling

open SourceSelection (Sound)

/-! The sample as a whole. -/

/-- An index whose images can be sampled. -/
structure ValidIndex (source : NormalizedAnnotationIndex) : Prop where
  images : ∀ image ∈ source.images, ValidImage source image
  count : source.images.length ≤ 2 ^ 32
  boxes : (source.images.map fun image => image.boxCount).sum < 2 ^ 64
  runs : (source.images.map fun image => (membershipOf source image).maskRuns).sum < 2 ^ 64

section

variable {source : NormalizedAnnotationIndex} {eligible : List Bool} {shards : Nat}

/-- The positions of the images that are eligible. -/
def eligiblePositions (eligible : List Bool) (images : List NormalizedImage) : List Nat :=
  (images.zipIdx.filter fun image => eligibleImage eligible image.1).map Prod.snd

theorem mem_eligiblePositions {images : List NormalizedImage} {position : Nat} :
    position ∈ eligiblePositions eligible images ↔
      ∃ image, images[position]? = some image ∧ eligibleImage eligible image = true := by
  rw [eligiblePositions, List.mem_map]
  constructor
  · intro ⟨⟨image, other⟩, hmem, hsame⟩
    obtain ⟨hentry, heligible⟩ := List.mem_filter.mp hmem
    obtain rfl : other = position := hsame
    exact ⟨image, List.mem_zipIdx_iff_getElem?.mp hentry, heligible⟩
  · intro ⟨image, himage, heligible⟩
    exact ⟨(image, position), List.mem_filter.mpr
      ⟨List.mem_zipIdx_iff_getElem?.mpr himage, heligible⟩, rfl⟩

theorem eligiblePositions_sublist (eligible : List Bool) (images : List NormalizedImage) :
    (eligiblePositions eligible images).Sublist (List.range images.length) := by
  have hmap := (List.filter_sublist (p := fun image : NormalizedImage × Nat =>
    eligibleImage eligible image.1) (l := images.zipIdx)).map Prod.snd
  rwa [List.zipIdx_map_snd, ← List.range_eq_range'] at hmap

theorem length_eligiblePositions (eligible : List Bool) (images : List NormalizedImage) :
    (eligiblePositions eligible images).length =
      (images.filter (eligibleImage eligible)).length := by
  conv_rhs => rw [← List.zipIdx_map_fst 0 images, List.filter_map, List.length_map]
  rw [eligiblePositions, List.length_map]
  rfl

/-- A value of each image, taken over its positions. -/
theorem sum_positions (images : List NormalizedImage) (value : NormalizedImage → Nat) :
    ((List.range images.length).map fun position => (images[position]?.map value).getD 0).sum =
      (images.map value).sum := by
  congr 1
  refine List.ext_getElem (by rw [List.length_map, List.length_map, List.length_range])
    fun position hleft hright => ?_
  rw [List.length_map] at hright
  rw [List.getElem_map, List.getElem_map, List.getElem_range, List.getElem?_eq_getElem hright]
  rfl

theorem membershipAt_map {images : List NormalizedImage} {position : Nat} {image : NormalizedImage}
    (h : images[position]? = some image) :
    membershipAt (images.map (membershipOf source)) position = membershipOf source image := by
  rw [membershipAt, List.getD_eq_getElem?_getD, List.getElem?_map, h]
  rfl

/-- A source from which nothing is selected yet. -/
structure Started (source : NormalizedAnnotationIndex) (eligible : List Bool)
    (selection : SourceSelection) : Prop where
  sound : selection.Sound
  images : selection.images = source.images
  order : selection.order.Perm (eligiblePositions eligible source.images)
  nothing : selection.stats.selectedImages = 0

/-- The images that are eligible, in the order of their hashes. -/
def hashOrderOf (source : NormalizedAnnotationIndex) (eligible : List Bool) : List HashedImage :=
  ((source.images.zipIdx.filter fun image => eligibleImage eligible image.1).map
    (hashImage source.source)).insertionSort fun image other => image.code ≤ other.code

/-- What a source is before anything is selected from it. -/
def startOf (source : NormalizedAnnotationIndex) (built : Memberships) (eligible : List Bool) :
    SourceSelection where
  images := source.images
  memberships := built.memberships
  hashOrder := hashOrderOf source eligible
  candidates := fun classId =>
    ((hashOrderOf source eligible).filter fun image =>
      (membershipAt built.memberships image.imageIndex).classes.contains classId).map
        HashedImage.imageIndex
  cursors := fun _ => 0
  selected := fun _ => false
  stats := {
    fullImages := source.images.length
    fullBoxes := source.boxes.length
    availableClassImages := built.available }
  selectedBoxes := 0
  selectedRuns := 0

theorem makeSourceSelection_eq {built : Memberships} (h : source.images.length ≤ 2 ^ 32) :
    makeSourceSelection source built eligible = .ok (startOf source built eligible) := by
  refine if_neg ?_
  rw [List.any_eq_true]
  rintro ⟨⟨image, position⟩, hmem, hlarge⟩
  have hentry := List.mem_zipIdx_iff_getElem?.mp (List.mem_filter.mp hmem).1
  have hinside := (List.getElem?_eq_some_iff.mp hentry).1
  have hposition : 2 ^ 32 ≤ position := of_decide_eq_true hlarge
  omega

theorem makeSourceSelection_spec (h : ValidIndex source) :
    ∃ selection, makeSourceSelection source (builtOf source shards source.images) eligible =
        .ok selection ∧ Started source eligible selection := by
  rw [makeSourceSelection_eq h.count, startOf]
  generalize hlist : hashOrderOf source eligible = hashOrder
  rw [hashOrderOf] at hlist
  have horder : (hashOrder.map HashedImage.imageIndex).Perm
      (eligiblePositions eligible source.images) := by
    rw [← hlist]
    refine ((List.perm_insertionSort _ _).map _).trans (.of_eq ?_)
    rw [List.map_map]
    rfl
  have hsub := eligiblePositions_sublist eligible source.images
  have himage : ∀ position ∈ hashOrder.map HashedImage.imageIndex, ∃ image,
      source.images[position]? = some image ∧ image ∈ source.images := by
    intro position hposition
    obtain ⟨image, himage, -⟩ := mem_eligiblePositions.mp (horder.mem_iff.mp hposition)
    exact ⟨image, himage, List.mem_of_getElem? himage⟩
  refine ⟨_, rfl, ⟨⟨⟨?_, fun classId => ?_, fun position hposition => ?_, ?_, ?_⟩,
    ⟨nofun, ?_, ?_, ?_⟩, nofun⟩, rfl, horder, rfl⟩⟩
  · exact horder.nodup_iff.mpr (List.nodup_range.sublist hsub)
  · rw [SourceSelection.order, List.filter_map]
    rfl
  · obtain ⟨image, himage, hmem⟩ := himage position hposition
    have hvalid := h.images image hmem
    obtain ⟨-, hclasses, -⟩ := imageMembership_spec hvalid
    have hbox : spanOf source image ≠ [] := List.ne_nil_of_length_pos (by
      have hsome := hvalid.some
      have hspan := hvalid.span
      rw [spanOf, List.length_take, List.length_drop]
      omega)
    obtain ⟨box, hbox⟩ := List.exists_mem_of_ne_nil _ hbox
    refine ⟨box.classId, hvalid.classes box hbox, ?_⟩
    rw [SourceSelection.classesAt]
    dsimp only [builtOf]
    rw [membershipAt_map himage]
    exact (hclasses box.classId).mpr ⟨box, hbox, rfl⟩
  · refine lt_of_le_of_lt ?_ h.boxes
    rw [← sum_positions]
    exact ((horder.map _).sum_eq).trans_le ((hsub.map _).sum_le_sum fun _ _ => Nat.zero_le _)
  · refine lt_of_le_of_lt ?_ h.runs
    rw [← sum_positions]
    refine ((horder.map _).sum_eq).trans_le ?_
    refine le_trans (le_of_eq (congrArg List.sum (List.map_congr_left fun position hposition => ?_)))
      ((hsub.map _).sum_le_sum fun _ _ => Nat.zero_le _)
    obtain ⟨image, himage, -⟩ := mem_eligiblePositions.mp hposition
    rw [SourceSelection.runsAt]
    dsimp only [builtOf]
    rw [membershipAt_map himage, himage]
    rfl
  all_goals rw [List.filter_eq_nil_iff.mpr fun _ _ => Bool.false_ne_true]; rfl

end

/-! ### The sources together -/

theorem samplingLimits_spec {objects openImages : Nat} (hobjects : 6 ≤ objects)
    (hopen : 6 ≤ openImages) :
    (samplingLimits objects openImages).floor ≤ (samplingLimits objects openImages).target ∧
      (samplingLimits objects openImages).floor ≤ (samplingLimits objects openImages).ceiling := by
  refine ⟨?_, le_max_left _ _⟩
  simp only [samplingLimits, supplementalBudgetDenominator, openImagesDiversityDenominator]
  omega

theorem le_headroomImages (requiredImages : Nat) : requiredImages ≤ headroomImages requiredImages := by
  simp only [headroomImages, shardCandidateHeadroomNumerator, shardCandidateHeadroomDenominator]
  omega

/-- The images of the chosen shards are eligible. -/
theorem eligibleImage_shards {count : Nat} {shards : List Nat} {image : NormalizedImage}
    (h : image.sourceShard.toNat < count) :
    eligibleImage (eligibleShards count shards) image = inShards shards image := by
  have hsome : (eligibleShards count shards).isEmpty = false := by
    rw [eligibleShards, List.isEmpty_eq_false_iff, ← List.length_pos_iff, List.length_map,
      List.length_range]
    exact Nat.zero_lt_of_lt h
  rw [eligibleImage, hsome, Bool.false_or, eligibleShards, List.getD_eq_getElem?_getD,
    List.getElem?_map, List.getElem?_range h]
  rfl

theorem eligibleImage_all (image : NormalizedImage) : eligibleImage [] image = true := rfl

/-- The positions in a view are those of the images that are selected. -/
theorem selectedView_perm {source : NormalizedAnnotationIndex} {eligible : List Bool}
    {selection start : SourceSelection} (hstart : Started source eligible start)
    (hsame : start.Same selection) (h : selection.Sound) :
    (selectedView selection).Perm (selection.order.filter selection.selected) := by
  have hrange : ∀ position ∈ selection.order, position < selection.images.length := by
    intro position hposition
    rw [hsame.order, hstart.order.mem_iff] at hposition
    obtain ⟨image, himage, -⟩ := mem_eligiblePositions.mp hposition
    rw [hsame.images, hstart.images]
    exact (List.getElem?_eq_some_iff.mp himage).1
  refine (List.perm_ext_iff_of_nodup (List.nodup_range.filter _)
    (h.laid.order.filter _)).mpr fun position => ?_
  rw [List.mem_filter, List.mem_filter, List.mem_range]
  refine and_congr_left fun hselected => ?_
  have hmem := h.counted.chosen position hselected
  exact iff_of_true (hrange position hmem) hmem

theorem length_selectedView {source : NormalizedAnnotationIndex} {eligible : List Bool}
    {selection start : SourceSelection} (hstart : Started source eligible start)
    (hsame : start.Same selection) (h : selection.Sound) :
    (selectedView selection).length = selection.stats.selectedImages :=
  (selectedView_perm hstart hsame h).length_eq.trans h.counted.images.symm

/-- Indices that can be sampled together, with the size of an archive for each shard. -/
structure Admissible (cocoTrain objects365 openImages : NormalizedAnnotationIndex)
    (shardBytes : List Nat) : Prop where
  cocoSource : cocoTrain.source = .coco2017
  objectsSource : objects365.source = .objects365V2
  openSource : openImages.source = .openImagesV7
  coco : ∀ image ∈ cocoTrain.images, ValidImage cocoTrain image
  cocoCount : cocoTrain.images.length < 2 ^ 63
  objectsValid : ValidIndex objects365
  openValid : ValidIndex openImages
  objectsCount : supplementalBudgetDenominator ≤ objects365.images.length
  openCount : supplementalBudgetDenominator ≤ openImages.images.length
  archives : shardBytes ≠ []
  known : ∀ image ∈ objects365.images, image.sourceShard.toNat < shardBytes.length

/-- What a sample is: so many different images, and some shards that are enough. -/
structure Sampled (objects365 openImages : NormalizedAnnotationIndex) (shardBytes : List Nat)
    (limits : Limits) (result : CombinedSupplementalSamplingResult) : Prop where
  limits_eq : result.limits = limits
  total : result.objects365.view.length + result.openImages.view.length = limits.target
  floor_le : limits.floor ≤ result.openImages.view.length
  le_ceiling : result.openImages.view.length ≤ limits.ceiling
  objects_nodup : result.objects365.view.Nodup
  open_nodup : result.openImages.view.Nodup
  open_inside : ∀ position ∈ result.openImages.view, position < openImages.images.length
  in_shards : ∀ position ∈ result.objects365.view, ∃ image,
    objects365.images[position]? = some image ∧
      image.sourceShard.toNat ∈ result.objects365Shards
  chosen : ChosenShards (summariesOf objects365 shardBytes.length objects365.images)
    (headroomImages (limits.target - limits.floor))
    (coverageTargets (classImagesOf objects365 objects365.images)) result.objects365Shards

section

variable {score : Nat → Nat → ℚ} {cocoTrain objects365 openImages : NormalizedAnnotationIndex}
  {shardBytes : List Nat}

/-- The part of the sample behind the choice of the shards. -/
def sampleFrom (limits : Limits) (cocoCounts : Nat → Nat) (objects openImages : SourceSelection)
    (shards : List Nat) (archiveBytes : Nat) :
    Except SamplingError CombinedSupplementalSamplingResult := do
  let greedy ← Combined.greedy limits limits.target ⟨objects, openImages, cocoCounts, 0⟩
  let final ← greedy.fill limits
  if final.total ≠ limits.target ∨ final.openImages.stats.selectedImages < limits.floor ∨
      limits.ceiling < final.openImages.stats.selectedImages then
    .error (.runtime "combined supplemental sampler could not fill its exact target")
  else
    return ⟨selectionResult final.objects, selectionResult final.openImages, limits,
      archiveBytes, shards⟩

/-- Behind the guards: the shards first, then the images. -/
theorem sample_eq (h : Admissible cocoTrain objects365 openImages shardBytes)
    {limits : Limits}
    (hlimits : limits = samplingLimits objects365.images.length openImages.images.length) :
    sampleCombinedSupplementalIndices score cocoTrain objects365 openImages shardBytes =
      (chooseObjects365Shards score (summariesOf objects365 shardBytes.length objects365.images)
        (classImagesOf objects365 objects365.images) shardBytes (limits.target - limits.floor) >>=
      fun chosen => makeSourceSelection objects365
        (builtOf objects365 shardBytes.length objects365.images)
        (eligibleShards shardBytes.length chosen.1) >>=
      fun objects => makeSourceSelection openImages (builtOf openImages 0 openImages.images) [] >>=
      fun selectedOpen => sampleFrom limits (classImagesOf cocoTrain cocoTrain.images) objects
        selectedOpen chosen.1 chosen.2) := by
  have hshards : shardBytes.length ≠ 0 := fun hnone => h.archives (List.length_eq_zero_iff.mp hnone)
  have hobjects := buildMemberships_spec h.objectsValid.images fun _ => h.known
  have hopen : buildMemberships openImages 0 = _ :=
    buildMemberships_spec h.openValid.images fun hsome => absurd rfl hsome
  have hcoco : buildMemberships cocoTrain 0 = _ :=
    buildMemberships_spec h.coco fun hsome => absurd rfl hsome
  have hsources : ¬ (cocoTrain.source ≠ .coco2017 ∨ objects365.source ≠ .objects365V2 ∨
      openImages.source ≠ .openImagesV7) := by
    rw [h.cocoSource, h.objectsSource, h.openSource]
    decide
  have hcounts : ¬ (objects365.images.length < supplementalBudgetDenominator ∨
      openImages.images.length < supplementalBudgetDenominator) :=
    not_or.mpr ⟨Nat.not_lt_of_le h.objectsCount, Nat.not_lt_of_le h.openCount⟩
  subst hlimits
  rw [sampleCombinedSupplementalIndices, if_neg hsources, if_neg hcounts, if_neg h.archives]
  simp only [hobjects, hopen, hcoco]
  rfl

/-- With images enough the target is reached by the greedy choice; without them it never is. -/
theorem sampleFrom_spec {limits : Limits} {cocoCounts : Nat → Nat} {base : Nat}
    {objects openSelection : SourceSelection} {shards : List Nat} {archiveBytes : Nat}
    (hobjects : objects.Sound) (hopen : openSelection.Sound)
    (hnothing : objects.stats.selectedImages = 0) (hnone : openSelection.stats.selectedImages = 0)
    (hfloor : limits.floor ≤ limits.target) (hceiling : limits.floor ≤ limits.ceiling)
    (hcounts : ∀ classId, cocoCounts classId ≤ base) (hbase : base + limits.target < 2 ^ 64 - 1) :
    (limits.target - limits.floor ≤ objects.order.length →
      limits.floor ≤ openSelection.order.length →
      ∃ final : Combined,
        sampleFrom limits cocoCounts objects openSelection shards archiveBytes =
          .ok ⟨selectionResult final.objects, selectionResult final.openImages, limits,
            archiveBytes, shards⟩ ∧
        Combined.Kept limits final ∧ objects.Same final.objects ∧
        openSelection.Same final.openImages ∧ final.total = limits.target ∧
        limits.floor ≤ final.openImages.stats.selectedImages ∧
        final.openImages.stats.selectedImages ≤ limits.ceiling) ∧
    (openSelection.order.length < limits.floor →
      sampleFrom limits cocoCounts objects openSelection shards archiveBytes =
        .error (.runtime "combined supplemental sampler could not fill its exact target")) := by
  have hstart : Combined.Going limits base ⟨objects, openSelection, cocoCounts, 0⟩ := {
    objects := hobjects
    openImages := hopen
    total := by rw [hnothing, hnone]
    within := Nat.zero_le _
    ceiling := hnone.trans_le (Nat.zero_le _)
    ahead := fun _ => hnothing.trans_le (Nat.zero_le _)
    counts := hcounts }
  obtain ⟨greedy, hgreedy, hgoing, hsources, hend⟩ :=
    hstart.greedy hfloor hceiling hbase (Nat.le_add_left limits.target 0)
  have hchosen := hgoing.total
  rw [sampleFrom, hgreedy]
  dsimp only [bind, Except.bind]
  constructor
  · intro henoughObjects henoughOpen
    rw [← hsources.objects.order] at henoughObjects
    rw [← hsources.openImages.order] at henoughOpen
    have hopenFloor : limits.floor ≤ greedy.openImages.stats.selectedImages := by
      by_contra hbehind
      rw [not_le] at hbehind
      have hahead := hgoing.ahead hbehind
      rcases hend with hreached | ⟨-, hall⟩ | ⟨-, hall | hfull⟩
      · omega
      · omega
      · omega
      · omega
    have hreached : greedy.total = limits.target := by
      rcases hend with hreached | ⟨hbehind, -⟩ | ⟨hall, -⟩
      · exact hreached
      · omega
      · have hwithin := hgoing.within
        omega
    rw [Combined.fill_reached hreached]
    dsimp only
    rw [if_neg (by
      rw [not_or, not_or, not_not]
      exact ⟨hreached, Nat.not_lt_of_le hopenFloor, Nat.not_lt_of_le hgoing.ceiling⟩)]
    exact ⟨greedy, rfl, hgoing.toKept, hsources.objects, hsources.openImages, hreached, hopenFloor,
      hgoing.ceiling⟩
  · intro hfew
    obtain ⟨final, hfinal, hkept, hfilled⟩ := hgoing.toKept.fill
    rw [hfinal]
    dsimp only
    have hselected := selected_le hkept.openImages
    rw [hfilled.openImages.order, hsources.openImages.order] at hselected
    exact if_pos (.inr (.inl (hselected.trans_lt hfew)))

/-- A sample is found exactly if there are images enough. -/
theorem sampleCombinedSupplementalIndices_spec
    (h : Admissible cocoTrain objects365 openImages shardBytes) {limits : Limits}
    (hlimits : limits = samplingLimits objects365.images.length openImages.images.length) :
    (headroomImages (limits.target - limits.floor) ≤ objects365.images.length →
      limits.floor ≤ openImages.images.length →
      ∃ result, sampleCombinedSupplementalIndices score cocoTrain objects365 openImages shardBytes =
          .ok result ∧ Sampled objects365 openImages shardBytes limits result) ∧
    (headroomImages (limits.target - limits.floor) ≤ objects365.images.length →
      openImages.images.length < limits.floor →
      sampleCombinedSupplementalIndices score cocoTrain objects365 openImages shardBytes =
        .error (.runtime "combined supplemental sampler could not fill its exact target")) ∧
    (objects365.images.length < headroomImages (limits.target - limits.floor) →
      sampleCombinedSupplementalIndices score cocoTrain objects365 openImages shardBytes =
        .error (.runtime "Objects365 shard selector cannot satisfy the sample budget")) := by
  have hrange : ∀ shard ∈ List.range shardBytes.length, shard < shardBytes.length := fun _ =>
    List.mem_range.mp
  have hall : shardImages (summariesOf objects365 shardBytes.length objects365.images)
      (List.range (summariesOf objects365 shardBytes.length objects365.images).length) =
        objects365.images.length := by
    rw [summariesOf, List.length_map, List.length_range]
    rw [show List.map _ _ = summariesOf objects365 shardBytes.length objects365.images from rfl,
      shardImages_of List.nodup_range hrange, filter_range h.known]
  have hfull : ∀ classId < classCount, classImagesOf objects365 objects365.images classId ≤
      shardClassImages (summariesOf objects365 shardBytes.length objects365.images)
        (List.range (summariesOf objects365 shardBytes.length objects365.images).length)
        classId := by
    intro classId _
    rw [summariesOf, List.length_map, List.length_range]
    rw [show List.map _ _ = summariesOf objects365 shardBytes.length objects365.images from rfl,
      shardClassImages_of List.nodup_range hrange, filter_range h.known]
  have hchoice := @chooseObjects365Shards_spec score _ shardBytes
    (summed_of objects365.images) (limits.target - limits.floor) _ hfull
  rw [hall] at hchoice
  obtain ⟨hgood, hbad⟩ := hchoice
  obtain ⟨hfloor, hceiling⟩ := samplingLimits_spec h.objectsCount h.openCount
  rw [← hlimits] at hfloor hceiling
  have hbase : cocoTrain.images.length + limits.target < 2 ^ 64 - 1 := by
    have hcoco := h.cocoCount
    have hobjects := h.objectsValid.count
    have hopen := h.openValid.count
    rw [hlimits]
    simp only [samplingLimits, supplementalBudgetDenominator]
    omega
  have hcounts : ∀ classId, classImagesOf cocoTrain cocoTrain.images classId ≤
      cocoTrain.images.length := classImagesOf_le cocoTrain.images
  obtain ⟨selectedOpen, hselectedOpen, hopenStart⟩ := @makeSourceSelection_spec _ [] 0 h.openValid
  have hopenOrder : selectedOpen.order.length = openImages.images.length := by
    rw [hopenStart.order.length_eq, length_eligiblePositions,
      List.filter_eq_self.mpr fun image _ => eligibleImage_all image]
  have hready : headroomImages (limits.target - limits.floor) ≤ objects365.images.length →
      ∃ shards archiveBytes objects,
        chooseObjects365Shards score
            (summariesOf objects365 shardBytes.length objects365.images)
            (classImagesOf objects365 objects365.images) shardBytes
            (limits.target - limits.floor) = .ok (shards, archiveBytes) ∧
          ChosenShards (summariesOf objects365 shardBytes.length objects365.images)
            (headroomImages (limits.target - limits.floor))
            (coverageTargets (classImagesOf objects365 objects365.images)) shards ∧
          makeSourceSelection objects365 (builtOf objects365 shardBytes.length objects365.images)
            (eligibleShards shardBytes.length shards) = .ok objects ∧
          Started objects365 (eligibleShards shardBytes.length shards) objects ∧
          limits.target - limits.floor ≤ objects.order.length := by
    intro henough
    obtain ⟨shards, archiveBytes, hshards, hchosen⟩ := hgood henough
    obtain ⟨objects, hobjects, hstart⟩ := @makeSourceSelection_spec _
      (eligibleShards shardBytes.length shards) shardBytes.length h.objectsValid
    refine ⟨shards, archiveBytes, objects, hshards, hchosen, hobjects, hstart, ?_⟩
    have hinside : ∀ shard ∈ shards, shard < shardBytes.length := fun shard hshard => by
      have hless := hchosen.inside shard hshard
      rwa [summariesOf, List.length_map, List.length_range] at hless
    have himages := hchosen.enough.images
    rw [shardImages_of (hchosen.sorted.imp fun hless => hless.ne) hinside] at himages
    refine (le_headroomImages _).trans (himages.trans_eq ?_)
    rw [hstart.order.length_eq, length_eligiblePositions]
    exact congrArg List.length (List.filter_congr fun image himage =>
      (eligibleImage_shards (h.known image himage)).symm)
  rw [sample_eq h hlimits]
  refine ⟨fun henough henoughOpen => ?_, fun henough hfew => ?_, fun hless => ?_⟩
  · obtain ⟨shards, archiveBytes, objects, hshards, hchosen, hobjects, hstart, hroom⟩ :=
      hready henough
    obtain ⟨final, hfinal, hkept, hsame, hsameOpen, hreached, hopenFloor, hopenCeiling⟩ :=
      (@sampleFrom_spec limits _ _ objects selectedOpen shards archiveBytes hstart.sound
        hopenStart.sound hstart.nothing hopenStart.nothing hfloor hceiling hcounts hbase).1 hroom
        (henoughOpen.trans_eq hopenOrder.symm)
    have hview := selectedView_perm hstart hsame hkept.objects
    have hviewOpen := selectedView_perm hopenStart hsameOpen hkept.openImages
    have hopenLength := length_selectedView hopenStart hsameOpen hkept.openImages
    refine ⟨⟨selectionResult final.objects, selectionResult final.openImages, limits, archiveBytes,
      shards⟩, ?_, {
      limits_eq := rfl
      total := ?_
      floor_le := hopenFloor.trans_eq hopenLength.symm
      le_ceiling := hopenLength.trans_le hopenCeiling
      objects_nodup := List.nodup_range.filter _
      open_nodup := List.nodup_range.filter _
      open_inside := fun position hposition => ?_
      in_shards := fun position hposition => ?_
      chosen := hchosen }⟩
    · rw [hshards]
      dsimp only [bind, Except.bind]
      rw [hobjects]
      dsimp only
      rw [hselectedOpen]
      exact hfinal
    · refine Eq.trans ?_ (hkept.total.symm.trans hreached)
      exact congrArg₂ (· + ·) (length_selectedView hstart hsame hkept.objects) hopenLength
    · have hinside := List.mem_range.mp (List.mem_filter.mp hposition).1
      rwa [hsameOpen.images, hopenStart.images] at hinside
    · have hmem := (List.mem_filter.mp (hview.mem_iff.mp hposition)).1
      rw [hsame.order, hstart.order.mem_iff] at hmem
      obtain ⟨image, himage, heligible⟩ := mem_eligiblePositions.mp hmem
      rw [eligibleImage_shards (h.known image (List.mem_of_getElem? himage))] at heligible
      exact ⟨image, himage, List.contains_iff_mem.mp heligible⟩
  · obtain ⟨shards, archiveBytes, objects, hshards, -, hobjects, hstart, -⟩ := hready henough
    rw [hshards]
    dsimp only [bind, Except.bind]
    rw [hobjects]
    dsimp only
    rw [hselectedOpen]
    exact (sampleFrom_spec hstart.sound hopenStart.sound hstart.nothing hopenStart.nothing hfloor
      hceiling hcounts hbase).2 (hopenOrder.trans_lt hfew)
  · rw [hbad hless]
    rfl

end

end Mmltk.Sampling
