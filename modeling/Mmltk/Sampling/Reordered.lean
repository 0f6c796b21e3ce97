import Mmltk.Foundation.IndexBijections
import Mmltk.Foundation.Outcome
import Mmltk.Foundation.SortedLists
import Mmltk.Sampling.Sampled

namespace Mmltk.Sampling

open Mmltk.Foundation

/-! The order of the images of an index does not change which of them are selected. -/

/-- The same source with its images at other places. -/
structure Reordered (places : Equiv.Perm ℕ) (source other : SourceSelection) : Prop where
  images : ∀ place, other.images[places place]? = source.images[place]?
  memberships : ∀ place,
    membershipAt other.memberships (places place) = membershipAt source.memberships place
  order : other.order = source.order.map places
  candidates : ∀ classId, other.candidates classId = (source.candidates classId).map places
  cursors : other.cursors = source.cursors
  selected : ∀ place, other.selected (places place) = source.selected place
  stats : other.stats = source.stats
  boxes : other.selectedBoxes = source.selectedBoxes
  runs : other.selectedRuns = source.selectedRuns

section

variable {places : Equiv.Perm ℕ} {source other : SourceSelection}

theorem Reordered.settle (h : Reordered places source other) (classId : Nat) :
    Reordered places (source.settle classId) (other.settle classId) := by
  have hselected : other.selected ∘ places = source.selected := funext h.selected
  refine { h with cursors := ?_ }
  simp only [SourceSelection.settle, h.cursors, h.candidates, ← List.map_drop, List.takeWhile_map,
    List.length_map, hselected]

theorem Reordered.available (h : Reordered places source other) (classId : Nat) :
    (other.classCandidateAvailable classId).1 = (source.classCandidateAvailable classId).1 ∧
      Reordered places (source.classCandidateAvailable classId).2
        (other.classCandidateAvailable classId).2 := by
  have hsettled := h.settle classId
  refine ⟨?_, hsettled⟩
  simp only [SourceSelection.classCandidateAvailable]
  rw [hsettled.cursors, hsettled.candidates, List.length_map]

theorem Reordered.take (h : Reordered places source other) (classId : Nat) :
    Alike (fun taken taken' => taken'.1 = places taken.1 ∧ Reordered places taken.2 taken'.2)
      (source.takeClassCandidate classId) (other.takeClassCandidate classId) := by
  obtain ⟨hsame, hmoved⟩ := h.available classId
  simp only [SourceSelection.takeClassCandidate]
  rw [hsame]
  cases havailable : (source.classCandidateAvailable classId).1 with
  | false => exact rfl
  | true =>
      simp only [Bool.not_true, Bool.false_eq_true, if_false]
      refine ⟨?_, { hmoved with cursors := ?_ }⟩
      · have hless : (source.classCandidateAvailable classId).2.cursors classId <
            ((source.classCandidateAvailable classId).2.candidates classId).length :=
          of_decide_eq_true havailable
        rw [hmoved.cursors, hmoved.candidates, List.getD_eq_getElem?_getD,
          List.getD_eq_getElem?_getD, List.getElem?_map, List.getElem?_eq_getElem hless]
        rfl
      · rw [hmoved.cursors]

theorem Reordered.select (h : Reordered places source other) (imageIndex : Nat)
    (combined : Nat → Nat) :
    Alike
      (fun selected selected' => Reordered places selected.1 selected'.1 ∧ selected'.2 = selected.2)
      (source.selectImage imageIndex combined)
      (other.selectImage (places imageIndex) combined) := by
  simp only [SourceSelection.selectImage]
  rw [h.selected, h.memberships, h.images, h.boxes, h.runs]
  split
  · exact rfl
  · generalize checkedAdd source.selectedBoxes _ _ = boxes
    cases boxes with
    | error failure => exact rfl
    | ok boxes =>
        simp only [bind, Except.bind]
        generalize checkedAdd source.selectedRuns _ _ = runs
        cases runs with
        | error failure => exact rfl
        | ok runs =>
            refine ⟨{ h with selected := fun place => ?_, stats := ?_, boxes := rfl, runs := rfl },
              rfl⟩
            · simp only [Function.update_apply, EmbeddingLike.apply_eq_iff_eq, h.selected]
            · rw [h.stats]

end

/-! ### Both sources -/

/-- Both sources with their images at other places. -/
structure Combined.Reordered (places openPlaces : Equiv.Perm ℕ) (sampling other : Combined) :
    Prop where
  objects : Sampling.Reordered places sampling.objects other.objects
  openImages : Sampling.Reordered openPlaces sampling.openImages other.openImages
  combined : other.combined = sampling.combined
  total : other.total = sampling.total

structure Rarest.Reordered (places openPlaces : Equiv.Perm ℕ) (rarest other : Rarest) : Prop where
  chosen : other.chosen = rarest.chosen
  chosenCount : other.chosenCount = rarest.chosenCount
  objects : Sampling.Reordered places rarest.objects other.objects
  openImages : Sampling.Reordered openPlaces rarest.openImages other.openImages

section

variable {places openPlaces : Equiv.Perm ℕ} {sampling otherSampling : Combined}
  {source other : SourceSelection}

/-- A look at a class, if the source is looked at. -/
theorem Reordered.look (h : Reordered places source other) (looked : Bool) (classId : Nat) :
    ∃ look otherLook : Bool × SourceSelection,
      (if looked then source.classCandidateAvailable classId else (false, source)) = look ∧
      (if looked then other.classCandidateAvailable classId else (false, other)) = otherLook ∧
      otherLook.1 = look.1 ∧ Reordered places look.2 otherLook.2 := by
  cases looked with
  | true => exact ⟨_, _, rfl, rfl, h.available classId⟩
  | false => exact ⟨_, _, rfl, rfl, rfl, h⟩

theorem Reordered.lookUnless (h : Reordered places source other) (skipped : Bool) (classId : Nat) :
    ∃ look otherLook : Bool × SourceSelection,
      (if skipped then (false, source) else source.classCandidateAvailable classId) = look ∧
      (if skipped then (false, other) else other.classCandidateAvailable classId) = otherLook ∧
      otherLook.1 = look.1 ∧ Reordered places look.2 otherLook.2 := by
  cases skipped with
  | true => exact ⟨_, _, rfl, rfl, rfl, h⟩
  | false => exact ⟨_, _, rfl, rfl, h.available classId⟩

theorem Rarest.Reordered.consider {rarest otherRarest : Rarest}
    (h : rarest.Reordered places openPlaces otherRarest) (combined : Nat → Nat)
    (openOnly openAllowed : Bool) (classId : Nat) :
    (considerClass combined openOnly openAllowed rarest classId).Reordered places openPlaces
      (considerClass combined openOnly openAllowed otherRarest classId) := by
  obtain ⟨look, otherLook, hlook, hother, hobject, hobjects⟩ :=
    h.objects.lookUnless openOnly classId
  obtain ⟨openLook, otherOpen, hopenLook, hotherOpen, hopen, hopenImages⟩ :=
    h.openImages.look openAllowed classId
  simp only [considerClass, hlook, hother, hopenLook, hotherOpen]
  rw [hobject, hopen, h.chosenCount]
  split
  · exact ⟨rfl, rfl, hobjects, hopenImages⟩
  · exact ⟨h.chosen, rfl, hobjects, hopenImages⟩

theorem Combined.Reordered.rarest (h : sampling.Reordered places openPlaces otherSampling)
    (openOnly openAllowed : Bool) :
    (rarestAvailableClass sampling openOnly openAllowed).Reordered places openPlaces
      (rarestAvailableClass otherSampling openOnly openAllowed) := by
  simp only [rarestAvailableClass]
  rw [h.combined]
  have hfold : ∀ (classes : List Nat) (rarest otherRarest : Rarest),
      rarest.Reordered places openPlaces otherRarest →
      (classes.foldl (considerClass sampling.combined openOnly openAllowed) rarest).Reordered
        places openPlaces
        (classes.foldl (considerClass sampling.combined openOnly openAllowed) otherRarest) := by
    intro classes
    induction classes with
    | nil => exact fun _ _ hsame => hsame
    | cons classId rest ih => exact fun _ _ hsame => ih _ _ (hsame.consider _ _ _ classId)
  exact hfold _ _ _ ⟨rfl, rfl, h.objects, h.openImages⟩

theorem Combined.Reordered.chooseClass (h : sampling.Reordered places openPlaces otherSampling)
    (forceOpen openAllowed : Bool) :
    (sampling.chooseClass forceOpen openAllowed).Reordered places openPlaces
      (otherSampling.chooseClass forceOpen openAllowed) := by
  have hfirst := h.rarest forceOpen openAllowed
  simp only [Combined.chooseClass]
  rw [hfirst.chosen]
  split
  · refine Combined.Reordered.rarest ?_ false openAllowed
    exact ⟨hfirst.objects, hfirst.openImages, h.combined, h.total⟩
  · exact hfirst

theorem Combined.Reordered.selectObject (h : sampling.Reordered places openPlaces otherSampling)
    (imageIndex : Nat) :
    Alike (Combined.Reordered places openPlaces) (sampling.selectObject imageIndex)
      (otherSampling.selectObject (places imageIndex)) := by
  simp only [Combined.selectObject]
  rw [h.combined]
  refine (h.objects.select imageIndex sampling.combined).bind fun selected selected' hsame => ?_
  exact ⟨hsame.1, h.openImages, hsame.2, congrArg (· + 1) h.total⟩

theorem Combined.Reordered.selectOpenImage (h : sampling.Reordered places openPlaces otherSampling)
    (imageIndex : Nat) :
    Alike (Combined.Reordered places openPlaces) (sampling.selectOpenImage imageIndex)
      (otherSampling.selectOpenImage (openPlaces imageIndex)) := by
  simp only [Combined.selectOpenImage]
  rw [h.combined]
  refine (h.openImages.select imageIndex sampling.combined).bind fun selected selected' hsame => ?_
  exact ⟨h.objects, hsame.1, hsame.2, congrArg (· + 1) h.total⟩

/-- The same turn, with the same answer whether to go on. -/
abbrev SameTurn (places openPlaces : Equiv.Perm ℕ) (turn other : Combined × Bool) : Prop :=
  turn.1.Reordered places openPlaces other.1 ∧ other.2 = turn.2

theorem Combined.Reordered.serveClass (h : sampling.Reordered places openPlaces otherSampling)
    (classId : Nat) (forceOpen openAllowed : Bool) :
    Alike (SameTurn places openPlaces) (sampling.serveClass classId forceOpen openAllowed)
      (otherSampling.serveClass classId forceOpen openAllowed) := by
  obtain ⟨look, otherLook, hlook, hother, hobject, hobjects⟩ :=
    h.objects.lookUnless forceOpen classId
  obtain ⟨openLook, otherOpen, hopenLook, hotherOpen, hopen, hopenImages⟩ :=
    h.openImages.look openAllowed classId
  simp only [Combined.serveClass, hlook, hother, hopenLook, hotherOpen]
  rw [hobject, hopen]
  split
  · refine (hobjects.take classId).bind fun taken taken' htaken => ?_
    have hsampling : Combined.Reordered places openPlaces { sampling with objects := taken.2 }
        { otherSampling with objects := taken'.2 } :=
      ⟨htaken.2, h.openImages, h.combined, h.total⟩
    have hselected := hsampling.selectObject taken.1
    rw [← htaken.1] at hselected
    exact hselected.bind fun next next' hnext => ⟨hnext, rfl⟩
  · split
    · refine (hopenImages.take classId).bind fun taken taken' htaken => ?_
      have hsampling : Combined.Reordered places openPlaces
          ⟨look.2, taken.2, sampling.combined, sampling.total⟩
          ⟨otherLook.2, taken'.2, otherSampling.combined, otherSampling.total⟩ :=
        ⟨hobjects, htaken.2, h.combined, h.total⟩
      have hselected := hsampling.selectOpenImage taken.1
      rw [← htaken.1] at hselected
      exact hselected.bind fun next next' hnext => ⟨hnext, rfl⟩
    · exact ⟨⟨hobjects, hopenImages, h.combined, h.total⟩, rfl⟩

theorem Combined.Reordered.round (limits : Limits)
    (h : sampling.Reordered places openPlaces otherSampling) :
    Alike (SameTurn places openPlaces) (sampling.round limits) (otherSampling.round limits) := by
  simp only [Combined.round]
  rw [h.openImages.stats, h.total]
  have hchosen := h.chooseClass
    (decide (sampling.openImages.stats.selectedImages < limits.floor ∧
      sampling.openImages.stats.selectedImages * limits.target ≤ sampling.total * limits.floor))
    (decide (sampling.openImages.stats.selectedImages < limits.ceiling))
  rw [hchosen.chosen]
  split
  · exact ⟨⟨hchosen.objects, hchosen.openImages, h.combined, rfl⟩, rfl⟩
  · refine Combined.Reordered.serveClass ?_ _ _ _
    exact ⟨hchosen.objects, hchosen.openImages, h.combined, rfl⟩

theorem Combined.Reordered.greedy (limits : Limits) (fuel : Nat)
    (h : sampling.Reordered places openPlaces otherSampling) :
    Alike (Combined.Reordered places openPlaces) (Combined.greedy limits fuel sampling)
      (Combined.greedy limits fuel otherSampling) := by
  induction fuel generalizing sampling otherSampling with
  | zero =>
      rw [Combined.greedy, Combined.greedy, h.total]
      split
      · exact h
      · exact rfl
  | succ fuel ih =>
      rw [Combined.greedy, Combined.greedy, h.total]
      split
      · exact h
      · refine (h.round limits).bind fun turn turn' hturn => ?_
        obtain ⟨next, more⟩ := turn
        obtain ⟨next', more'⟩ := turn'
        obtain ⟨hnext, hmore⟩ := hturn
        obtain rfl : more' = more := hmore
        cases more' with
        | true => exact ih hnext
        | false => exact hnext

/-- The same images in the same order, at other places. -/
theorem Combined.Reordered.fillObjects (limits : Limits) (maximum : Nat)
    {images otherImages : List HashedImage}
    (himages : otherImages.map HashedImage.imageIndex =
      (images.map HashedImage.imageIndex).map places)
    (h : sampling.Reordered places openPlaces otherSampling) :
    Alike (Combined.Reordered places openPlaces)
      (Combined.fillObjects limits maximum images sampling)
      (Combined.fillObjects limits maximum otherImages otherSampling) := by
  induction images generalizing otherImages sampling otherSampling with
  | nil =>
      obtain rfl := List.map_eq_nil_iff.mp himages
      exact h
  | cons image images ih =>
      cases otherImages with
      | nil => cases himages
      | cons otherImage otherImages =>
          obtain ⟨himage, hrest⟩ := List.cons.inj himages
          rw [Combined.fillObjects, Combined.fillObjects, h.total, h.objects.stats, himage,
            h.objects.selected]
          split
          · exact h
          · split
            · exact ih hrest h
            · exact (h.selectObject image.imageIndex).bind fun next next' hnext => ih hrest hnext

theorem Combined.Reordered.fillOpenImages (limits : Limits) (maximum : Nat)
    {images otherImages : List HashedImage}
    (himages : otherImages.map HashedImage.imageIndex =
      (images.map HashedImage.imageIndex).map openPlaces)
    (h : sampling.Reordered places openPlaces otherSampling) :
    Alike (Combined.Reordered places openPlaces)
      (Combined.fillOpenImages limits maximum images sampling)
      (Combined.fillOpenImages limits maximum otherImages otherSampling) := by
  induction images generalizing otherImages sampling otherSampling with
  | nil =>
      obtain rfl := List.map_eq_nil_iff.mp himages
      exact h
  | cons image images ih =>
      cases otherImages with
      | nil => cases himages
      | cons otherImage otherImages =>
          obtain ⟨himage, hrest⟩ := List.cons.inj himages
          rw [Combined.fillOpenImages, Combined.fillOpenImages, h.total, h.openImages.stats, himage,
            h.openImages.selected]
          split
          · exact h
          · split
            · exact ih hrest h
            · exact (h.selectOpenImage image.imageIndex).bind fun next next' hnext =>
                ih hrest hnext

theorem Combined.Reordered.fill (limits : Limits)
    (h : sampling.Reordered places openPlaces otherSampling) :
    Alike (Combined.Reordered places openPlaces) (sampling.fill limits)
      (otherSampling.fill limits) := by
  refine (h.fillObjects limits _ h.objects.order).bind fun first first' hfirst => ?_
  refine (hfirst.fillOpenImages limits _ hfirst.openImages.order).bind
    fun second second' hsecond => ?_
  exact hsecond.fillObjects limits _ hsecond.objects.order

end

/-! ### The indices -/

/-- An entry whose image is at another place. -/
def HashedImage.at (places : Equiv.Perm ℕ) (image : HashedImage) : HashedImage :=
  { image with imageIndex := places image.imageIndex }

theorem code_le_iff {image other : HashedImage} :
    image.code ≤ other.code ↔ image.hash.toNat < other.hash.toNat ∨
      image.hash.toNat = other.hash.toNat ∧
        (image.sourceImageId.toNat < other.sourceImageId.toNat ∨
          image.sourceImageId.toNat = other.sourceImageId.toNat ∧
            image.imageIndex ≤ other.imageIndex) := by
  rw [HashedImage.code, HashedImage.code, Prod.Lex.toLex_le_toLex, Prod.Lex.toLex_le_toLex]

theorem code_inj {image other : HashedImage} (h : image.code = other.code) :
    image.sourceImageId = other.sourceImageId := by
  have hle := code_le_iff.mp h.le
  have hge := code_le_iff.mp h.ge
  exact UInt64.toNat_inj.mp (by omega)

/-- Entries of different images stand in their order wherever the images are. -/
theorem code_at_le {places : Equiv.Perm ℕ} {image other : HashedImage}
    (hne : image.sourceImageId ≠ other.sourceImageId) (h : image.code ≤ other.code) :
    (image.at places).code ≤ (other.at places).code := by
  have hids : image.sourceImageId.toNat ≠ other.sourceImageId.toNat := fun hsame =>
    hne (UInt64.toNat_inj.mp hsame)
  rw [code_le_iff] at h ⊢
  simp only [HashedImage.at]
  omega

section

variable {source : NormalizedAnnotationIndex} {images : List NormalizedImage} {shards : Nat}
  {places : Equiv.Perm ℕ} {eligible : List Bool}

theorem classImagesOf_reordered {part other : List NormalizedImage} (h : part.Perm other) :
    classImagesOf { source with images } other = classImagesOf source part := by
  funext classId
  exact (h.symm.map _).sum_eq

theorem summariesOf_reordered (h : source.images.Perm images) :
    summariesOf { source with images } shards images = summariesOf source shards source.images := by
  rw [summariesOf, summariesOf]
  refine List.map_congr_left fun shard _ => ?_
  rw [h.countP_eq, classImagesOf_reordered (h.filter _)]

theorem zipIdx_reordered (hplaces : ∀ place, images[places place]? = source.images[place]?) :
    (images.zipIdx.filter fun image => eligibleImage eligible image.1).Perm
      ((source.images.zipIdx.filter fun image => eligibleImage eligible image.1).map
        (Prod.map id places)) := by
  have hnodup : ∀ list : List NormalizedImage, list.zipIdx.Nodup := fun list => by
    refine List.Nodup.of_map Prod.snd ?_
    rw [List.zipIdx_map_snd]
    exact List.nodup_range'
  refine (List.perm_ext_iff_of_nodup ((hnodup _).filter _) (((hnodup _).filter _).map
    (Function.injective_id.prodMap places.injective))).mpr ?_
  rintro ⟨image, position⟩
  rw [List.mem_filter, List.mk_mem_zipIdx_iff_getElem?, List.mem_map]
  constructor
  · rintro ⟨himage, heligible⟩
    refine ⟨(image, places.symm position), List.mem_filter.mpr ⟨?_, heligible⟩, ?_⟩
    · rw [List.mk_mem_zipIdx_iff_getElem?, ← hplaces, Equiv.apply_symm_apply]
      exact himage
    · rw [Prod.map_apply, Equiv.apply_symm_apply]
      rfl
  · rintro ⟨⟨other, place⟩, hmem, heq⟩
    obtain ⟨hentry, heligible⟩ := List.mem_filter.mp hmem
    rw [List.mk_mem_zipIdx_iff_getElem?] at hentry
    cases heq
    exact ⟨(hplaces place).trans hentry, heligible⟩

theorem hashOrderOf_reordered (hids : (source.images.map NormalizedImage.sourceImageId).Nodup)
    (hplaces : ∀ place, images[places place]? = source.images[place]?) :
    hashOrderOf { source with images } eligible =
      (hashOrderOf source eligible).map (HashedImage.at places) := by
  have hown : (((source.images.zipIdx.filter fun image => eligibleImage eligible image.1).map
      (hashImage source.source)).map HashedImage.sourceImageId).Nodup := by
    rw [List.map_map]
    have hsub := (List.filter_sublist (p := fun image : NormalizedImage × Nat =>
      eligibleImage eligible image.1) (l := source.images.zipIdx)).map
        fun image => image.1.sourceImageId
    refine (hsub.nodup ?_)
    rw [← List.zipIdx_map_fst 0 source.images, List.map_map] at hids
    exact hids
  have hsorted := List.perm_insertionSort (fun image other : HashedImage => image.code ≤ other.code)
    ((source.images.zipIdx.filter fun image => eligibleImage eligible image.1).map
      (hashImage source.source))
  have hsortedIds : ((hashOrderOf source eligible).map HashedImage.sourceImageId).Nodup :=
    (hsorted.map _).nodup_iff.mpr hown
  have hmoved : ((images.zipIdx.filter fun image => eligibleImage eligible image.1).map
      (hashImage source.source)).Perm
        ((hashOrderOf source eligible).map (HashedImage.at places)) := by
    refine ((zipIdx_reordered hplaces).map _).trans ?_
    refine (List.Perm.of_eq ?_).trans (hsorted.symm.map _)
    rw [List.map_map, List.map_map]
    rfl
  refine insertionSort_eq hmoved ?_ ?_
  · rw [List.pairwise_map]
    have htotal : Std.Total fun image other : HashedImage => image.code ≤ other.code :=
      ⟨fun image other => le_total _ _⟩
    have htrans : IsTrans HashedImage fun image other => image.code ≤ other.code :=
      ⟨fun _ _ _ hfirst hlater => hfirst.trans hlater⟩
    have hpairs :
        (hashOrderOf source eligible).Pairwise fun image other => image.code ≤ other.code :=
      List.pairwise_insertionSort _ _
    have hdistinct := List.pairwise_map.mp hsortedIds
    exact (hpairs.and hdistinct).imp fun hboth => code_at_le hboth.2 hboth.1
  · have hids' : (((images.zipIdx.filter fun image => eligibleImage eligible image.1).map
        (hashImage source.source)).map HashedImage.sourceImageId).Nodup := by
      rw [(hmoved.map _).nodup_iff, List.map_map]
      exact hsortedIds
    exact (List.Nodup.of_map _ hids').map_on fun image himage other hother heq =>
      List.inj_on_of_nodup_map hids' himage hother (code_inj heq)

/-- What a source is before anything is selected from it, with its images at other places. -/
theorem startOf_reordered (hids : (source.images.map NormalizedImage.sourceImageId).Nodup)
    (hperm : source.images.Perm images)
    (hplaces : ∀ place, images[places place]? = source.images[place]?) :
    Reordered places (startOf source (builtOf source shards source.images) eligible)
      (startOf { source with images } (builtOf { source with images } shards images) eligible) := by
  have hmemberships : ∀ place,
      membershipAt (images.map (membershipOf { source with images })) (places place) =
        membershipAt (source.images.map (membershipOf source)) place := by
    intro place
    rw [membershipAt, membershipAt, List.getD_eq_getElem?_getD, List.getD_eq_getElem?_getD,
      List.getElem?_map, List.getElem?_map, hplaces]
    rfl
  have horder := @hashOrderOf_reordered _ _ _ eligible hids hplaces
  exact {
    images := hplaces
    memberships := hmemberships
    order := by
      simp only [SourceSelection.order, startOf, horder, List.map_map]
      rfl
    candidates := fun classId => by
      simp only [startOf, builtOf, horder, List.filter_map, List.map_map]
      refine List.map_congr_left (fun _ _ => rfl) |>.trans ?_
      refine congrArg (List.map _) (List.filter_congr fun image _ => ?_)
      exact congrArg (fun membership => membership.classes.contains classId)
        (hmemberships image.imageIndex)
    cursors := rfl
    selected := fun _ => rfl
    stats := by
      simp only [startOf, builtOf, hperm.length_eq, classImagesOf_reordered hperm]
    boxes := rfl
    runs := rfl }

end

/-! ### The sample -/

theorem selectedView_reordered {places : Equiv.Perm ℕ} {source other : SourceSelection}
    (h : Reordered places source other) :
    (selectedView other).Perm ((selectedView source).map places) := by
  refine (List.perm_ext_iff_of_nodup (List.nodup_range.filter _)
    ((List.nodup_range.filter _).map places.injective)).mpr fun position => ?_
  have hinside : ∀ place, places place < other.images.length ↔ place < source.images.length := by
    intro place
    have hsame := congrArg Option.isNone (h.images place)
    rw [Bool.eq_iff_iff, Option.isNone_iff_eq_none, Option.isNone_iff_eq_none,
      List.getElem?_eq_none_iff, List.getElem?_eq_none_iff] at hsame
    omega
  rw [List.mem_map]
  constructor
  · intro hmem
    obtain ⟨hless, hselected⟩ := List.mem_filter.mp hmem
    refine ⟨places.symm position, List.mem_filter.mpr ⟨List.mem_range.mpr ?_, ?_⟩,
      Equiv.apply_symm_apply _ _⟩
    · rw [← hinside, Equiv.apply_symm_apply]
      exact List.mem_range.mp hless
    · rw [← h.selected, Equiv.apply_symm_apply]
      exact hselected
  · rintro ⟨place, hmem, rfl⟩
    obtain ⟨hless, hselected⟩ := List.mem_filter.mp hmem
    have hother := (hinside place).mpr (List.mem_range.mp hless)
    exact List.mem_filter.mpr
      ⟨List.mem_range.mpr hother, (h.selected place).trans hselected⟩

/-- The ids of the images at some positions. -/
def sourceIds (source : NormalizedAnnotationIndex) (view : List Nat) : List UInt64 :=
  view.filterMap fun position => source.images[position]?.map NormalizedImage.sourceImageId

theorem sourceIds_reordered {source : NormalizedAnnotationIndex} {images : List NormalizedImage}
    {places : Equiv.Perm ℕ} {view other : List Nat} (hview : other.Perm (view.map places))
    (hplaces : ∀ place, images[places place]? = source.images[place]?) :
    (sourceIds { source with images } other).Perm (sourceIds source view) := by
  refine (hview.filterMap _).trans (.of_eq ?_)
  rw [List.filterMap_map, sourceIds]
  refine List.filterMap_congr fun position _ => ?_
  exact congrArg (Option.map NormalizedImage.sourceImageId) (hplaces position)

/-- The same sample: the same shards, images, counts and bytes. -/
structure SameSample (objects365 objects365' openImages openImages' : NormalizedAnnotationIndex)
    (result other : CombinedSupplementalSamplingResult) : Prop where
  limits : other.limits = result.limits
  shards : other.objects365Shards = result.objects365Shards
  bytes : other.objects365ArchiveBytes = result.objects365ArchiveBytes
  objectStats : other.objects365.stats = result.objects365.stats
  openStats : other.openImages.stats = result.openImages.stats
  objectIds : (sourceIds objects365' other.objects365.view).Perm
    (sourceIds objects365 result.objects365.view)
  openIds : (sourceIds openImages' other.openImages.view).Perm
    (sourceIds openImages result.openImages.view)

section

variable {score : Nat → Nat → ℚ} {cocoTrain objects365 openImages : NormalizedAnnotationIndex}
  {cocoTrainImages objects365Images openImagesImages : List NormalizedImage}
  {shardBytes : List Nat}

theorem ValidIndex.reorder {source : NormalizedAnnotationIndex} {images : List NormalizedImage}
    (h : ValidIndex source) (hperm : source.images.Perm images) :
    ValidIndex { source with images } where
  images := fun image himage => by
    have hvalid := h.images image (hperm.mem_iff.mpr himage)
    exact ⟨hvalid.some, hvalid.span, hvalid.classes, hvalid.runs⟩
  count := hperm.length_eq.symm.trans_le h.count
  boxes := ((hperm.symm.map _).sum_eq).trans_lt h.boxes
  runs := ((hperm.symm.map _).sum_eq).trans_lt h.runs

theorem Admissible.reorder (h : Admissible cocoTrain objects365 openImages shardBytes)
    (hcoco : cocoTrain.images.Perm cocoTrainImages)
    (hobjects : objects365.images.Perm objects365Images)
    (hopen : openImages.images.Perm openImagesImages) :
    Admissible { cocoTrain with images := cocoTrainImages }
      { objects365 with images := objects365Images }
      { openImages with images := openImagesImages } shardBytes where
  cocoSource := h.cocoSource
  objectsSource := h.objectsSource
  openSource := h.openSource
  coco := fun image himage => by
    have hvalid := h.coco image (hcoco.mem_iff.mpr himage)
    exact ⟨hvalid.some, hvalid.span, hvalid.classes, hvalid.runs⟩
  cocoCount := hcoco.length_eq.symm.trans_lt h.cocoCount
  objectsValid := h.objectsValid.reorder hobjects
  openValid := h.openValid.reorder hopen
  objectsCount := h.objectsCount.trans_eq hobjects.length_eq
  openCount := h.openCount.trans_eq hopen.length_eq
  archives := h.archives
  known := fun image himage => h.known image (hobjects.mem_iff.mpr himage)

/-- The order of the images changes neither the outcome nor which images are selected. -/
theorem sample_reordered (h : Admissible cocoTrain objects365 openImages shardBytes)
    (hobjectIds : (objects365.images.map NormalizedImage.sourceImageId).Nodup)
    (hopenIds : (openImages.images.map NormalizedImage.sourceImageId).Nodup)
    (hcoco : cocoTrain.images.Perm cocoTrainImages)
    (hobjects : objects365.images.Perm objects365Images)
    (hopen : openImages.images.Perm openImagesImages) :
    Alike (SameSample objects365 { objects365 with images := objects365Images } openImages
        { openImages with images := openImagesImages })
      (sampleCombinedSupplementalIndices score cocoTrain objects365 openImages shardBytes)
      (sampleCombinedSupplementalIndices score { cocoTrain with images := cocoTrainImages }
        { objects365 with images := objects365Images }
        { openImages with images := openImagesImages } shardBytes) := by
  obtain ⟨places, hplaces⟩ := exists_places hobjects
  obtain ⟨openPlaces, hopenPlaces⟩ := exists_places hopen
  have hother := h.reorder hcoco hobjects hopen
  rw [sample_eq h rfl, sample_eq hother rfl]
  simp only [hobjects.length_eq.symm, hopen.length_eq.symm, summariesOf_reordered hobjects,
    classImagesOf_reordered hobjects, classImagesOf_reordered hcoco]
  generalize chooseObjects365Shards score _ _ _ _ = chosen
  cases chosen with
  | error failure => exact rfl
  | ok chosen =>
      simp only [bind, Except.bind]
      rw [makeSourceSelection_eq h.objectsValid.count, makeSourceSelection_eq h.openValid.count,
        makeSourceSelection_eq hother.objectsValid.count,
        makeSourceSelection_eq hother.openValid.count]
      dsimp only
      have hstart : Combined.Reordered places openPlaces
          ⟨startOf objects365 (builtOf objects365 shardBytes.length objects365.images)
            (eligibleShards shardBytes.length chosen.1),
            startOf openImages (builtOf openImages 0 openImages.images) [],
            classImagesOf cocoTrain cocoTrain.images, 0⟩
          ⟨startOf _ (builtOf _ shardBytes.length objects365Images)
            (eligibleShards shardBytes.length chosen.1),
            startOf _ (builtOf _ 0 openImagesImages) [],
            classImagesOf cocoTrain cocoTrain.images, 0⟩ :=
        ⟨startOf_reordered hobjectIds hobjects hplaces,
          startOf_reordered hopenIds hopen hopenPlaces, rfl, rfl⟩
      rw [sampleFrom, sampleFrom]
      refine (hstart.greedy _ _).bind fun greedy greedy' hgreedy => ?_
      refine (hgreedy.fill _).bind fun final final' hfinal => ?_
      rw [hfinal.total, hfinal.openImages.stats]
      split
      · exact rfl
      · have hobjectView := selectedView_reordered hfinal.objects
        have hopenView := selectedView_reordered hfinal.openImages
        exact {
          limits := rfl
          shards := rfl
          bytes := rfl
          objectStats := by
            simp only [selectionResult, hfinal.objects.stats, hfinal.objects.boxes]
          openStats := by
            simp only [selectionResult, hfinal.openImages.stats, hfinal.openImages.boxes]
          objectIds := sourceIds_reordered hobjectView hplaces
          openIds := sourceIds_reordered hopenView hopenPlaces }

/-- There is a sample with images enough, and one of two failures without them. -/
theorem sample_outcome (h : Admissible cocoTrain objects365 openImages shardBytes) {limits : Limits}
    (hlimits : limits = samplingLimits objects365.images.length openImages.images.length) :
    ((headroomImages (limits.target - limits.floor) ≤ objects365.images.length ∧
        limits.floor ≤ openImages.images.length) ∧
      ∃ result, sampleCombinedSupplementalIndices score cocoTrain objects365 openImages shardBytes =
        .ok result ∧ Sampled objects365 openImages shardBytes limits result) ∨
    (¬ (headroomImages (limits.target - limits.floor) ≤ objects365.images.length ∧
        limits.floor ≤ openImages.images.length) ∧
      ∃ failure,
        sampleCombinedSupplementalIndices score cocoTrain objects365 openImages shardBytes =
          .error failure ∧
        (failure = .runtime "combined supplemental sampler could not fill its exact target" ∨
          failure = .runtime "Objects365 shard selector cannot satisfy the sample budget")) := by
  obtain ⟨hgood, hfew, hless⟩ := @sampleCombinedSupplementalIndices_spec score _ _ _ _ h _ hlimits
  rcases Nat.lt_or_ge objects365.images.length (headroomImages (limits.target - limits.floor)) with
    hobjects | hobjects
  · exact .inr ⟨fun henough => hobjects.not_ge henough.1, _, hless hobjects, .inr rfl⟩
  · rcases Nat.lt_or_ge openImages.images.length limits.floor with hopen | hopen
    · exact .inr ⟨fun henough => hopen.not_ge henough.2, _, hfew hobjects hopen, .inl rfl⟩
    · exact .inl ⟨⟨hobjects, hopen⟩, hgood hobjects hopen⟩

/-- A sample exists exactly if there are images enough.  It has its target of different images, from
shards that are enough and none too many, and does not depend on the order of the images. -/
theorem combined_sample (h : Admissible cocoTrain objects365 openImages shardBytes)
    {limits : Limits}
    (hlimits : limits = samplingLimits objects365.images.length openImages.images.length) :
    ((∃ result, sampleCombinedSupplementalIndices score cocoTrain objects365 openImages shardBytes =
        .ok result) ↔
      headroomImages (limits.target - limits.floor) ≤ objects365.images.length ∧
        limits.floor ≤ openImages.images.length) ∧
    (∀ result, sampleCombinedSupplementalIndices score cocoTrain objects365 openImages shardBytes =
        .ok result → Sampled objects365 openImages shardBytes limits result) ∧
    (∀ failure, sampleCombinedSupplementalIndices score cocoTrain objects365 openImages shardBytes =
        .error failure →
      failure = .runtime "combined supplemental sampler could not fill its exact target" ∨
        failure = .runtime "Objects365 shard selector cannot satisfy the sample budget") ∧
    ∀ cocoTrainImages objects365Images openImagesImages : List NormalizedImage,
      (objects365.images.map NormalizedImage.sourceImageId).Nodup →
      (openImages.images.map NormalizedImage.sourceImageId).Nodup →
      cocoTrain.images.Perm cocoTrainImages → objects365.images.Perm objects365Images →
      openImages.images.Perm openImagesImages →
      Alike (SameSample objects365 { objects365 with images := objects365Images } openImages
          { openImages with images := openImagesImages })
        (sampleCombinedSupplementalIndices score cocoTrain objects365 openImages shardBytes)
        (sampleCombinedSupplementalIndices score { cocoTrain with images := cocoTrainImages }
          { objects365 with images := objects365Images }
          { openImages with images := openImagesImages } shardBytes) := by
  have hreordered := fun cocoTrainImages objects365Images openImagesImages hobjectIds hopenIds =>
    @sample_reordered score _ _ _ cocoTrainImages objects365Images openImagesImages _ h hobjectIds
      hopenIds
  rcases @sample_outcome score _ _ _ _ h _ hlimits with
    ⟨henough, result, hresult, hsampled⟩ | ⟨hfew, failure, hfailure, hsaid⟩
  · refine ⟨iff_of_true ⟨result, hresult⟩ henough, fun other hother => ?_,
      fun failure hfailure => ?_, hreordered⟩
    · rw [hresult] at hother
      cases hother
      exact hsampled
    · rw [hresult] at hfailure
      cases hfailure
  · refine ⟨iff_of_false ?_ hfew, fun result hresult => ?_, fun other hother => ?_, hreordered⟩
    · rintro ⟨result, hresult⟩
      rw [hfailure] at hresult
      cases hresult
    · rw [hfailure] at hresult
      cases hresult
    · rw [hfailure] at hother
      cases hother
      exact hsaid

end

/-- Six images with one box each. -/
def sixImages (source : BenchmarkDatasetSource) : NormalizedAnnotationIndex where
  source
  images := (List.range 6).map fun image => ⟨.ofNat image, image, 1, 0⟩
  boxes := List.replicate 6 ⟨1, 0⟩

theorem sixImages_valid (source : BenchmarkDatasetSource) : ValidIndex (sixImages source) where
  images := fun image himage => by
    obtain ⟨index, hindex, rfl⟩ := List.mem_map.mp himage
    have hless := List.mem_range.mp hindex
    refine ⟨Nat.one_ne_zero, ?_, fun box hbox => ?_, ?_⟩
    · exact hless
    · have hmem := List.mem_of_mem_drop (List.mem_of_mem_take hbox)
      obtain rfl := List.eq_of_mem_replicate hmem
      decide
    · have hruns : ∀ index < 6, ((spanOf (sixImages source) ⟨.ofNat index, index, 1, 0⟩).map
          fun box => box.maskRlePairs).sum < 2 ^ 64 := by
        cases source <;> decide
      exact hruns index hless
  count := by cases source <;> decide
  boxes := by cases source <;> decide
  runs := by cases source <;> decide

theorem sample_six_images : ∃ result, sampleCombinedSupplementalIndices
    (fun gain size => gain / size) ⟨.coco2017, [], []⟩ (sixImages .objects365V2)
    (sixImages .openImagesV7) [1] = .ok result ∧
      result.objects365.view.length + result.openImages.view.length = 2 := by
  have h : Admissible ⟨.coco2017, [], []⟩ (sixImages .objects365V2)
      (sixImages .openImagesV7) [1] := {
    cocoSource := rfl
    objectsSource := rfl
    openSource := rfl
    coco := fun _ himage => absurd himage List.not_mem_nil
    cocoCount := by decide
    objectsValid := sixImages_valid _
    openValid := sixImages_valid _
    objectsCount := by decide
    openCount := by decide
    archives := List.cons_ne_nil _ _
    known := by decide }
  obtain ⟨hiff, hsampled, -⟩ := @combined_sample (fun gain size => gain / size) _ _ _ _ h _ rfl
  obtain ⟨result, hresult⟩ := hiff.mpr (by decide)
  exact ⟨result, hresult, (hsampled result hresult).total⟩

/-- Without a single archive there is no sample, whatever the images. -/
theorem sample_without_archives : ValidIndex (sixImages .objects365V2) ∧
    ValidIndex (sixImages .openImagesV7) ∧
    headroomImages ((samplingLimits 6 6).target - (samplingLimits 6 6).floor) ≤
      (sixImages .objects365V2).images.length ∧
    (samplingLimits 6 6).floor ≤ (sixImages .openImagesV7).images.length ∧
    ∀ score, sampleCombinedSupplementalIndices score ⟨.coco2017, [], []⟩ (sixImages .objects365V2)
      (sixImages .openImagesV7) [] =
        .error (.runtime "Objects365 sampler requires archive byte identities") :=
  ⟨sixImages_valid _, sixImages_valid _, by decide, by decide, fun _ => rfl⟩

end Mmltk.Sampling
