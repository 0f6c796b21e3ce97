import Mmltk.Sampling.ShardChoice

namespace Mmltk.Sampling

/-! The classes of the images, and what the shards have of them. -/

namespace ClassMembership

variable {membership : ClassMembership} {classId other : Nat}

theorem mem_classes : classId ∈ membership.classes ↔
    classId < 64 ∧ membership.low.getLsbD classId = true ∨
      64 ≤ classId ∧ membership.high.getLsbD (classId - 64) = true := by
  rw [classes, List.mem_append, List.mem_filter, List.mem_range, List.mem_map]
  refine or_congr Iff.rfl ⟨fun ⟨bit, hbit, hsame⟩ => ?_, fun ⟨hle, hbit⟩ => ?_⟩
  · obtain ⟨-, hset⟩ := List.mem_filter.mp hbit
    rw [← hsame, Nat.add_sub_cancel_left]
    exact ⟨Nat.le_add_right _ _, hset⟩
  · refine ⟨classId - 64, List.mem_filter.mpr ⟨?_, hbit⟩, by omega⟩
    exact List.mem_range.mpr (BitVec.lt_of_getLsbD hbit)

theorem classes_nodup (membership : ClassMembership) : membership.classes.Nodup := by
  refine List.nodup_append.mpr ⟨List.nodup_range.filter _,
    (List.nodup_range.filter _).map fun _ _ h => Nat.add_left_cancel h, fun low hlow high hhigh => ?_⟩
  have hless := List.mem_range.mp (List.mem_filter.mp hlow).1
  obtain ⟨bit, -, rfl⟩ := List.mem_map.mp hhigh
  omega

theorem getLsbD_one_shiftLeft {bit place : Nat} (h : bit < 64) :
    (1#64 <<< place).getLsbD bit = decide (bit = place) := by
  rw [BitVec.getLsbD_shiftLeft, BitVec.getLsbD_one]
  grind

theorem mem_addClass (hclass : classId < classCount) : other ∈ (membership.addClass classId).classes ↔
    other ∈ membership.classes ∨ other = classId := by
  have hless : classId < 80 := hclass
  rw [addClass]
  split
  next hlow =>
    rw [mem_classes, mem_classes]
    dsimp only
    rw [BitVec.getLsbD_or, Bool.or_eq_true]
    rcases Nat.lt_or_ge other 64 with hother | hother
    · rw [getLsbD_one_shiftLeft hother, decide_eq_true_eq]
      grind
    · grind
  next hhigh =>
    rw [mem_classes, mem_classes]
    dsimp only
    rw [BitVec.getLsbD_or, Bool.or_eq_true]
    rcases Nat.lt_or_ge (other - 64) 64 with hother | hother
    · rw [getLsbD_one_shiftLeft hother, decide_eq_true_eq]
      grind
    · rw [BitVec.getLsbD_of_ge _ _ hother]
      grind

theorem classes_eq_nil : membership.classes = [] ↔ membership.low = 0 ∧ membership.high = 0 := by
  rw [List.eq_nil_iff_forall_not_mem]
  constructor
  · intro hnone
    have hlow : ∀ bit < 64, membership.low.getLsbD bit = false := fun bit hbit =>
      Bool.eq_false_iff.mpr fun hset => hnone bit (mem_classes.mpr (.inl ⟨hbit, hset⟩))
    have hhigh : ∀ bit, membership.high.getLsbD bit = false := fun bit =>
      Bool.eq_false_iff.mpr fun hset => hnone (bit + 64) (mem_classes.mpr (.inr
        ⟨Nat.le_add_left _ _, by rwa [Nat.add_sub_cancel]⟩))
    constructor
    · exact BitVec.eq_of_getLsbD_eq fun bit hbit => (hlow bit hbit).trans BitVec.getLsbD_zero.symm
    · exact BitVec.eq_of_getLsbD_eq fun bit _ => (hhigh bit).trans BitVec.getLsbD_zero.symm
  · intro ⟨hlow, hhigh⟩ classId hmem
    rw [mem_classes, hlow, hhigh] at hmem
    simp at hmem

/-- Boxes are added if their classes are known and their runs can be counted. -/
theorem addBoxes_spec {boxes : List NormalizedBox} {membership : ClassMembership}
    (hclasses : ∀ box ∈ boxes, box.classId < classCount)
    (hruns : membership.maskRuns + (boxes.map fun box => box.maskRlePairs).sum < 2 ^ 64) :
    ∃ final, boxes.foldlM addBox membership = .ok final ∧
      (∀ classId, classId ∈ final.classes ↔
        classId ∈ membership.classes ∨ ∃ box ∈ boxes, box.classId = classId) ∧
      final.maskRuns = membership.maskRuns + (boxes.map fun box => box.maskRlePairs).sum := by
  induction boxes generalizing membership with
  | nil => exact ⟨membership, rfl, fun classId => (or_iff_left fun ⟨_, hmem, _⟩ => nomatch hmem).symm, rfl⟩
  | cons box boxes ih =>
      obtain ⟨hclass, hrest⟩ := List.forall_mem_cons.mp hclasses
      rw [List.map_cons, List.sum_cons] at hruns
      obtain ⟨final, hfinal, hmem, hcount⟩ := @ih
        { membership.addClass box.classId with maskRuns := membership.maskRuns + box.maskRlePairs }
        hrest (by dsimp only; omega)
      refine ⟨final, ?_, fun classId => ?_, ?_⟩
      · rw [List.foldlM_cons, addBox, if_neg (Nat.not_le_of_lt hclass), checkedAdd, if_neg (by omega)]
        exact hfinal
      · have hadded : ∀ other, other ∈ ({ membership.addClass box.classId with
            maskRuns := membership.maskRuns + box.maskRlePairs } : ClassMembership).classes ↔
            other ∈ membership.classes ∨ other = box.classId := fun other => mem_addClass hclass
        rw [hmem, hadded, or_assoc, List.exists_mem_cons_iff]
        exact or_congr_right (or_congr_left eq_comm)
      · rw [hcount, List.map_cons, List.sum_cons, Nat.add_assoc]

end ClassMembership

def spanOf (source : NormalizedAnnotationIndex) (image : NormalizedImage) : List NormalizedBox :=
  (source.boxes.drop image.firstBox).take image.boxCount

/-- An image whose boxes are there, of known classes. -/
structure ValidImage (source : NormalizedAnnotationIndex) (image : NormalizedImage) : Prop where
  some : image.boxCount ≠ 0
  span : image.firstBox + image.boxCount ≤ source.boxes.length
  classes : ∀ box ∈ spanOf source image, box.classId < classCount
  runs : ((spanOf source image).map fun box => box.maskRlePairs).sum < 2 ^ 64

def membershipOf (source : NormalizedAnnotationIndex) (image : NormalizedImage) :
    ClassMembership :=
  (imageMembership source image).toOption.getD {}

variable {source : NormalizedAnnotationIndex} {image : NormalizedImage} {shards : Nat}

theorem imageMembership_spec (h : ValidImage source image) :
    imageMembership source image = .ok (membershipOf source image) ∧
      (∀ classId, classId ∈ (membershipOf source image).classes ↔
        ∃ box ∈ spanOf source image, box.classId = classId) ∧
      (membershipOf source image).maskRuns =
        ((spanOf source image).map fun box => box.maskRlePairs).sum := by
  have hspan := h.span
  have hsome := h.some
  obtain ⟨membership, hmembership, hmem, hruns⟩ := (@ClassMembership.addBoxes_spec _ {}) h.classes ((Nat.zero_add _).trans_lt h.runs)
  have hnothing : ({} : ClassMembership).classes = [] := ClassMembership.classes_eq_nil.mpr ⟨rfl, rfl⟩
  simp only [hnothing, List.not_mem_nil, false_or] at hmem
  have hbox : spanOf source image ≠ [] := List.ne_nil_of_length_pos (by
    rw [spanOf, List.length_take, List.length_drop]
    omega)
  have hnonempty : ¬ (membership.low = 0 ∧ membership.high = 0) := by
    rw [← ClassMembership.classes_eq_nil]
    obtain ⟨box, hbox⟩ := List.exists_mem_of_ne_nil _ hbox
    exact List.ne_nil_of_mem ((hmem box.classId).mpr ⟨box, hbox, rfl⟩)
  have hok : imageMembership source image = .ok membership := by
    rw [imageMembership, if_neg (by omega)]
    have hfold : ((source.boxes.drop image.firstBox).take image.boxCount).foldlM
        ClassMembership.addBox {} = .ok membership := hmembership
    rw [hfold]
    exact if_neg hnonempty
  have hof : membershipOf source image = membership := by
    rw [membershipOf, hok, Except.toOption, Option.getD_some]
  rw [hof]
  exact ⟨hok, hmem, hruns.trans (Nat.zero_add _)⟩

/-! The images by class and by shard. -/

/-- How many images have a class. -/
def classImagesOf (source : NormalizedAnnotationIndex) (images : List NormalizedImage)
    (classId : Nat) : Nat :=
  (images.map fun image => (membershipOf source image).classes.count classId).sum

def inShard (shard : Nat) (image : NormalizedImage) : Bool := image.sourceShard.toNat = shard

def summariesOf (source : NormalizedAnnotationIndex) (shards : Nat)
    (images : List NormalizedImage) : List ShardSummary :=
  (List.range shards).map fun shard =>
    ⟨images.countP (inShard shard), classImagesOf source (images.filter (inShard shard))⟩

def builtOf (source : NormalizedAnnotationIndex) (shards : Nat) (images : List NormalizedImage) :
    Memberships :=
  ⟨classImagesOf source images, images.map (membershipOf source), summariesOf source shards images⟩

theorem classImagesOf_concat {images : List NormalizedImage} :
    classImagesOf source (images ++ [image]) =
      bump (classImagesOf source images) (membershipOf source image).classes := by
  funext classId
  rw [classImagesOf, List.map_append, List.sum_append, List.map_singleton, List.sum_singleton]
  rfl

theorem summariesOf_concat {images : List NormalizedImage} :
    summariesOf source shards (images ++ [image]) =
      (summariesOf source shards images).modify image.sourceShard.toNat fun shard =>
        ⟨shard.images + 1, bump shard.classImages (membershipOf source image).classes⟩ := by
  refine List.ext_getElem ?_ fun shard hleft hright => ?_
  · rw [List.length_modify, summariesOf, summariesOf, List.length_map, List.length_map]
  · simp only [summariesOf, List.getElem_modify, List.getElem_map, List.getElem_range]
    rw [List.countP_append, List.filter_append, List.countP_singleton]
    cases hin : inShard shard image with
    | true =>
        rw [if_pos rfl, if_pos (of_decide_eq_true hin), List.filter_cons_of_pos hin, List.filter_nil,
          classImagesOf_concat]
    | false =>
        rw [if_neg Bool.false_ne_true, if_neg (of_decide_eq_false hin),
          List.filter_cons_of_neg (by rw [hin]; decide), List.filter_nil, List.append_nil,
          Nat.add_zero]

theorem includeImages_spec {before images : List NormalizedImage}
    (hvalid : ∀ image ∈ images, ValidImage source image)
    (hshards : shards ≠ 0 → ∀ image ∈ images, image.sourceShard.toNat < shards) :
    images.foldlM (includeImage source) (builtOf source shards before) =
      .ok (builtOf source shards (before ++ images)) := by
  induction images generalizing before with
  | nil =>
      rw [List.append_nil]
      rfl
  | cons image images ih =>
      obtain ⟨hhere, hlater⟩ := List.forall_mem_cons.mp hvalid
      have hlength : (builtOf source shards before).shards.length = shards := by
        rw [builtOf, summariesOf, List.length_map, List.length_range]
      have hknown : ¬ ((builtOf source shards before).shards ≠ [] ∧
          (builtOf source shards before).shards.length ≤ image.sourceShard.toNat) := by
        intro ⟨hsome, hle⟩
        have hpos := List.length_pos_iff.mpr hsome
        rw [hlength] at hle hpos
        exact Nat.not_lt_of_le hle (hshards hpos.ne' image List.mem_cons_self)
      have hstep : includeImage source (builtOf source shards before) image =
          .ok (builtOf source shards (before ++ [image])) := by
        rw [includeImage, if_neg hknown, (imageMembership_spec hhere).1]
        dsimp only [bind, Except.bind, pure, Except.pure]
        simp only [builtOf, classImagesOf_concat, summariesOf_concat, List.map_append,
          List.map_singleton]
      rw [List.foldlM_cons, hstep]
      change images.foldlM (includeImage source) (builtOf source shards (before ++ [image])) = _
      rw [ih hlater fun hsome other hother => hshards hsome other (List.mem_cons_of_mem _ hother),
        List.append_assoc, List.singleton_append]

theorem buildMemberships_spec (hvalid : ∀ image ∈ source.images, ValidImage source image)
    (hshards : shards ≠ 0 → ∀ image ∈ source.images, image.sourceShard.toNat < shards) :
    buildMemberships source shards = .ok (builtOf source shards source.images) := by
  have hstart : (⟨fun _ => 0, [], List.replicate shards {}⟩ : Memberships) =
      builtOf source shards [] := by
    simp only [builtOf, summariesOf, List.map_nil, List.filter_nil, List.countP_nil]
    rw [List.map_const', List.length_range]
    rfl
  rw [buildMemberships, hstart, includeImages_spec hvalid hshards, List.nil_append]

/-! The images of some shards. -/

def inShards (shards : List Nat) (image : NormalizedImage) : Bool :=
  shards.contains image.sourceShard.toNat

section

variable {images : List NormalizedImage} {chosen : List Nat} {value : NormalizedImage → Nat}

theorem sum_filter_or {first second : NormalizedImage → Bool}
    (hapart : ∀ image, first image = true → second image = false) :
    ((images.filter fun image => first image || second image).map value).sum =
      ((images.filter first).map value).sum + ((images.filter second).map value).sum := by
  induction images with
  | nil => rfl
  | cons image images ih =>
      rw [List.filter_cons, List.filter_cons, List.filter_cons]
      cases hfirst : first image with
      | true =>
          rw [hapart image hfirst, Bool.true_or, if_pos rfl, if_pos rfl, if_neg Bool.false_ne_true,
            List.map_cons, List.map_cons, List.sum_cons, List.sum_cons, ih, Nat.add_assoc]
      | false =>
          cases second image with
          | true =>
              rw [Bool.or_true, if_pos rfl, if_neg Bool.false_ne_true, if_pos rfl, List.map_cons,
                List.map_cons, List.sum_cons, List.sum_cons, ih, Nat.add_left_comm]
          | false => exact ih

theorem sum_by_shard (hnodup : chosen.Nodup) :
    ((images.filter (inShards chosen)).map value).sum =
      (chosen.map fun shard => ((images.filter (inShard shard)).map value).sum).sum := by
  induction chosen with
  | nil =>
      have hnone : images.filter (inShards []) = [] := List.filter_eq_nil_iff.mpr fun _ _ => nofun
      rw [hnone]
      rfl
  | cons shard chosen ih =>
      obtain ⟨hnot, hrest⟩ := List.nodup_cons.mp hnodup
      rw [List.map_cons, List.sum_cons, ← ih hrest, ← sum_filter_or]
      · refine congrArg _ (congrArg _ (List.filter_congr fun image _ => ?_))
        rw [inShards, inShards, List.contains_cons, inShard]
        rfl
      · intro image hin
        have hsame : image.sourceShard.toNat = shard := of_decide_eq_true hin
        rw [inShards, hsame]
        exact Bool.eq_false_iff.mpr fun hmem => hnot (List.contains_iff_mem.mp hmem)

theorem summaryAt_of {shard : Nat} (h : shard < shards) :
    summaryAt (summariesOf source shards images) shard =
      ⟨images.countP (inShard shard), classImagesOf source (images.filter (inShard shard))⟩ := by
  rw [summaryAt, summariesOf, List.getD_eq_getElem?_getD, List.getElem?_map,
    List.getElem?_range h]
  rfl

theorem summaryAt_none {shard : Nat} (h : shards ≤ shard) :
    summaryAt (summariesOf source shards images) shard = {} := by
  rw [summaryAt, List.getD_eq_getElem?_getD, List.getElem?_eq_none (by
    rwa [summariesOf, List.length_map, List.length_range])]
  rfl

theorem shardImages_of (hnodup : chosen.Nodup) (hinside : ∀ shard ∈ chosen, shard < shards) :
    shardImages (summariesOf source shards images) chosen =
      (images.filter (inShards chosen)).length := by
  have hsum := (@sum_by_shard images _ (fun _ => 1)) hnodup
  rw [List.map_const', List.sum_replicate] at hsum
  rw [shardImages, List.map_congr_left fun shard hshard => by
    rw [summaryAt_of (hinside shard hshard), List.countP_eq_length_filter]]
  simpa using hsum.symm

theorem shardClassImages_of (hnodup : chosen.Nodup) (hinside : ∀ shard ∈ chosen, shard < shards)
    (classId : Nat) : shardClassImages (summariesOf source shards images) chosen classId =
      classImagesOf source (images.filter (inShards chosen)) classId := by
  rw [shardClassImages, List.map_congr_left fun shard hshard => by
    rw [summaryAt_of (hinside shard hshard)], classImagesOf, sum_by_shard hnodup]
  rfl

theorem classImagesOf_le (images : List NormalizedImage) (classId : Nat) :
    classImagesOf source images classId ≤ images.length := by
  have hone : ∀ count ∈ images.map fun image => (membershipOf source image).classes.count classId,
      count ≤ 1 := by
    intro count hcount
    obtain ⟨image, -, rfl⟩ := List.mem_map.mp hcount
    exact List.nodup_iff_count_le_one.mp (ClassMembership.classes_nodup _) classId
  have hsum := List.sum_le_card_nsmul _ 1 hone
  rw [classImagesOf]
  simpa using hsum

theorem summed_of (images : List NormalizedImage) : Summed (summariesOf source shards images) := by
  constructor
  · intro shard classId
    rcases Nat.lt_or_ge shard shards with hless | hge
    · rw [summaryAt_of hless, List.countP_eq_length_filter]
      exact classImagesOf_le _ classId
    · rw [summaryAt_none hge]
  · intro shard himages
    rcases Nat.lt_or_ge shard shards with hless | hge
    · rw [summaryAt_of hless] at himages
      obtain ⟨image, -, hin⟩ := List.countP_pos_iff.mp (Nat.pos_of_ne_zero himages)
      rw [← of_decide_eq_true hin]
      exact image.sourceShard.toNat_lt
    · rw [summaryAt_none hge] at himages
      exact absurd rfl himages

theorem filter_range (h : ∀ image ∈ images, image.sourceShard.toNat < shards) :
    images.filter (inShards (List.range shards)) = images :=
  List.filter_eq_self.mpr fun image himage =>
    List.contains_iff_mem.mpr (List.mem_range.mpr (h image himage))

end

end Mmltk.Sampling
