import Mmltk.Compiled.AnnotationFiles

namespace Mmltk.Compiled

open Mmltk.Foundation ImageAnnotations

/-! What was written is read back, and each label has its own runs. -/

namespace ImageAnnotations

variable {F : Type} {annotations : ImageAnnotations} {base : UInt64}

/-- Every instance has as many joints as its class, or neither side has joints. -/
def AgreesWith (annotations : ImageAnnotations) (catalog : ClassCatalog F) : Prop :=
  (annotations.joints = [] ∧ catalog.hasKeypoints = false) ∨
    ∀ index label points, annotations.labels[index]? = some label →
      annotations.instanceJoints index = .ok points →
        ∃ names, catalog.keypoints label.classId.toNat = .ok names ∧ points.length = names.length

theorem instanceJoints_settled (index : Nat) :
    (annotations.settled base).instanceJoints index = annotations.instanceJoints index := by
  rw [instanceJoints, length_settled]
  rfl

/-- Neither the ordinals nor a schema that agrees changes what the joints of an image are. -/
theorem consumeJoints_settled {schema : Option (ClassCatalog F)}
    (hschema : ∀ catalog ∈ schema, ∀ index label points,
      annotations.labels[index]? = some label → annotations.instanceJoints index = .ok points →
        ∃ names, catalog.keypoints label.classId.toNat = .ok names ∧ points.length = names.length)
    {index consumed result : Nat} {labels : List PackedInstance}
    (hlabels : annotations.labels.drop index = labels)
    (h : annotations.consumeJoints (none : Option (ClassCatalog Unit)) index consumed labels =
      .ok result) :
    (annotations.settled base).consumeJoints schema index consumed
      (labels.map (PackedInstance.settled base)) = .ok result := by
  induction labels generalizing index consumed with
  | nil => exact h
  | cons label labels ih =>
      rw [consumeJoints] at h
      obtain ⟨points, hpoints, h⟩ := bind_eq_ok.mp h
      obtain ⟨hvalid, h⟩ := guard_eq_ok.mp h
      have hlabel : annotations.labels[index]? = some label := by
        rw [← List.head?_drop, hlabels, List.head?_cons]
      have hrest : annotations.labels.drop (index + 1) = labels := by
        rw [← List.tail_drop, hlabels, List.tail_cons]
      have hcheck : checkSchema schema (label.settled base) points = .ok () := by
        cases schema with
        | none => rfl
        | some catalog =>
            obtain ⟨names, hnames, hcount⟩ := hschema catalog rfl index label points hlabel hpoints
            rw [checkSchema]
            change (catalog.keypoints label.classId.toNat >>= _) = _
            rw [hnames]
            exact if_neg (not_not.mpr hcount)
      rw [List.map_cons, consumeJoints, instanceJoints_settled, hpoints]
      dsimp only [bind, Except.bind]
      rw [settled_jointSpans, if_neg hvalid, hcheck]
      exact ih hrest h

theorem consumeJoints_without_spans (hnone : annotations.jointSpans = []) {index : Nat}
    {labels : List PackedInstance} (hlabels : annotations.labels.drop index = labels) :
    annotations.consumeJoints (none : Option (ClassCatalog Unit)) index 0 labels = .ok 0 := by
  induction labels generalizing index with
  | nil => rfl
  | cons label labels ih =>
      have hinside : index < annotations.labels.length := by
        by_contra houtside
        rw [List.drop_of_length_le (Nat.not_lt.mp houtside)] at hlabels
        cases hlabels
      have hrest : annotations.labels.drop (index + 1) = labels := by
        rw [← List.tail_drop, hlabels, List.tail_cons]
      have hpoints : annotations.instanceJoints index = .ok [] := by
        rw [instanceJoints, if_neg (Nat.not_le.mpr hinside), if_pos hnone]
      rw [consumeJoints, hpoints]
      dsimp only [bind, Except.bind]
      rw [hnone, if_neg (by simp)]
      exact ih hrest

theorem validateJoints_settled {schema : Option (ClassCatalog F)}
    (hschema : ∀ catalog ∈ schema, annotations.AgreesWith catalog)
    (h : annotations.validateJoints (none : Option (ClassCatalog Unit)) = .ok ()) :
    (annotations.settled base).validateJoints schema = .ok () := by
  have hspans := spanned_of_valid h
  rw [validateJoints, settled_joints, settled_jointSpans]
  split
  next => rfl
  next hchecked =>
    -- The schema is looked at, so each instance has the joints of its class.
    have hagrees : ∀ catalog ∈ schema, ∀ index label points,
        annotations.labels[index]? = some label → annotations.instanceJoints index = .ok points →
          ∃ names, catalog.keypoints label.classId.toNat = .ok names ∧
            points.length = names.length := by
      intro catalog hcatalog
      refine (hschema catalog hcatalog).resolve_left fun hnone => hchecked ?_
      refine ⟨hnone.1, hspans.none hnone.1, ?_⟩
      rw [Option.mem_def.mp hcatalog, Option.any_some, hnone.2]
      exact Bool.false_ne_true
    have hall : annotations.labels.drop 0 = annotations.labels := List.drop_zero
    rw [validateJoints] at h
    split at h
    next hempty =>
      have hconsumed : (annotations.settled base).consumeJoints schema 0 0
          (annotations.labels.map (PackedInstance.settled base)) = .ok 0 :=
        consumeJoints_settled hagrees hall (consumeJoints_without_spans hempty.2.1 hall)
      rw [hempty.1, hempty.2.1, if_neg (by simp)]
      change ((annotations.settled base).consumeJoints schema 0 0
        (annotations.labels.map (PackedInstance.settled base)) >>= _) = _
      rw [hconsumed]
      rfl
    next =>
      obtain ⟨hcounts, h⟩ := guard_eq_ok.mp h
      obtain ⟨consumed, hconsumed, h⟩ := bind_eq_ok.mp h
      rw [length_settled, if_neg hcounts]
      change ((annotations.settled base).consumeJoints schema 0 0
        (annotations.labels.map (PackedInstance.settled base)) >>= _) = _
      rw [consumeJoints_settled hagrees hall hconsumed]
      exact h

theorem drop_runOffset : annotations.bytes.drop annotations.layout.runOffset =
    annotations.runBytes ++ annotations.jointBytes := by
  rw [bytes, ← List.append_assoc]
  exact List.drop_left' (List.length_append.trans length_padded)

theorem drop_runEnd : annotations.bytes.drop annotations.runEnd = annotations.jointBytes := by
  rw [runEnd, ← List.drop_drop, drop_runOffset]
  exact List.drop_left' length_runBytes

/-- Behind the runs there is a header, and behind it the spans and the joints. -/
theorem jointView_bytes {entry : ImageIndexEntry} (hspans : annotations.Spanned)
    (hlabels : annotations.labels.length = entry.numInstances)
    (hruns : annotations.runs.length = entry.numRuns)
    (hused : entry.labelBytes = annotations.layout.usedBytes)
    (hlimit : entry.labelBytes ≤ compiledLabelLimit) :
    jointView entry annotations.bytes (layoutOf entry.numInstances entry.numRuns 0)
      ⟨annotations.labels, annotations.runs, [], []⟩ = .ok annotations := by
  have hplain : (layoutOf entry.numInstances entry.numRuns 0).usedBytes = annotations.runEnd := by
    rw [runEnd, runOffset_eq, hlabels, hruns]
    rfl
  rw [jointView, hplain]
  rcases eq_or_ne annotations.joints [] with hnone | hsome
  · rw [if_pos (by rw [hused, layout_without_joints hnone])]
    exact congrArg Except.ok (by rw [← hspans.none hnone, ← hnone])
  · obtain ⟨hspanOffset, hjointOffset, hend⟩ := layout_with_joints hsome
    have hle := le_alignUp_rlePair (annotations.layout.jointOffset +
      annotations.joints.length * packedKeypointBytes)
    have hpositive : 0 < annotations.joints.length := List.length_pos_iff.mpr hsome
    have hheaderBytes : (PackedJointHeader.packing.encode annotations.jointHeader).length =
        packedJointHeaderBytes := Packing.length_encode _ _
    have hspanBytes : (PackedJointSpan.packing.encodeAll annotations.jointSpans).length =
        annotations.labels.length * packedJointSpanBytes := by
      rw [Packing.length_encodeAll, hspans.each hsome]
      rfl
    have hbehind : annotations.bytes.drop annotations.runEnd =
        PackedJointHeader.packing.encode annotations.jointHeader ++
          (PackedJointSpan.packing.encodeAll annotations.jointSpans ++
            (PackedKeypoint.packing.encodeAll annotations.joints ++
              zeros (annotations.layout.usedBytes - (annotations.layout.jointOffset +
                (PackedKeypoint.packing.encodeAll annotations.joints).length)))) := by
      rw [drop_runEnd, jointBytes, if_neg hsome]
    have hcountLt : annotations.joints.length < 2 ^ 32 := by
      have hcount : annotations.joints.length ≤ annotations.joints.length * packedKeypointBytes :=
        Nat.le_mul_of_pos_right _ (by decide)
      rw [compiledLabelLimit] at hlimit
      omega
    have hcount : annotations.jointHeader.count.toNat = annotations.joints.length :=
      UInt32.toNat_ofNat_of_lt' hcountLt
    have hheader : PackedJointHeader.packing.decode
        ((annotations.bytes.drop annotations.runEnd).take packedJointHeaderBytes) =
          annotations.jointHeader := by
      rw [hbehind]
      exact Packing.decode_take _ _ _
    have hjoined : annotationLayout entry.numInstances entry.numRuns compiledLabelLimit
        annotations.joints.length = .ok annotations.layout := by
      rw [← hlabels, ← hruns]
      exact annotationLayout_of_le (Nat.le_refl _) (by decide) (hused ▸ hlimit)
    have hspanDrop : annotations.bytes.drop annotations.layout.jointSpanOffset =
        PackedJointSpan.packing.encodeAll annotations.jointSpans ++
          (PackedKeypoint.packing.encodeAll annotations.joints ++
            zeros (annotations.layout.usedBytes - (annotations.layout.jointOffset +
              (PackedKeypoint.packing.encodeAll annotations.joints).length))) := by
      rw [hspanOffset, ← List.drop_drop, hbehind]
      exact List.drop_left' hheaderBytes
    have hvalid : ¬ (annotations.jointHeader.version ≠ 1 ∨ annotations.jointHeader.count = 0) := by
      refine not_or.mpr ⟨not_not.mpr rfl, fun hzero => ?_⟩
      rw [hzero] at hcount
      exact hpositive.ne hcount
    have htaken : 0 < annotations.joints.length * packedKeypointBytes :=
      Nat.mul_pos hpositive (by decide)
    rw [if_neg (by omega), if_neg (by omega)]
    dsimp only
    rw [hheader, if_neg hvalid, hcount, hjoined]
    dsimp only [bind, Except.bind]
    rw [if_neg (not_not.mpr hused), hspanDrop, hjointOffset, ← List.drop_drop, hspanDrop,
      List.drop_left' hspanBytes, ← hlabels, ← hspans.each hsome, Packing.decodeAll_encodeAll,
      Packing.decodeAll_encodeAll]

/-- The block of an entry is viewed as what it was made of. -/
theorem annotationView_bytes {entry : ImageIndexEntry} {schema : Option (ClassCatalog F)}
    (hlabels : annotations.labels.length = entry.numInstances)
    (hruns : annotations.runs.length = entry.numRuns)
    (hused : entry.labelBytes = annotations.layout.usedBytes)
    (hlimit : entry.labelBytes ≤ compiledLabelLimit)
    (hvalid : annotations.validateJoints schema = .ok ()) :
    annotationView entry annotations.bytes schema = .ok annotations := by
  have hspans := spanned_of_valid hvalid
  have hlength := length_bytes hspans
  have hjoints := length_jointBytes hspans
  have hplain : (layoutOf entry.numInstances entry.numRuns 0).usedBytes = annotations.runEnd := by
    rw [runEnd, runOffset_eq, hlabels, hruns]
    rfl
  have hrunOffset : (layoutOf entry.numInstances entry.numRuns 0).runOffset =
      annotations.layout.runOffset := by
    rw [runOffset_eq, hlabels]
    rfl
  have hlayout : annotationLayout entry.numInstances entry.numRuns compiledLabelLimit 0 =
      .ok (layoutOf entry.numInstances entry.numRuns 0) :=
    annotationLayout_of_le (Nat.le_refl _) (by decide) (by omega)
  rw [annotationView, hlayout]
  dsimp only [bind, Except.bind]
  rw [if_neg (by omega)]
  split
  next hzero =>
    have hpadded := le_alignUp_rlePair (annotations.labels.length * packedInstanceBytes)
    rw [runEnd, runOffset_eq] at hjoints
    have hlabelsNil : annotations.labels = [] := by
      rcases Nat.mul_eq_zero.mp (show annotations.labels.length * packedInstanceBytes = 0 by omega)
        with hnone | hsize
      · exact List.length_eq_zero_iff.mp hnone
      · exact absurd hsize (by decide)
    have hrunsNil : annotations.runs = [] := by
      rcases Nat.mul_eq_zero.mp (show annotations.runs.length * rlePairBytes = 0 by omega)
        with hnone | hsize
      · exact List.length_eq_zero_iff.mp hnone
      · exact absurd hsize (by decide)
    have hjointsNil : annotations.joints = [] := by
      by_contra hsome
      obtain ⟨hspanOffset, hjointOffset, hend⟩ := layout_with_joints hsome
      have hle := le_alignUp_rlePair (annotations.layout.jointOffset +
        annotations.joints.length * packedKeypointBytes)
      rw [packedJointHeaderBytes] at hspanOffset
      omega
    exact congrArg Except.ok (by
      rw [← hlabelsNil, ← hrunsNil, ← hspans.none hjointsNil]
      rw [← hjointsNil])
  next =>
    have hreadLabels : PackedInstance.packing.decodeAll entry.numInstances annotations.bytes =
        annotations.labels := by
      rw [← hlabels]
      exact Packing.decodeAll_encodeAll _ _ _
    have hreadRuns : RLEPair.packing.decodeAll entry.numRuns
        (annotations.bytes.drop annotations.layout.runOffset) = annotations.runs := by
      rw [drop_runOffset, ← hruns]
      exact Packing.decodeAll_encodeAll _ _ _
    rw [hrunOffset, hreadLabels, hreadRuns, jointView_bytes hspans hlabels hruns hused hlimit]
    dsimp only
    rw [hvalid]
    rfl

end ImageAnnotations

/-! What the checks say about the runs of a label. -/

namespace CompiledRecordChecks

theorem label_ok {label : PackedInstance} {classes rleBytes expected position stop : Nat}
    {source : AnnotationSource}
    (h : CompiledRecordChecks.label label classes rleBytes expected source position = .ok stop) :
    label.maskRleOffset.toNat = expected ∧
      stop = expected + label.maskRlePairs.toNat * rlePairBytes ∧ stop ≤ rleBytes := by
  rw [CompiledRecordChecks.label] at h
  obtain ⟨-, h⟩ := guard_eq_ok.mp h
  obtain ⟨-, h⟩ := guard_eq_ok.mp h
  obtain ⟨-, h⟩ := guard_eq_ok.mp h
  obtain ⟨-, h⟩ := guard_eq_ok.mp h
  obtain ⟨-, h⟩ := guard_eq_ok.mp h
  obtain ⟨hoffset, h⟩ := guard_eq_ok.mp h
  obtain ⟨hroom, h⟩ := guard_eq_ok.mp h
  obtain rfl := Except.ok.inj h
  rw [not_or, not_not] at hoffset
  exact ⟨hoffset.1, rfl, by omega⟩

end CompiledRecordChecks

/-- The runs of a label, as many as it says. -/
def OwnRuns (annotations : ImageAnnotations) (label : PackedInstance) (runs : List RLEPair) : Prop :=
  annotations.instanceRle label = .ok runs ∧ runs.length = label.maskRlePairs.toNat

theorem ownRuns_at {annotations : ImageAnnotations} {label : PackedInstance} {first : Nat}
    (hoffset : label.maskRleOffset.toNat = first * rlePairBytes)
    (hroom : first + label.maskRlePairs.toNat ≤ annotations.runs.length) :
    OwnRuns annotations label ((annotations.runs.drop first).take label.maskRlePairs.toNat) := by
  have hbegin : label.maskRleOffset.toNat / rlePairBytes = first := by
    rw [hoffset, Nat.mul_div_cancel _ (by decide)]
  have haligned : label.maskRleOffset.toNat % rlePairBytes = 0 := by
    rw [hoffset, Nat.mul_mod_left]
  refine ⟨?_, ?_⟩
  · rw [ImageAnnotations.instanceRle, if_neg (not_not.mpr haligned)]
    dsimp only
    rw [hbegin, if_neg (by omega)]
  · rw [List.length_take, List.length_drop]
    omega

/-- The labels of an admitted image take its runs one after the other. -/
theorem ownRuns_of_labels {annotations : ImageAnnotations} {classes pixels : Nat}
    {source : AnnotationSource} {position first total : Nat} {masks some : Bool}
    {labels : List PackedInstance} (hfirst : first ≤ annotations.runs.length)
    (h : CompiledRecordChecks.labels annotations classes pixels source position
      (first * rlePairBytes) masks labels = .ok (total, some)) :
    ∃ last own, total = last * rlePairBytes ∧ first ≤ last ∧
      List.Forall₂ (OwnRuns annotations) labels own ∧
        own.flatten = (annotations.runs.drop first).take (last - first) := by
  induction labels generalizing position first masks with
  | nil =>
      obtain ⟨rfl, -⟩ := Prod.mk.inj (Except.ok.inj h)
      exact ⟨first, [], rfl, Nat.le_refl _, .nil, by rw [Nat.sub_self]; rfl⟩
  | cons label labels ih =>
      rw [CompiledRecordChecks.labels] at h
      obtain ⟨stop, hstop, h⟩ := bind_eq_ok.mp h
      obtain ⟨-, -, h⟩ := bind_eq_ok.mp h
      obtain ⟨hoffset, rfl, hroom⟩ := CompiledRecordChecks.label_ok hstop
      rw [← Nat.add_mul] at h hroom
      have hroom : first + label.maskRlePairs.toNat ≤ annotations.runs.length :=
        Nat.le_of_mul_le_mul_right hroom (by decide)
      obtain ⟨last, own, htotal, hle, hown, hflatten⟩ := ih hroom h
      refine ⟨last, _, htotal, by omega, .cons (ownRuns_at hoffset hroom) hown, ?_⟩
      rw [List.flatten_cons, hflatten, ← List.drop_drop, ← List.take_add]
      congr 1
      omega

theorem admitCompiledAnnotations_ok {entry : ImageIndexEntry} {annotations : ImageAnnotations}
    {header : FileHeader} {position : Nat} {masks : Bool}
    (h : admitCompiledAnnotations entry annotations header position = .ok masks) :
    annotations.labels.length = entry.numInstances ∧ annotations.runs.length = entry.numRuns ∧
      entry.labelBytes = annotations.layout.usedBytes ∧
      annotations.validateJoints (none : Option (ClassCatalog Unit)) = .ok () ∧
      ∃ own, List.Forall₂ (OwnRuns annotations) annotations.labels own ∧
        own.flatten = annotations.runs := by
  rw [admitCompiledAnnotations] at h
  obtain ⟨-, -, h⟩ := bind_eq_ok.mp h
  obtain ⟨hcounts, h⟩ := guard_eq_ok.mp h
  obtain ⟨pixels, -, h⟩ := bind_eq_ok.mp h
  obtain ⟨extent, hextent, h⟩ := bind_eq_ok.mp h
  obtain ⟨hused, h⟩ := guard_eq_ok.mp h
  obtain ⟨_, hjoints, h⟩ := bind_eq_ok.mp h
  obtain ⟨⟨consumed, found⟩, hlabels, h⟩ := bind_eq_ok.mp h
  obtain ⟨hconsumed, -⟩ := guard_eq_ok.mp h
  rw [not_or, not_not, not_not] at hcounts
  rw [not_not] at hused hconsumed
  obtain ⟨hextent, -, -⟩ := annotationLayout_ok hextent
  obtain ⟨last, own, hlast, -, hown, hflatten⟩ :=
    ownRuns_of_labels (Nat.zero_le _) ((Nat.zero_mul rlePairBytes).symm ▸ hlabels)
  have hall : last = annotations.runs.length :=
    Nat.eq_of_mul_eq_mul_right (by decide) (hlast.symm.trans hconsumed)
  refine ⟨hcounts.1, hcounts.2, ?_, hjoints, own, hown, ?_⟩
  · rw [hused, hextent, ImageAnnotations.layout, hcounts.1, hcounts.2]
  · rw [hflatten, hall, List.drop_zero, Nat.sub_zero, List.take_length]

theorem OwnRuns.settled {annotations : ImageAnnotations} {base : UInt64} {labels : List PackedInstance}
    {own : List (List RLEPair)} (h : List.Forall₂ (OwnRuns annotations) labels own) :
    List.Forall₂ (OwnRuns (annotations.settled base)) (labels.map (PackedInstance.settled base))
      own := by
  rw [List.forall₂_map_left_iff]
  exact h

/-- Admitted annotations are read back from their slot as they were, with the base added to their
ordinals; each label has its own runs, and no byte outside the slot's extent is touched. -/
theorem writeCompiledAnnotations_view {F : Type} {slots stride labelCapacity catalogBytes slot
    position : Nat} {layout : FileLayout} {header : FileHeader} {entry : ImageIndexEntry}
    {annotations : ImageAnnotations} {masks : Bool} {base : UInt64}
    {schema : Option (ClassCatalog F)} (file : ByteContent)
    (hlayout : computeFileLayout slots stride labelCapacity catalogBytes = .ok layout)
    (hadmitted : admitCompiledAnnotations entry annotations header position = .ok masks)
    (hslot : slot < slots) (hfits : entry.labelBytes ≤ labelCapacity)
    (hbase : ∀ label ∈ annotations.labels, label.sourceOrdinal.toNat + base.toNat < 2 ^ 64)
    (hschema : ∀ catalog ∈ schema, annotations.AgreesWith catalog) :
    ∃ offset written own, layout.labelOffset slot = .ok offset ∧
      writeCompiledAnnotations file layout slot entry annotations base = .ok written ∧
      annotationView entry (written.read offset entry.labelBytes) schema =
        .ok (annotations.settled base) ∧
      List.Forall₂ (OwnRuns (annotations.settled base)) (annotations.settled base).labels own ∧
      own.flatten = annotations.runs ∧
      (∀ address < written.size, address < offset ∨ offset + entry.labelBytes ≤ address →
        written.byte address = if address < file.size then file.byte address else 0) ∧
      written.size =
        if entry.labelBytes = 0 then file.size else max file.size (offset + entry.labelBytes) := by
  obtain ⟨hlabels, hruns, hused, hjoints, own, hown, hflatten⟩ := admitCompiledAnnotations_ok hadmitted
  have hcomputed := computeFileLayout_ok hlayout
  have hmultiple : labelCapacity % rlePairBytes = 0 := by
    rw [computeFileLayout] at hlayout
    obtain ⟨-, hrest⟩ := guard_eq_ok.mp hlayout
    obtain ⟨hcapacity, -⟩ := guard_eq_ok.mp hrest
    exact by_contra fun hne => hcapacity (.inr hne)
  have hinside : slot < layout.numSlots := hcomputed.numSlots_eq.symm ▸ hslot
  have hafter := hcomputed.after_le_totalSize (show layout.Has (.labels slot) from hinside)
  have htotal := hcomputed.totalSize_lt
  have hcapacity := hcomputed.capacity_eq
  have hspans := spanned_of_valid hjoints
  rw [FileLayout.rangeOf] at hafter
  dsimp only at hafter
  have hwritable : Writable layout slot
      (layout.labelAt (slot / compiledBlockSlots) (slot % compiledBlockSlots)) entry annotations :=
    ⟨hlabels, hruns, hused, hcapacity ▸ hfits, hcapacity ▸ hcomputed.capacity_le,
      hcapacity ▸ hmultiple, hjoints, hcomputed.labelOffset_eq hinside, by omega⟩
  have hlength : (annotations.settled base).bytes.length = entry.labelBytes := by
    rw [length_bytes hspans.settled, layout_settled, hused]
  have hlimit : entry.labelBytes ≤ compiledLabelLimit := hfits.trans hcomputed.capacity_le
  refine ⟨_, _, own, hwritable.offset_eq, writeCompiledAnnotations_eq file hwritable hbase, ?_,
    OwnRuns.settled hown, hflatten, fun address haddress houtside => ?_, ?_⟩
  · rw [← hlength, ByteContent.read_put]
    refine annotationView_bytes (length_settled.trans hlabels) hruns ?_ hlimit
      (validateJoints_settled hschema hjoints)
    rw [layout_settled, hused]
  · rw [← hlength] at houtside
    exact ByteContent.put_outside file houtside haddress
  · rw [ByteContent.put_size, hlength]
    refine if_congr ?_ rfl rfl
    rw [← hlength, List.length_eq_zero_iff]

/-- A label of one run and one joint, and one of two runs and no joint. -/
def twoLabels : ImageAnnotations where
  labels :=
    [⟨0, 1, 0, 0, 0x3f800000, 0x3f800000, 0, 1, 0x3ff0000000000000, 0, 0, 5⟩,
      ⟨1, 1, 0, 0, 0x3f800000, 0x3f800000, 8, 2, 0x3ff0000000000000, 0, 0, 6⟩]
  runs := [⟨0, 1⟩, ⟨0, 1⟩, ⟨3, 1⟩]
  jointSpans := [⟨0, 1, 0⟩, ⟨1, 0, 0⟩]
  joints := [⟨0x3f000000, 0x3f000000, 2, 0, 0, 0⟩]

def twoLabelEntry : ImageIndexEntry where
  numInstances := 2
  status := .eligible
  labelBytes := 184
  numRuns := 3
  hasSourceImageId := 0
  originalWidth := 2
  originalHeight := 2
  source := .generic
  reserved := (0, 0, 0)
  sourceImageId := 0

/-- The first class has a joint and the second has none. -/
def noseCatalog : ClassCatalog Unit where
  names := ["person", "ball"]
  keypointSchemas := [⟨["nose"], [], [0], [()]⟩, ⟨[], [], [], []⟩]

theorem twoLabels_agreesWith : twoLabels.AgreesWith noseCatalog := by
  refine .inr fun index label points hlabel hpoints => ?_
  match index with
  | 0 =>
      obtain rfl := Option.some.inj hlabel
      obtain rfl := Except.ok.inj hpoints
      exact ⟨["nose"], rfl, rfl⟩
  | 1 =>
      obtain rfl := Option.some.inj hlabel
      obtain rfl := Except.ok.inj hpoints
      exact ⟨[], rfl, rfl⟩

/-- Two labels, whose ordinals are moved by nine. -/
theorem writeCompiledAnnotations_view_twoLabels : ∃ layout offset written,
    computeFileLayout 1 12 184 0 = .ok layout ∧ layout.labelOffset 0 = .ok offset ∧
      writeCompiledAnnotations .empty layout 0 twoLabelEntry twoLabels 9 = .ok written ∧
      annotationView twoLabelEntry (written.read offset 184) (some noseCatalog) =
        .ok (twoLabels.settled 9) := by
  have hlayout : computeFileLayout 1 12 184 0 =
      .ok ⟨1, 12, 4096, 184, 4096, 262144, 2097152, 0, 2097152, 32, 4194304, 4194336⟩ := by decide
  have hadmitted : admitCompiledAnnotations twoLabelEntry twoLabels ⟨2, 2, 2, 4, 0⟩ 0 = .ok true := by
    decide
  have hbase : ∀ label ∈ twoLabels.labels,
      label.sourceOrdinal.toNat + (9 : UInt64).toNat < 2 ^ 64 := by decide
  have hschema : ∀ catalog ∈ some noseCatalog, twoLabels.AgreesWith catalog :=
    fun catalog hcatalog => Option.some.inj hcatalog ▸ twoLabels_agreesWith
  obtain ⟨offset, written, own, hoffset, hwritten, hview, -⟩ :=
    writeCompiledAnnotations_view .empty hlayout hadmitted Nat.zero_lt_one (Nat.le_refl _) hbase
      hschema
  exact ⟨_, offset, written, hlayout, hoffset, hwritten, hview⟩

end Mmltk.Compiled
