import Mmltk.Compiled.Annotations
import Mmltk.Compiled.Extents

namespace Mmltk.Compiled

open Mmltk.Foundation

/-! What is written of the annotations of an image, as one block of bytes. -/

/-- The layout as plain numbers. -/
def layoutOf (labels runs joints : Nat) : AnnotationLayout :=
  let runOffset := alignUp (labels * packedInstanceBytes) rlePairBytes
  let bytes := runOffset + runs * rlePairBytes
  if joints = 0 then ⟨runOffset, 0, 0, bytes⟩
  else
    let jointSpanOffset := bytes + packedJointHeaderBytes
    let jointOffset := jointSpanOffset + labels * packedJointSpanBytes
    ⟨runOffset, jointSpanOffset, jointOffset,
      alignUp (jointOffset + joints * packedKeypointBytes) rlePairBytes⟩

section

variable {labels runs joints capacity : Nat} {layout : AnnotationLayout}

theorem annotationLayout_ok (h : annotationLayout labels runs capacity joints = .ok layout) :
    layout = layoutOf labels runs joints ∧ layout.usedBytes ≤ capacity ∧
      capacity ≤ compiledLabelLimit := by
  rw [annotationLayout] at h
  obtain ⟨hcapacity, h⟩ := guard_eq_ok.mp h
  obtain ⟨labelBytes, hlabels, h⟩ := bind_eq_ok.mp h
  obtain ⟨runOffset, hrunOffset, h⟩ := bind_eq_ok.mp h
  obtain ⟨runBytes, hruns, h⟩ := bind_eq_ok.mp h
  obtain ⟨bytes, hbytes, h⟩ := bind_eq_ok.mp h
  obtain rfl := checkedMultiply_ok hlabels
  obtain rfl := checkedMultiply_ok hruns
  obtain rfl := compiledAlignUp_ok hrunOffset
  obtain rfl := checkedAdd_ok hbytes
  have hlimit : capacity ≤ compiledLabelLimit := Nat.not_lt.mp fun hless => hcapacity (.inl hless)
  rw [layoutOf]
  dsimp only at h ⊢
  split at h
  next hjoints =>
    obtain ⟨hroom, h⟩ := guard_eq_ok.mp h
    obtain rfl := Except.ok.inj h
    rw [if_pos hjoints]
    exact ⟨rfl, Nat.not_lt.mp hroom, hlimit⟩
  next hjoints =>
    obtain ⟨jointSpanOffset, hspanOffset, h⟩ := bind_eq_ok.mp h
    obtain ⟨spanBytes, hspanBytes, h⟩ := bind_eq_ok.mp h
    obtain ⟨jointOffset, hjointOffset, h⟩ := bind_eq_ok.mp h
    obtain ⟨jointBytes, hjointBytes, h⟩ := bind_eq_ok.mp h
    obtain ⟨jointEnd, hjointEnd, h⟩ := bind_eq_ok.mp h
    obtain ⟨usedBytes, hused, h⟩ := bind_eq_ok.mp h
    obtain rfl := checkedAdd_ok hspanOffset
    obtain rfl := checkedMultiply_ok hspanBytes
    obtain rfl := checkedAdd_ok hjointOffset
    obtain rfl := checkedMultiply_ok hjointBytes
    obtain rfl := checkedAdd_ok hjointEnd
    obtain rfl := compiledAlignUp_ok hused
    obtain ⟨hroom, h⟩ := guard_eq_ok.mp h
    obtain rfl := Except.ok.inj h
    rw [if_neg hjoints]
    exact ⟨rfl, Nat.not_lt.mp hroom, hlimit⟩

theorem compiledAlignUp_rlePair {value : Nat} (h : value < 2 ^ 63) :
    compiledAlignUp value rlePairBytes = .ok (alignUp value rlePairBytes) := by
  rw [compiledAlignUp, if_neg (by decide), checkedAdd_of_lt]
  · rfl
  · rw [rlePairBytes]
    omega

theorem le_alignUp_rlePair (value : Nat) : value ≤ alignUp value rlePairBytes := by
  simp only [alignUp, rlePairBytes]
  omega

theorem annotationLayout_of_le (hlimit : capacity ≤ compiledLabelLimit)
    (hcapacity : capacity % rlePairBytes = 0)
    (hfits : (layoutOf labels runs joints).usedBytes ≤ capacity) :
    annotationLayout labels runs capacity joints = .ok (layoutOf labels runs joints) := by
  have hlabels := le_alignUp_rlePair (labels * packedInstanceBytes)
  have hcount : labels * packedJointSpanBytes ≤ labels * packedInstanceBytes :=
    Nat.mul_le_mul_left _ (by decide)
  rw [annotationLayout, if_neg (by omega)]
  rw [layoutOf] at hfits ⊢
  dsimp only at hfits ⊢
  rw [compiledLabelLimit] at hlimit
  split at hfits
  next hjoints =>
    dsimp only at hfits
    rw [checkedMultiply_of_lt (by omega)]
    dsimp only [Except.bind, bind]
    rw [compiledAlignUp_rlePair (by omega)]
    dsimp only
    rw [checkedMultiply_of_lt (by omega)]
    dsimp only
    rw [checkedAdd_of_lt (by omega)]
    dsimp only
    rw [if_pos hjoints, if_pos hjoints, if_neg (by omega)]
  next hjoints =>
    dsimp only at hfits
    have hused := le_alignUp_rlePair (alignUp (labels * packedInstanceBytes) rlePairBytes +
      runs * rlePairBytes + packedJointHeaderBytes + labels * packedJointSpanBytes +
        joints * packedKeypointBytes)
    rw [checkedMultiply_of_lt (by omega)]
    dsimp only [Except.bind, bind]
    rw [compiledAlignUp_rlePair (by omega)]
    dsimp only
    rw [checkedMultiply_of_lt (by omega)]
    dsimp only
    rw [checkedAdd_of_lt (by omega)]
    dsimp only
    rw [if_neg hjoints, if_neg hjoints, checkedAdd_of_lt (by omega)]
    dsimp only
    rw [checkedMultiply_of_lt (by omega)]
    dsimp only
    rw [checkedAdd_of_lt (by omega)]
    dsimp only
    rw [checkedMultiply_of_lt (by omega)]
    dsimp only
    rw [checkedAdd_of_lt (by omega)]
    dsimp only
    rw [compiledAlignUp_rlePair (by omega)]
    dsimp only
    rw [if_neg (by omega)]

end

/-! Writes. -/

theorem checkedTotal (spans : List (List UInt8)) (total : Nat)
    (h : total + spans.flatten.length < 2 ^ 64) :
    spans.foldlM (fun total span => checkedAdd total span.length "pwritev extent overflow") total =
      .ok (total + spans.flatten.length) := by
  induction spans generalizing total with
  | nil => rfl
  | cons span spans ih =>
      rw [List.flatten_cons, List.length_append] at h ⊢
      rw [List.foldlM_cons, checkedAdd_of_lt (by omega)]
      exact (ih _ (by omega)).trans (congrArg Except.ok (Nat.add_assoc _ _ _))

/-- Below the largest offset of a file, the spans are put there. -/
theorem pwritevAll_eq (file : ByteContent) {spans : List (List UInt8)} {offset : Nat}
    (h : offset + spans.flatten.length < 2 ^ 63) :
    pwritevAll file spans offset = .ok (file.put offset spans.flatten) := by
  rw [pwritevAll, checkedTotal _ _ (by omega)]
  dsimp only [bind, Except.bind]
  rw [Nat.zero_add, checkedAdd_of_lt (by omega)]
  dsimp only
  rw [checkedCast, if_neg (by omega)]
  dsimp only
  split
  next hlength => rw [List.length_eq_zero_iff.mp hlength, ByteContent.put_nil]
  next hlength => rw [ByteContent.put, if_neg (mt List.length_eq_zero_iff.mpr hlength)]

/-- The label with its ordinal in the whole source. -/
def PackedInstance.settled (base : UInt64) (label : PackedInstance) : PackedInstance :=
  { label with sourceOrdinal := label.sourceOrdinal + base }

variable {base : UInt64}

theorem settleOrdinal_eq {label : PackedInstance}
    (h : label.sourceOrdinal.toNat + base.toNat < 2 ^ 64) :
    settleOrdinal base false label = .ok (label.settled base) := by
  have hsum : UInt64.ofNat (label.sourceOrdinal.toNat + base.toNat) =
      label.sourceOrdinal + base := by
    rw [UInt64.ofNat_add, UInt64.ofNat_toNat, UInt64.ofNat_toNat]
  rw [settleOrdinal, checkedAdd_of_lt h]
  exact congrArg (fun ordinal => Except.ok { label with sourceOrdinal := ordinal }) hsum

theorem settleOrdinals_eq {records : List PackedInstance}
    (h : ∀ label ∈ records, label.sourceOrdinal.toNat + base.toNat < 2 ^ 64) :
    records.mapM (settleOrdinal base false) = .ok (records.map (PackedInstance.settled base)) := by
  induction records with
  | nil => rfl
  | cons label records ih =>
      rw [List.mapM_cons, settleOrdinal_eq (h label List.mem_cons_self),
        ih fun other hother => h other (List.mem_cons_of_mem _ hother)]
      rfl

theorem packing_size : PackedInstance.packing.size = packedInstanceBytes := rfl

/-- Chunk by chunk, every label behind `first` is written with its ordinal moved. -/
theorem writeLabelOrdinalsFrom_eq {source : List PackedInstance} {offset : Nat}
    (hbase : ∀ label ∈ source, label.sourceOrdinal.toNat + base.toNat < 2 ^ 64)
    (hoffset : offset + source.length * packedInstanceBytes < 2 ^ 63)
    (first : Nat) (file : ByteContent) :
    writeLabelOrdinalsFrom offset source.length source base false first file =
      .ok (file.put (offset + first * packedInstanceBytes)
        (PackedInstance.packing.encodeAll ((source.drop first).map (PackedInstance.settled base)))) := by
  induction hmeasure : source.length - first using Nat.strong_induction_on generalizing first file with
  | _ remaining ih =>
      rw [writeLabelOrdinalsFrom]
      split
      next hless =>
        have hsome : source ≠ [] := List.ne_nil_of_length_pos (by omega)
        set size := min ordinalRecords (source.length - first) with hsize
        have hpos : 0 < size := by
          rw [hsize, ordinalRecords]
          omega
        have hwithin : (first + size) * packedInstanceBytes ≤ source.length * packedInstanceBytes :=
          Nat.mul_le_mul_right _ (by omega)
        rw [Nat.add_mul] at hwithin
        have hchunk : ((source.drop first).take size).length = size := by
          rw [List.length_take, List.length_drop]
          omega
        have hmem : ∀ label ∈ (source.drop first).take size,
            label.sourceOrdinal.toNat + base.toNat < 2 ^ 64 := fun label hlabel =>
          hbase label (List.mem_of_mem_drop (List.mem_of_mem_take hlabel))
        rw [checkedMultiply_of_lt (by omega)]
        dsimp only [bind, Except.bind]
        rw [checkedAdd_of_lt (by omega)]
        dsimp only
        rw [ordinalSource, if_neg hsome]
        dsimp only
        rw [settleOrdinals_eq hmem]
        dsimp only
        set bytes := PackedInstance.packing.encodeAll
          (((source.drop first).take size).map (PackedInstance.settled base)) with hbytes
        have hlength : bytes.length = size * packedInstanceBytes := by
          rw [hbytes, Packing.length_encodeAll, List.length_map, hchunk, packing_size]
        have hposition : offset + (first + size) * packedInstanceBytes =
            offset + first * packedInstanceBytes + bytes.length := by
          rw [hlength, Nat.add_mul, Nat.add_assoc]
        rw [pwritevAll_eq _ (by rw [List.flatten_singleton]; omega), List.flatten_singleton]
        dsimp only
        rw [ih _ (by omega) _ _ rfl, hposition, ByteContent.put_append, hbytes,
          ← Packing.encodeAll_append, ← List.map_append, ← List.drop_drop, List.take_append_drop]
      next hdone =>
        rw [List.drop_of_length_le (Nat.not_lt.mp hdone)]
        rfl

namespace ImageAnnotations

/-- The layout that these annotations have. -/
def layout (annotations : ImageAnnotations) : AnnotationLayout :=
  layoutOf annotations.labels.length annotations.runs.length annotations.joints.length

def settled (annotations : ImageAnnotations) (base : UInt64) : ImageAnnotations :=
  { annotations with labels := annotations.labels.map (PackedInstance.settled base) }

def labelBytes (annotations : ImageAnnotations) : List UInt8 :=
  PackedInstance.packing.encodeAll annotations.labels

def padding (annotations : ImageAnnotations) : List UInt8 :=
  zeros (annotations.layout.runOffset - annotations.labelBytes.length)

def runBytes (annotations : ImageAnnotations) : List UInt8 :=
  RLEPair.packing.encodeAll annotations.runs

def jointHeader (annotations : ImageAnnotations) : PackedJointHeader :=
  ⟨1, UInt32.ofNat annotations.joints.length⟩

/-- Spans and joints, with the header before them and the padding behind. -/
def jointBytes (annotations : ImageAnnotations) : List UInt8 :=
  if annotations.joints = [] then []
  else
    PackedJointHeader.packing.encode annotations.jointHeader ++
      (PackedJointSpan.packing.encodeAll annotations.jointSpans ++
        (PackedKeypoint.packing.encodeAll annotations.joints ++
          zeros (annotations.layout.usedBytes - (annotations.layout.jointOffset +
            (PackedKeypoint.packing.encodeAll annotations.joints).length))))

def bytes (annotations : ImageAnnotations) : List UInt8 :=
  annotations.labelBytes ++ (annotations.padding ++ (annotations.runBytes ++ annotations.jointBytes))

/-- Annotations with joints have a span for every label, and the others have none. -/
structure Spanned (annotations : ImageAnnotations) : Prop where
  none : annotations.joints = [] → annotations.jointSpans = []
  each : annotations.joints ≠ [] → annotations.jointSpans.length = annotations.labels.length

variable {annotations : ImageAnnotations}

theorem spanned_of_valid {F : Type} {schema : Option (ClassCatalog F)}
    (h : annotations.validateJoints schema = .ok ()) : annotations.Spanned := by
  rw [validateJoints] at h
  split at h
  next hempty => exact ⟨fun _ => hempty.2.1, fun hjoints => absurd hempty.1 hjoints⟩
  next =>
    obtain ⟨hcounts, -⟩ := guard_eq_ok.mp h
    rw [not_or] at hcounts
    exact ⟨fun hnone => by_contra fun hspans => hcounts.2 ⟨hnone, hspans⟩,
      fun hjoints => by_contra fun hlength => hcounts.1 ⟨hjoints, hlength⟩⟩

theorem length_labelBytes :
    annotations.labelBytes.length = annotations.labels.length * packedInstanceBytes :=
  Packing.length_encodeAll _ _

theorem length_runBytes : annotations.runBytes.length = annotations.runs.length * rlePairBytes :=
  Packing.length_encodeAll _ _

theorem runOffset_eq : annotations.layout.runOffset =
    alignUp (annotations.labels.length * packedInstanceBytes) rlePairBytes := by
  rw [layout, layoutOf]
  dsimp only
  split <;> rfl

theorem length_padded :
    annotations.labelBytes.length + annotations.padding.length = annotations.layout.runOffset := by
  have hle := le_alignUp_rlePair (annotations.labels.length * packedInstanceBytes)
  rw [padding, zeros, List.length_replicate, length_labelBytes, runOffset_eq]
  omega

/-- Where the joints begin, if there are any. -/
def runEnd (annotations : ImageAnnotations) : Nat :=
  annotations.layout.runOffset + annotations.runs.length * rlePairBytes

theorem layout_without_joints (h : annotations.joints = []) :
    annotations.layout.usedBytes = annotations.runEnd := by
  rw [runEnd, layout, layoutOf, h]
  rfl

theorem layout_with_joints (h : annotations.joints ≠ []) :
    annotations.layout.jointSpanOffset = annotations.runEnd + packedJointHeaderBytes ∧
      annotations.layout.jointOffset = annotations.layout.jointSpanOffset +
        annotations.labels.length * packedJointSpanBytes ∧
      annotations.layout.usedBytes = alignUp (annotations.layout.jointOffset +
        annotations.joints.length * packedKeypointBytes) rlePairBytes := by
  have hlength : annotations.joints.length ≠ 0 := mt List.length_eq_zero_iff.mp h
  rw [runEnd, layout, layoutOf]
  dsimp only
  rw [if_neg hlength]
  exact ⟨rfl, rfl, rfl⟩

theorem length_jointBytes (hspans : annotations.Spanned) :
    annotations.runEnd + annotations.jointBytes.length = annotations.layout.usedBytes := by
  rw [jointBytes]
  split
  next hnone => rw [layout_without_joints hnone, List.length_nil, Nat.add_zero]
  next hjoints =>
    obtain ⟨hspanOffset, hjointOffset, hused⟩ := layout_with_joints hjoints
    have hle := le_alignUp_rlePair (annotations.layout.jointOffset +
      annotations.joints.length * packedKeypointBytes)
    have hheader : (PackedJointHeader.packing.encode annotations.jointHeader).length =
        packedJointHeaderBytes := Packing.length_encode _ _
    have hspan : PackedJointSpan.packing.size = packedJointSpanBytes := rfl
    have hjoint : PackedKeypoint.packing.size = packedKeypointBytes := rfl
    simp only [List.length_append, Packing.length_encodeAll, zeros, List.length_replicate, hheader,
      hspan, hjoint, hspans.each hjoints]
    omega

theorem length_bytes (hspans : annotations.Spanned) :
    annotations.bytes.length = annotations.layout.usedBytes := by
  have hpadded := (@length_padded annotations)
  have hjoints := length_jointBytes hspans
  have hruns := (@length_runBytes annotations)
  rw [runEnd] at hjoints
  simp only [bytes, List.length_append]
  omega

@[simp] theorem settled_jointSpans :
    (annotations.settled base).jointSpans = annotations.jointSpans := rfl

@[simp] theorem settled_joints : (annotations.settled base).joints = annotations.joints := rfl

theorem settled_zero : annotations.settled 0 = annotations := by
  have hsettled : PackedInstance.settled 0 = id := by
    funext label
    rw [PackedInstance.settled, UInt64.add_zero]
    rfl
  rw [settled, hsettled, List.map_id]

theorem length_settled : (annotations.settled base).labels.length = annotations.labels.length :=
  List.length_map _

theorem layout_settled : (annotations.settled base).layout = annotations.layout := by
  rw [layout, length_settled]
  rfl

theorem Spanned.settled (h : annotations.Spanned) : (annotations.settled base).Spanned :=
  ⟨h.none, fun hjoints => (h.each hjoints).trans length_settled.symm⟩

end ImageAnnotations

open ImageAnnotations

variable {annotations : ImageAnnotations}

theorem writeLabelsAndRuns_eq (file : ByteContent) {offset : Nat}
    (hbase : ∀ label ∈ annotations.labels, label.sourceOrdinal.toNat + base.toNat < 2 ^ 64)
    (hoffset : offset + annotations.runEnd < 2 ^ 63) :
    writeLabelsAndRuns file offset annotations.layout annotations base =
      .ok (file.put offset ((annotations.settled base).labelBytes ++
        (annotations.padding ++ annotations.runBytes))) := by
  have hpadded := (@length_padded annotations)
  have hlabels := (@length_labelBytes annotations)
  have hruns := (@length_runBytes annotations)
  rw [runEnd] at hoffset
  rw [writeLabelsAndRuns]
  split
  next =>
    have hsettled : (annotations.settled base).labelBytes.length = annotations.labelBytes.length := by
      rw [length_labelBytes, length_labelBytes, length_settled]
    have hspans : ([[], annotations.padding, annotations.runBytes] : List (List UInt8)).flatten =
        annotations.padding ++ annotations.runBytes := by
      simp only [List.flatten_cons, List.flatten_nil, List.nil_append, List.append_nil]
    rw [writeCompiledLabelOrdinals, if_neg fun h => h.2 rfl,
      writeLabelOrdinalsFrom_eq hbase (by omega)]
    dsimp only [bind, Except.bind]
    change pwritevAll _ [[], annotations.padding, annotations.runBytes]
      (offset + annotations.labelBytes.length) = _
    rw [pwritevAll_eq _ (by rw [hspans, List.length_append]; omega), hspans, ← hsettled,
      Nat.zero_mul, Nat.add_zero, List.drop_zero]
    exact congrArg Except.ok (ByteContent.put_append _ _ _ _)
  next hzero =>
    obtain rfl : base = 0 := not_not.mp hzero
    have hspans : ([annotations.labelBytes, annotations.padding, annotations.runBytes] :
        List (List UInt8)).flatten =
          annotations.labelBytes ++ (annotations.padding ++ annotations.runBytes) := by
      simp only [List.flatten_cons, List.flatten_nil, List.append_nil]
    change pwritevAll _ [annotations.labelBytes, annotations.padding, annotations.runBytes] _ = _
    rw [pwritevAll_eq _ (by rw [hspans, List.length_append, List.length_append]; omega), hspans,
      settled_zero]

theorem writeJoints_eq (file : ByteContent) {offset : Nat} (hspans : annotations.Spanned)
    (hjoints : annotations.joints ≠ [])
    (hlimit : annotations.layout.usedBytes ≤ compiledLabelLimit)
    (hoffset : offset + annotations.layout.usedBytes < 2 ^ 63) :
    writeJoints file offset annotations.layout annotations =
      .ok (file.put (offset + annotations.runEnd) annotations.jointBytes) := by
  obtain ⟨hspanOffset, hjointOffset, hused⟩ := layout_with_joints hjoints
  have hle := le_alignUp_rlePair (annotations.layout.jointOffset +
    annotations.joints.length * packedKeypointBytes)
  have hlength := length_jointBytes hspans
  have hcount : annotations.joints.length ≤ annotations.joints.length * packedKeypointBytes :=
    Nat.le_mul_of_pos_right _ (by decide)
  have hposition : offset + annotations.layout.jointSpanOffset - packedJointHeaderBytes =
      offset + annotations.runEnd := by omega
  have hbytes : ([PackedJointHeader.packing.encode annotations.jointHeader,
      PackedJointSpan.packing.encodeAll annotations.jointSpans,
      PackedKeypoint.packing.encodeAll annotations.joints,
      zeros (annotations.layout.usedBytes - (annotations.layout.jointOffset +
        (PackedKeypoint.packing.encodeAll annotations.joints).length))] :
          List (List UInt8)).flatten = annotations.jointBytes := by
    rw [jointBytes, if_neg hjoints]
    simp only [List.flatten_cons, List.flatten_nil, List.append_nil]
  rw [compiledLabelLimit] at hlimit
  rw [writeJoints, checkedCast, if_neg (by omega)]
  dsimp only [bind, Except.bind]
  rw [hposition]
  change pwritevAll _ [PackedJointHeader.packing.encode annotations.jointHeader, _, _, _] _ = _
  rw [pwritevAll_eq _ (by rw [hbytes]; omega), hbytes]

/-- What a slot of a layout can take. -/
structure Writable (layout : FileLayout) (slot offset : Nat) (entry : ImageIndexEntry)
    (annotations : ImageAnnotations) : Prop where
  labels : annotations.labels.length = entry.numInstances
  runs : annotations.runs.length = entry.numRuns
  used : entry.labelBytes = annotations.layout.usedBytes
  fits : entry.labelBytes ≤ layout.labelCapacity
  capacity_le : layout.labelCapacity ≤ compiledLabelLimit
  capacity_mod : layout.labelCapacity % rlePairBytes = 0
  joints : annotations.validateJoints (none : Option (ClassCatalog Unit)) = .ok ()
  offset_eq : layout.labelOffset slot = .ok offset
  offset_lt : offset + entry.labelBytes < 2 ^ 63

/-- All that is written is one block of the entry's bytes. -/
theorem writeCompiledAnnotations_eq (file : ByteContent) {layout : FileLayout} {slot offset : Nat}
    {entry : ImageIndexEntry} (h : Writable layout slot offset entry annotations)
    (hbase : ∀ label ∈ annotations.labels, label.sourceOrdinal.toNat + base.toNat < 2 ^ 64) :
    writeCompiledAnnotations file layout slot entry annotations base =
      .ok (file.put offset (annotations.settled base).bytes) := by
  have hspans := spanned_of_valid h.joints
  have hused := h.used
  have hfits := h.fits
  have hlimit := h.capacity_le
  have hoffset := h.offset_lt
  have hlength := length_jointBytes hspans
  have hlayout : annotationLayout entry.numInstances entry.numRuns layout.labelCapacity
      annotations.joints.length = .ok annotations.layout := by
    rw [← h.labels, ← h.runs]
    exact annotationLayout_of_le hlimit h.capacity_mod (hused ▸ hfits)
  have hdiffer : ¬ (annotations.labels.length ≠ entry.numInstances ∨
      annotations.runs.length ≠ entry.numRuns ∨
        entry.labelBytes ≠ annotations.layout.usedBytes ∨
          layout.labelCapacity < entry.labelBytes) := by
    rw [h.labels, h.runs]
    omega
  have hblock : (annotations.settled base).bytes =
      (annotations.settled base).labelBytes ++ (annotations.padding ++ annotations.runBytes) ++
        annotations.jointBytes := by
    have hpadding : (annotations.settled base).padding = annotations.padding := by
      rw [padding, padding, layout_settled, length_labelBytes, length_labelBytes, length_settled]
    have hjoints : (annotations.settled base).jointBytes = annotations.jointBytes := by
      rw [jointBytes, jointBytes, layout_settled]
      rfl
    rw [bytes, hpadding, hjoints, List.append_assoc, List.append_assoc]
    rfl
  have hend : ((annotations.settled base).labelBytes ++
      (annotations.padding ++ annotations.runBytes)).length = annotations.runEnd := by
    have hpadded := (@length_padded annotations)
    rw [runEnd, ← hpadded, List.length_append, List.length_append, length_labelBytes,
      length_settled, length_labelBytes, length_runBytes, Nat.add_assoc]
  rw [writeCompiledAnnotations, hlayout]
  dsimp only [bind, Except.bind]
  rw [if_neg hdiffer, h.joints]
  dsimp only
  rw [h.offset_eq]
  dsimp only
  rw [writeLabelsAndRuns_eq file hbase (by omega)]
  dsimp only
  split
  next hnone =>
    rw [hblock, jointBytes, if_pos hnone, List.append_nil]
  next hsome =>
    rw [writeJoints_eq _ hspans hsome (by omega) (by omega), hblock, ← hend]
    exact congrArg Except.ok (ByteContent.put_append _ _ _ _)

end Mmltk.Compiled
