import Mmltk.Catalog.KeypointSchema
import Mmltk.Compiled.Compaction
import Mmltk.Foundation.ByteContent
import Mmltk.Foundation.FloatFormat
import Mmltk.Foundation.Records

namespace Mmltk.Compiled

open Mmltk.Foundation

/-! The annotations of an image: what is stored, checked, written and read. -/

/-- Floating-point fields are their encodings. -/
structure PackedInstance where
  classId : UInt8
  flags : UInt8
  bboxX1 : UInt32
  bboxY1 : UInt32
  bboxX2 : UInt32
  bboxY2 : UInt32
  maskRleOffset : UInt64
  maskRlePairs : UInt16
  originalArea : UInt64
  annotationId : UInt64
  sourceCategoryId : UInt64
  sourceOrdinal : UInt64
  deriving DecidableEq, Repr

structure RLEPair where
  start : UInt32
  length : UInt32
  deriving DecidableEq, Repr

structure PackedJointSpan where
  offset : UInt32
  count : UInt16
  reserved : UInt16
  deriving DecidableEq, Repr

structure PackedKeypoint where
  x : UInt32
  y : UInt32
  visibility : UInt8
  reserved : UInt8 × UInt8 × UInt8
  deriving DecidableEq, Repr

structure PackedJointHeader where
  version : UInt32
  count : UInt32
  deriving DecidableEq, Repr

namespace PackedInstance

def packing : Packing PackedInstance :=
  (Packing.uint8.pair <| Packing.uint8.pair <| Packing.uint32.pair <| Packing.uint32.pair <|
    Packing.uint32.pair <| Packing.uint32.pair <| Packing.uint64.pair <| Packing.uint16.pair <|
    Packing.uint64.pair <| Packing.uint64.pair <| Packing.uint64.pair Packing.uint64).fields
    (fun label => (label.classId, label.flags, label.bboxX1, label.bboxY1, label.bboxX2,
      label.bboxY2, label.maskRleOffset, label.maskRlePairs, label.originalArea,
      label.annotationId, label.sourceCategoryId, label.sourceOrdinal))
    (fun (classId, flags, x1, y1, x2, y2, offset, pairs, area, id, category, ordinal) =>
      ⟨classId, flags, x1, y1, x2, y2, offset, pairs, area, id, category, ordinal⟩)
    fun _ => rfl

def maskFlag : UInt8 := 1

def crowdFlag : UInt8 := 2

def ignoreFlag : UInt8 := 4

def idFlag : UInt8 := 8

def categoryFlag : UInt8 := 16

def ordinalIncompleteFlag : UInt8 := 32

def annotationFlags : UInt8 :=
  maskFlag ||| crowdFlag ||| ignoreFlag ||| idFlag ||| categoryFlag ||| ordinalIncompleteFlag

def hasCompleteSourceOrdinal (label : PackedInstance) : Bool :=
  label.flags &&& ordinalIncompleteFlag = 0

def hasAnnotationId (label : PackedInstance) : Bool := label.flags &&& idFlag ≠ 0

def hasSourceCategory (label : PackedInstance) : Bool := label.flags &&& categoryFlag ≠ 0

def hasMask (label : PackedInstance) : Bool := label.flags &&& maskFlag ≠ 0

end PackedInstance

def RLEPair.packing : Packing RLEPair :=
  (Packing.uint32.pair Packing.uint32).fields (fun run => (run.start, run.length))
    (fun (start, length) => ⟨start, length⟩) fun _ => rfl

def PackedJointSpan.packing : Packing PackedJointSpan :=
  (Packing.uint32.pair <| Packing.uint16.pair Packing.uint16).fields
    (fun span => (span.offset, span.count, span.reserved))
    (fun (offset, count, reserved) => ⟨offset, count, reserved⟩) fun _ => rfl

def PackedKeypoint.packing : Packing PackedKeypoint :=
  (Packing.uint32.pair <| Packing.uint32.pair <| Packing.uint8.pair <| Packing.uint8.pair <|
    Packing.uint8.pair Packing.uint8).fields
    (fun joint => (joint.x, joint.y, joint.visibility, joint.reserved))
    (fun (x, y, visibility, reserved) => ⟨x, y, visibility, reserved⟩) fun _ => rfl

def PackedJointHeader.packing : Packing PackedJointHeader :=
  (Packing.uint32.pair Packing.uint32).fields (fun header => (header.version, header.count))
    (fun (version, count) => ⟨version, count⟩) fun _ => rfl

inductive AnnotationSource where
  | generic
  | coco
  | objects365
  | openImages
  | coconutCoco
  | coconutObjects365V1
  | coconutObjects365V2
  | unknown (code : Nat)
  deriving DecidableEq, Repr

def AnnotationSource.coconut : AnnotationSource → Bool
  | .coconutCoco | .coconutObjects365V1 | .coconutObjects365V2 => true
  | _ => false

def AnnotationSource.known : AnnotationSource → Bool
  | .unknown _ => false
  | _ => true

/-- With the fields that a compaction does not read. -/
structure ImageIndexEntry extends ImageEntry where
  hasSourceImageId : Nat
  originalWidth : Nat
  originalHeight : Nat
  source : AnnotationSource
  reserved : Nat × Nat × Nat
  sourceImageId : Nat
  deriving DecidableEq, Repr

/-- The fields of a header that annotations are checked against. -/
structure FileHeader where
  imageWidth : Nat
  imageHeight : Nat
  numClasses : Nat
  maxInstancesPerImage : Nat
  maxLabelBytes : Nat
  deriving DecidableEq, Repr

/-- Either no class has joints, or there is a schema for each. -/
structure ClassCatalog (F : Type) where
  names : List String
  keypointSchemas : List (Catalog.ClassKeypointSchema F)

namespace ClassCatalog

variable {F : Type}

def keypoints (catalog : ClassCatalog F) (foregroundIndex : Nat) :
    Except CompiledError (List String) :=
  if catalog.names.length ≤ foregroundIndex then
    .error (.invalidArgument "foreground index exceeds admitted class catalog")
  else .ok ((catalog.keypointSchemas[foregroundIndex]?.map fun schema => schema.names).getD [])

def hasKeypoints (catalog : ClassCatalog F) : Bool :=
  catalog.keypointSchemas.any fun schema => schema.names ≠ []

end ClassCatalog

structure ImageAnnotations where
  labels : List PackedInstance
  runs : List RLEPair
  jointSpans : List PackedJointSpan
  joints : List PackedKeypoint
  deriving DecidableEq, Repr

namespace ImageAnnotations

def instanceJoints (annotations : ImageAnnotations) (index : Nat) :
    Except CompiledError (List PackedKeypoint) :=
  if annotations.labels.length ≤ index then .error (.outOfRange "compiled joint instance")
  else if annotations.jointSpans = [] then .ok []
  else
    match annotations.jointSpans[index]? with
    | none => .error (.outOfRange "compiled joint span index")
    | some span =>
        if span.reserved ≠ 0 ∨ annotations.joints.length < span.offset.toNat ∨
            annotations.joints.length - span.offset.toNat < span.count.toNat then
          .error (.runtime "compiled joint span exceeds payload")
        else .ok ((annotations.joints.drop span.offset.toNat).take span.count.toNat)

def instanceRle (annotations : ImageAnnotations) (label : PackedInstance) :
    Except CompiledError (List RLEPair) :=
  if label.maskRleOffset.toNat % rlePairBytes ≠ 0 then
    .error (.runtime "unaligned compiled run offset")
  else
    let begin := label.maskRleOffset.toNat / rlePairBytes
    if annotations.runs.length < begin ∨
        annotations.runs.length - begin < label.maskRlePairs.toNat then
      .error (.outOfRange "compiled instance run span")
    else .ok ((annotations.runs.drop begin).take label.maskRlePairs.toNat)

/-- The joints of an instance are as many as its class has. -/
def checkSchema {F : Type} (schema : Option (ClassCatalog F)) (label : PackedInstance)
    (points : List PackedKeypoint) : Except CompiledError Unit :=
  match schema with
  | none => .ok ()
  | some catalog => do
      let names ← catalog.keypoints label.classId.toNat
      if points.length ≠ names.length then
        .error (.runtime "compiled joints disagree with class schema")
      else .ok ()

/-- How many joints the instances have taken, one after the other. -/
def consumeJoints {F : Type} (annotations : ImageAnnotations) (schema : Option (ClassCatalog F)) :
    (index consumed : Nat) → List PackedInstance → Except CompiledError Nat
  | _, consumed, [] => .ok consumed
  | index, consumed, label :: labels => do
      let points ← annotations.instanceJoints index
      if annotations.jointSpans[index]?.any (fun span => span.offset.toNat ≠ consumed) ∨
          Catalog.keypointsPerClassCapacity < points.length then
        .error (.runtime "invalid compiled joint span")
      else do
        checkSchema schema label points
        annotations.consumeJoints schema (index + 1) (consumed + points.length) labels

/-- The visibilities are numbered from zero, which is no annotation. -/
def invalidKeypoint (joint : PackedKeypoint) : Bool :=
  !FloatFormat.binary32.isFinite joint.x.toNat || !FloatFormat.binary32.isFinite joint.y.toNat ||
    2 < joint.visibility ||
    (joint.visibility == 0 && (!FloatFormat.binary32.equal joint.x.toNat 0 ||
      !FloatFormat.binary32.equal joint.y.toNat 0)) ||
    joint.reserved != (0, 0, 0)

def validateJoints {F : Type} (annotations : ImageAnnotations) (schema : Option (ClassCatalog F)) :
    Except CompiledError Unit :=
  if annotations.joints = [] ∧ annotations.jointSpans = [] ∧
      ¬ schema.any ClassCatalog.hasKeypoints then
    .ok ()
  else if (annotations.joints ≠ [] ∧ annotations.jointSpans.length ≠ annotations.labels.length) ∨
      (annotations.joints = [] ∧ annotations.jointSpans ≠ []) then
    .error (.runtime "compiled joint span count differs")
  else do
    let consumed ← annotations.consumeJoints schema 0 0 annotations.labels
    if consumed ≠ annotations.joints.length then
      .error (.runtime "unreferenced compiled joints")
    else if annotations.joints.any invalidKeypoint then
      .error (.runtime "invalid compiled keypoint")
    else .ok ()

end ImageAnnotations

/-! What is admitted. -/

namespace CompiledRecordChecks

/-- Letters, digits and underscores, down to the last byte that is not zero. -/
def validOpenImagesBytes : Nat → Nat → Bool
  | 0, _ => true
  | count + 1, encoded =>
      encoded = 0 ||
        (let value := encoded % 256
        ((48 ≤ value && value ≤ 57) || (97 ≤ value && value ≤ 122) || value == 95) &&
          validOpenImagesBytes count (encoded / 256))

def validOpenImagesCategory (encoded : Nat) : Bool :=
  encoded ≠ 0 && validOpenImagesBytes 8 encoded

def image (entry : ImageIndexEntry) (position : Nat) : Except CompiledError Unit :=
  if entry.originalWidth = 0 ∨ entry.originalHeight = 0 ∨ 1 < entry.hasSourceImageId ∨
      ¬ entry.source.known ∨
      (entry.hasSourceImageId = 0 ∧ entry.sourceImageId ≠ 0) ∨ entry.reserved ≠ (0, 0, 0) then
    .error (.runtime
      ("compiled original image dimensions are invalid at image " ++ toString position))
  else if entry.source ≠ .generic ∧ entry.hasSourceImageId ≠ 1 then
    .error (.runtime "compiled benchmark image lacks source identity")
  else .ok ()

def metadata (entry : ImageIndexEntry) (header : FileHeader) (position : Nat) :
    Except CompiledError Unit := do
  image entry position
  let differ := CompiledError.runtime
    ("compiled annotation counts differ at slot " ++ toString position)
  if ¬ entry.eligible ∨ header.maxInstancesPerImage < entry.numInstances then .error differ
  else do
    let layout ← annotationLayout entry.numInstances entry.numRuns compiledLabelLimit 0
    if entry.labelBytes < layout.usedBytes ∨ entry.labelBytes % rlePairBytes ≠ 0 then .error differ
    else .ok ()

def invalidInstance (label : PackedInstance) : Bool :=
  let single := FloatFormat.binary32
  let double := FloatFormat.binary64
  !single.isFinite label.bboxX1.toNat || !single.isFinite label.bboxY1.toNat ||
    !single.isFinite label.bboxX2.toNat || !single.isFinite label.bboxY2.toNat ||
    !single.less label.bboxX1.toNat label.bboxX2.toNat ||
    !single.less label.bboxY1.toNat label.bboxY2.toNat ||
    !double.isFinite label.originalArea.toNat || double.less label.originalArea.toNat 0 ||
    (label.flags &&& ~~~PackedInstance.annotationFlags) != 0 ||
    (!label.hasMask && label.maskRlePairs != 0) ||
    (!label.hasAnnotationId && label.annotationId != 0) ||
    (!label.hasSourceCategory && label.sourceCategoryId != 0)

/-- Where the next label's runs are expected, in bytes. -/
def label (label : PackedInstance) (classes rleBytes expected : Nat) (source : AnnotationSource)
    (position : Nat) : Except CompiledError Nat :=
  if classes ≤ label.classId.toNat then
    .error (.runtime
      ("compiled instance class id is out of bounds at label " ++ toString position))
  else if invalidInstance label then
    .error (.runtime
      ("compiled instance annotation metadata is invalid at label " ++ toString position))
  else if ¬ label.hasCompleteSourceOrdinal ∧ ¬ source.coconut then
    .error (.runtime ("incomplete source ordinal outside COCONut at label " ++ toString position))
  else if source ≠ .generic ∧ ¬ label.hasSourceCategory then
    .error (.runtime "compiled benchmark annotation lacks source category")
  else if source = .openImages ∧ ¬ validOpenImagesCategory label.sourceCategoryId.toNat then
    .error (.runtime "invalid compiled Open Images source category")
  else if label.maskRleOffset.toNat ≠ expected ∨ label.maskRleOffset.toNat % rlePairBytes ≠ 0 then
    .error (.runtime ("compiled instance RLE metadata is invalid at label " ++ toString position))
  else
    let bytes := label.maskRlePairs.toNat * rlePairBytes
    if rleBytes < expected ∨ rleBytes - expected < bytes then
      .error (.runtime
        ("compiled instance RLE span is out of bounds at label " ++ toString position))
    else .ok (expected + bytes)

/-- Where the run ends. -/
def run (pair : RLEPair) (previousEnd pixels label position : Nat) : Except CompiledError Nat :=
  if pair.length = 0 ∨ pair.start.toNat < previousEnd ∨ pixels < pair.start.toNat ∨
      pixels - pair.start.toNat < pair.length.toNat then
    .error (.runtime ("compiled RLE run is invalid at label " ++ toString label ++ ", pair " ++
      toString position))
  else .ok (pair.start.toNat + pair.length.toNat)

def runs (pixels label : Nat) : (position previousEnd : Nat) → List RLEPair →
    Except CompiledError Unit
  | _, _, [] => .ok ()
  | position, previousEnd, pair :: pairs => do
      let stop ← run pair previousEnd pixels label position
      runs pixels label (position + 1) stop pairs

/-- The labels take the runs one after the other; whether one has a mask comes with it. -/
def labels (annotations : ImageAnnotations) (classes pixels : Nat) (source : AnnotationSource) :
    (position consumed : Nat) → (masks : Bool) → List PackedInstance →
      Except CompiledError (Nat × Bool)
  | _, consumed, masks, [] => .ok (consumed, masks)
  | position, consumed, masks, next :: rest => do
      let stop ← label next classes (annotations.runs.length * rlePairBytes) consumed source position
      let first := consumed / rlePairBytes
      runs pixels position first 0
        ((annotations.runs.drop first).take (stop / rlePairBytes - first))
      labels annotations classes pixels source (position + 1) stop (masks || next.hasMask) rest

end CompiledRecordChecks

/-- Whether the image has a mask. -/
def admitCompiledAnnotations (entry : ImageIndexEntry) (annotations : ImageAnnotations)
    (header : FileHeader) (slot : Nat) : Except CompiledError Bool := do
  CompiledRecordChecks.metadata entry header slot
  if annotations.labels.length ≠ entry.numInstances ∨ annotations.runs.length ≠ entry.numRuns then
    .error (.runtime ("compiled annotation counts differ at slot " ++ toString slot))
  else do
    let pixels ← checkedMultiply header.imageWidth header.imageHeight "compiled mask size overflow"
    let limit := if header.maxLabelBytes = 0 then compiledLabelLimit else header.maxLabelBytes
    let extent ← annotationLayout entry.numInstances entry.numRuns limit annotations.joints.length
    if entry.labelBytes ≠ extent.usedBytes then
      .error (.runtime "compiled joint extent differs")
    else do
      annotations.validateJoints (none : Option (ClassCatalog Unit))
      let (consumed, masks) ← CompiledRecordChecks.labels annotations header.numClasses pixels
        entry.source 0 0 false annotations.labels
      if consumed ≠ annotations.runs.length * rlePairBytes then
        .error (.runtime "compiled image has unreferenced mask runs")
      else .ok masks

/-! What is written. -/

/-- The spans one behind the other, from an offset on. -/
def pwritevAll (file : ByteContent) (spans : List (List UInt8)) (offset : Nat) :
    Except CompiledError ByteContent := do
  let total ← spans.foldlM
    (fun total span => checkedAdd total span.length "pwritev extent overflow") 0
  let stop ← checkedAdd offset total "pwritev extent overflow"
  let _ ← checkedCast (2 ^ 63 - 1) stop "pwritev extent overflow"
  if total = 0 then .ok file else .ok (file.write offset spans.flatten)

def preadAll (file : ByteContent) (bytes offset : Nat) : Except CompiledError (List UInt8) := do
  let stop ← checkedAdd offset bytes "pread extent overflow"
  let _ ← checkedCast (2 ^ 63 - 1) stop "pread extent overflow"
  if bytes ≠ 0 ∧ file.size < stop then .error (.runtime "unexpected EOF during pread")
  else .ok (file.read offset bytes)

/-- The record with its ordinal moved. -/
def settleOrdinal (base : UInt64) (incomplete : Bool) (record : PackedInstance) :
    Except CompiledError PackedInstance := do
  let ordinal ← checkedAdd record.sourceOrdinal.toNat base.toNat "benchmark source ordinal overflow"
  return { record with
    sourceOrdinal := UInt64.ofNat ordinal
    flags := if incomplete then record.flags ||| PackedInstance.ordinalIncompleteFlag
      else record.flags }

def ordinalRecords : Nat := 256

/-- The records of an empty source are the file's own. -/
def ordinalSource (file : ByteContent) (source : List PackedInstance) (first size position : Nat) :
    Except CompiledError (List PackedInstance) :=
  if source = [] then do
    let stored ← preadAll file (size * packedInstanceBytes) position
    return PackedInstance.packing.decodeAll size stored
  else .ok ((source.drop first).take size)

def writeLabelOrdinalsFrom (offset count : Nat) (source : List PackedInstance) (base : UInt64)
    (incomplete : Bool) (first : Nat) (file : ByteContent) : Except CompiledError ByteContent :=
  if _h : first < count then do
    let size := min ordinalRecords (count - first)
    let within ← checkedMultiply first packedInstanceBytes "compiled ordinal record extent overflow"
    let position ← checkedAdd offset within "compiled ordinal record offset overflow"
    let records ← ordinalSource file source first size position
    let settled ← records.mapM (settleOrdinal base incomplete)
    let file ← pwritevAll file [PackedInstance.packing.encodeAll settled] position
    writeLabelOrdinalsFrom offset count source base incomplete (first + size) file
  else .ok file
termination_by count - first
decreasing_by
  simp only [ordinalRecords]
  omega

def writeCompiledLabelOrdinals (file : ByteContent) (offset count : Nat)
    (source : List PackedInstance) (base : UInt64) (incomplete : Bool) :
    Except CompiledError ByteContent :=
  if source ≠ [] ∧ source.length ≠ count then
    .error (.invalidArgument "compiled ordinal source extent differs")
  else writeLabelOrdinalsFrom offset count source base incomplete 0 file

def zeros (count : Nat) : List UInt8 := List.replicate count 0

/-- The labels, up to the joints. -/
def writeLabelsAndRuns (file : ByteContent) (offset : Nat) (payload : AnnotationLayout)
    (annotations : ImageAnnotations) (ordinalBase : UInt64) : Except CompiledError ByteContent :=
  let labelBytes := PackedInstance.packing.encodeAll annotations.labels
  let padding := zeros (payload.runOffset - labelBytes.length)
  let runBytes := RLEPair.packing.encodeAll annotations.runs
  if ordinalBase ≠ 0 then do
    let file ← writeCompiledLabelOrdinals file offset annotations.labels.length annotations.labels
      ordinalBase false
    pwritevAll file [[], padding, runBytes] (offset + labelBytes.length)
  else pwritevAll file [labelBytes, padding, runBytes] offset

def writeJoints (file : ByteContent) (offset : Nat) (payload : AnnotationLayout)
    (annotations : ImageAnnotations) : Except CompiledError ByteContent := do
  let count ← checkedCast (2 ^ 32 - 1) annotations.joints.length "compiled joint count overflow"
  let jointBytes := PackedKeypoint.packing.encodeAll annotations.joints
  let stop := payload.jointOffset + jointBytes.length
  pwritevAll file
    [PackedJointHeader.packing.encode ⟨1, UInt32.ofNat count⟩,
      PackedJointSpan.packing.encodeAll annotations.jointSpans, jointBytes,
      zeros (payload.usedBytes - stop)]
    (offset + payload.jointSpanOffset - packedJointHeaderBytes)

def writeCompiledAnnotations (file : ByteContent) (layout : FileLayout) (slot : Nat)
    (entry : ImageIndexEntry) (annotations : ImageAnnotations) (ordinalBase : UInt64) :
    Except CompiledError ByteContent := do
  let payload ← annotationLayout entry.numInstances entry.numRuns layout.labelCapacity
    annotations.joints.length
  if annotations.labels.length ≠ entry.numInstances ∨ annotations.runs.length ≠ entry.numRuns ∨
      entry.labelBytes ≠ payload.usedBytes ∨ layout.labelCapacity < entry.labelBytes then
    .error (.runtime "compiled annotation write extent differs")
  else do
    annotations.validateJoints (none : Option (ClassCatalog Unit))
    let offset ← layout.labelOffset slot
    let file ← writeLabelsAndRuns file offset payload annotations ordinalBase
    if annotations.joints = [] then .ok file else writeJoints file offset payload annotations

/-! What is read. -/

/-- The joints behind the runs, where the entry has more bytes than labels and runs take. -/
def jointView (entry : ImageIndexEntry) (payload : List UInt8) (layout : AnnotationLayout)
    (view : ImageAnnotations) : Except CompiledError ImageAnnotations :=
  if entry.labelBytes ≤ layout.usedBytes then .ok view
  else if entry.labelBytes - layout.usedBytes < packedJointHeaderBytes then
    .error (.runtime "truncated compiled joint header")
  else
    let header := PackedJointHeader.packing.decode
      ((payload.drop layout.usedBytes).take packedJointHeaderBytes)
    if header.version ≠ 1 ∨ header.count = 0 then
      .error (.runtime "invalid compiled joint header")
    else do
      let layout ← annotationLayout entry.numInstances entry.numRuns compiledLabelLimit
        header.count.toNat
      if entry.labelBytes ≠ layout.usedBytes then
        .error (.runtime "compiled joint payload extent differs")
      else
        .ok { view with
          jointSpans := PackedJointSpan.packing.decodeAll entry.numInstances
            (payload.drop layout.jointSpanOffset)
          joints := PackedKeypoint.packing.decodeAll header.count.toNat
            (payload.drop layout.jointOffset) }

def annotationView {F : Type} (entry : ImageIndexEntry) (payload : List UInt8)
    (schema : Option (ClassCatalog F)) : Except CompiledError ImageAnnotations := do
  let layout ← annotationLayout entry.numInstances entry.numRuns compiledLabelLimit 0
  if payload.length < entry.labelBytes ∨ entry.labelBytes < layout.usedBytes then
    .error (.runtime "compiled label payload extent differs")
  else if entry.labelBytes = 0 then .ok ⟨[], [], [], []⟩
  else do
    let view ← jointView entry payload layout
      ⟨PackedInstance.packing.decodeAll entry.numInstances payload,
        RLEPair.packing.decodeAll entry.numRuns (payload.drop layout.runOffset), [], []⟩
    view.validateJoints schema
    return view

end Mmltk.Compiled
