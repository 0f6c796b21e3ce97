import Mmltk.Coconut.NativeImage
import Mmltk.Compiled.Annotations

namespace Mmltk.Coconut

open Mmltk.Foundation
open Mmltk.Dataset (RLEPair RowMajorMaskBounds MaskError includeRowMajorMaskRun)

/-! Dropped segments of an image are recovered from the masks of its original. -/

/-- With what a group is known by; `bbox` is whether a box was supplied. -/
structure CoconutRecordSegment extends CoconutSegment where
  categoryId : Nat
  crowd : Bool
  ignore : Bool
  bbox : Bool
  deriving DecidableEq, Repr

structure CoconutRecord where
  imageId : Nat
  firstSegmentOrdinal : Nat
  segments : List CoconutRecordSegment

/-- Floating-point fields are their encodings. -/
structure NormalizedBox where
  x1 : Nat
  y1 : Nat
  x2 : Nat
  y2 : Nat
  maskRleOffset : Nat
  maskRlePairs : Nat
  classId : UInt8
  flags : UInt8
  originalArea : Nat
  annotationId : Nat
  sourceCategoryId : Nat
  sourceOrdinal : Nat
  deriving DecidableEq, Repr

structure NormalizedImage where
  sourceImageId : Nat
  firstBox : Nat
  boxCount : Nat
  width : Nat
  height : Nat
  deriving DecidableEq, Repr

structure NormalizedAnnotationIndex where
  images : List NormalizedImage
  boxes : List NormalizedBox
  maskRlePairs : List RLEPair
  deriving DecidableEq, Repr

namespace NormalizedAnnotationIndex

/-- An identity that two images have is of no use. -/
def find (index : NormalizedAnnotationIndex) (imageId : Nat) : Option NormalizedImage :=
  match index.images.filter fun image => image.sourceImageId = imageId with
  | [image] => some image
  | _ => none

def boxesOf (index : NormalizedAnnotationIndex) (image : NormalizedImage) : List NormalizedBox :=
  (index.boxes.drop image.firstBox).take image.boxCount

def runsOf (index : NormalizedAnnotationIndex) (box : NormalizedBox) : List RLEPair :=
  (index.maskRlePairs.drop box.maskRleOffset).take box.maskRlePairs

end NormalizedAnnotationIndex

structure CoconutRecoveredObject where
  annotationId : Nat
  sourceOrdinal : Nat
  sourceCategoryId : Nat
  originalAnnotationId : Nat
  deriving DecidableEq, Repr

abbrev Support := CoconutSegmentSupport NormalizedBox

namespace CoconutMaskRecovery

structure GroupKey where
  category : Nat
  crowd : Bool
  ignore : Bool
  deriving DecidableEq, Repr

/-- The lexicographic order of keys, as numbers. -/
def GroupKey.rank (key : GroupKey) : Nat :=
  4 * key.category + 2 * key.crowd.toNat + key.ignore.toNat

structure Candidate where
  box : NormalizedBox
  runs : List RLEPair
  bounds : RowMajorMaskBounds
  group : Nat
  area : Nat
  deriving DecidableEq, Repr

/-- `members` is the part of the ordinals from `begin` to `end`. -/
structure Group where
  key : GroupKey
  members : List Nat
  dropped : Nat
  candidateCount : Nat
  deriving DecidableEq, Repr

def stop (run : RLEPair) : Nat := run.start + run.length

/-! The mask of a candidate. -/

def admissible (index : NormalizedAnnotationIndex) (box : NormalizedBox) : Bool :=
  let single := FloatFormat.binary32
  let double := FloatFormat.binary64
  let flags := Compiled.PackedInstance.maskFlag ||| Compiled.PackedInstance.idFlag |||
    Compiled.PackedInstance.categoryFlag
  (box.flags &&& flags == flags) && double.isFinite box.originalArea &&
    !double.less box.originalArea 0 && single.isFinite box.x1 && single.isFinite box.y1 &&
    single.isFinite box.x2 && single.isFinite box.y2 && single.less box.x1 box.x2 &&
    single.less box.y1 box.y2 && box.maskRlePairs != 0 &&
    box.maskRleOffset ≤ index.maskRlePairs.length &&
    box.maskRlePairs ≤ index.maskRlePairs.length - box.maskRleOffset

/-- The area and the bounds of runs that follow each other inside the image. -/
def measure (pixels width : Nat) : (previous area : Nat) → RowMajorMaskBounds → List RLEPair →
    Except MaskError (Option (Nat × RowMajorMaskBounds))
  | _, area, bounds, [] => .ok (some (area, bounds))
  | previous, area, bounds, run :: runs =>
      if run.length = 0 ∨ run.start < previous ∨ pixels < stop run then .ok none
      else do
        let bounds ← includeRowMajorMaskRun bounds run.start (stop run) width
        measure pixels width (stop run) (area + run.length) bounds runs

def candidateMask (index : NormalizedAnnotationIndex) (width height : Nat) (candidate : Candidate) :
    Except MaskError (Option Candidate) :=
  if ¬ admissible index candidate.box then .ok none
  else do
    let runs := index.runsOf candidate.box
    let measured ← measure (width * height) width 0 candidate.area candidate.bounds runs
    return measured.map fun (area, bounds) => { candidate with runs, area, bounds }

/-- The masks of all candidates, or nothing if one is not valid. -/
def candidateMasks (index : NormalizedAnnotationIndex) (width height : Nat) :
    List Candidate → Except MaskError (Option (List Candidate))
  | [] => .ok (some [])
  | candidate :: candidates => do
      match ← candidateMask index width height candidate with
      | none => return none
      | some candidate =>
          let rest ← candidateMasks index width height candidates
          return rest.map (candidate :: ·)

/-! Whether a segment and a candidate share a pixel. -/

def overlaps : List RLEPair → List RLEPair → Bool
  | [], _ => false
  | _, [] => false
  | left :: lefts, right :: rights =>
      if left.start < stop right ∧ right.start < stop left then true
      else if stop left ≤ right.start then overlaps lefts (right :: rights)
      else overlaps (left :: lefts) rights
termination_by left right => left.length + right.length

def apart (bounds other : RowMajorMaskBounds) : Bool :=
  bounds.maxX ≤ other.minX || other.maxX ≤ bounds.minX || bounds.maxY ≤ other.minY ||
    other.maxY ≤ bounds.minY

def intersects (support : Support) (candidate : Candidate) : Bool :=
  !apart support.bounds candidate.bounds && overlaps support.runs.view candidate.runs

/-! The groups of the segments, and the candidates of each. -/

def segmentKey (segment : CoconutRecordSegment) : GroupKey :=
  ⟨segment.categoryId, segment.crowd, segment.ignore⟩

def boxKey (box : NormalizedBox) : GroupKey :=
  ⟨box.sourceCategoryId, box.flags &&& Compiled.PackedInstance.crowdFlag != 0,
    box.flags &&& Compiled.PackedInstance.ignoreFlag != 0⟩

def eligibleDropped (segment : CoconutRecordSegment) (support : Support) : Bool :=
  segment.valid && support.valid && segment.isthing && support.area == 0 && !segment.bbox

section

variable (segments : List CoconutRecordSegment) (support : List Support)

def member (ordinal : Nat) : Bool :=
  match segments[ordinal]?, support[ordinal]? with
  | some segment, some support => segment.valid && support.valid && segment.isthing
  | _, _ => false

def dropped (ordinal : Nat) : Bool :=
  match segments[ordinal]?, support[ordinal]? with
  | some segment, some support => eligibleDropped segment support
  | _, _ => false

def key (ordinal : Nat) : GroupKey :=
  (segments[ordinal]?.map segmentKey).getD ⟨0, false, false⟩

def segmentId (ordinal : Nat) : Nat := (segments[ordinal]?.map fun segment => segment.id).getD 0

/-- By key; the dropped before the others, by id, and the others as they come. -/
def before (left right : Nat) : Bool :=
  if key segments left ≠ key segments right then
    (key segments left).rank < (key segments right).rank
  else if dropped segments support left ≠ dropped segments support right then
    dropped segments support left
  else if dropped segments support left then segmentId segments left < segmentId segments right
  else left < right

/-- The members in order; a sort may put those of the same rank in any order. -/
def ordinals : List Nat :=
  ((List.range segments.length).filter (member segments support)).insertionSort fun left right =>
    ¬ before segments support right left

def enter (groups : List Group) (ordinal : Nat) : List Group :=
  let own := key segments ordinal
  let one := if dropped segments support ordinal then 1 else 0
  match groups.getLast? with
  | some back =>
      if back.key = own then
        groups.dropLast ++
          [{ back with members := back.members ++ [ordinal], dropped := back.dropped + one }]
      else groups ++ [⟨own, [ordinal], one, 0⟩]
  | none => [⟨own, [ordinal], one, 0⟩]

def groups : List Group := (ordinals segments support).foldl (enter segments support) []

end

/-- The first group whose key is not before. -/
def lowerBound (groups : List Group) (key : GroupKey) : Nat :=
  groups.findIdx fun group => ¬ group.key.rank < key.rank

/-- A box is a candidate if a segment of its group was dropped. -/
def enterBox (groups : List Group) (candidates : List Candidate) (box : NormalizedBox) :
    List Group × List Candidate :=
  let slot := lowerBound groups (boxKey box)
  match groups[slot]? with
  | none => (groups, candidates)
  | some group =>
      if group.key ≠ boxKey box ∨ group.dropped = 0 then (groups, candidates)
      else (groups.set slot { group with candidateCount := group.candidateCount + 1 },
        candidates ++ [⟨box, [], {}, slot, 0⟩])

def enterBoxes : List Group → List Candidate → List NormalizedBox → List Group × List Candidate
  | groups, candidates, [] => (groups, candidates)
  | groups, candidates, box :: boxes =>
      let (groups, candidates) := enterBox groups candidates box
      enterBoxes groups candidates boxes

/-! Which candidate stands for which segment. -/

/-- The one candidate that shares a pixel with the segment. -/
def soleMatch (support : Support) : (position : Nat) → (found : Option Nat) → List Candidate →
    Option Nat
  | _, found, [] => found
  | position, found, candidate :: candidates =>
      if ¬ intersects support candidate then soleMatch support (position + 1) found candidates
      else
        match found with
        | some _ => none
        | none => soleMatch support (position + 1) (some position) candidates

/-- Which candidates stand for the survivors, if each has one of its own. -/
def represent (support : List Support) (candidates : List Candidate) :
    (represented : List Bool) → (survivors : List Nat) → Option (List Bool)
  | represented, [] => some represented
  | represented, ordinal :: survivors =>
      match support[ordinal]? with
      | none => none
      | some segment =>
          if segment.runs.view = [] then none
          else
            match soleMatch segment 0 none candidates with
            | none => none
            | some position =>
                if represented.getD position true then none
                else represent support candidates (represented.set position true) survivors

def adjacentDistinct : List Nat → Bool
  | first :: second :: rest => first != second && adjacentDistinct (second :: rest)
  | _ => true

def unrepresented (candidates : List Candidate) (represented : List Bool) : List Candidate :=
  ((candidates.zip represented).filter fun (_, taken) => !taken).map Prod.fst

/-- The candidates for the dropped segments of a group, by annotation id; nothing if the group is
not to be recovered. -/
def remaining (index : NormalizedAnnotationIndex) (width height : Nat) (support : List Support)
    (group : Group) (candidates : List Candidate) : Except MaskError (Option (List Candidate)) :=
  if group.dropped = 0 ∨ candidates.length ≠ group.members.length then .ok none
  else do
    match ← candidateMasks index width height candidates with
    | none => return none
    | some candidates =>
        let identities := (candidates.map fun candidate => candidate.box.annotationId).insertionSort
          (· ≤ ·)
        if ¬ adjacentDistinct identities then return none
        else
          match represent support candidates (List.replicate candidates.length false)
              (group.members.drop group.dropped) with
          | none => return none
          | some represented =>
              let left := unrepresented candidates represented
              if left.length ≠ group.dropped then return none
              else
                return some (left.insertionSort fun candidate other =>
                  candidate.box.annotationId ≤ other.box.annotationId)

def recoverSegment (support : Support) (candidate : Candidate) : Support :=
  { support with
    recovered := some candidate.box
    runs := ⟨[], candidate.runs⟩
    area := candidate.area
    bounds := candidate.bounds }

/-- The supports, the masks to unite and the facts. -/
structure Recovery where
  support : List Support
  merge : List (List RLEPair)
  objects : List CoconutRecoveredObject
  deriving DecidableEq, Repr

def assign (record : CoconutRecord) : Recovery → List (Nat × Candidate) →
    Except MaskError Recovery
  | recovery, [] => .ok recovery
  | recovery, (ordinal, candidate) :: rest =>
      if 2 ^ 64 - 1 - record.firstSegmentOrdinal < ordinal then
        .error (.runtime "COCONut: source ordinal overflow")
      else
        assign record
          ⟨recovery.support.modify ordinal (recoverSegment · candidate),
            recovery.merge ++ [candidate.runs],
            recovery.objects ++
              [⟨segmentId record.segments ordinal, record.firstSegmentOrdinal + ordinal,
                (key record.segments ordinal).category, candidate.box.annotationId⟩]⟩ rest

/-- Group after group, each with its own part of the candidates. -/
def recoverGroups (index : NormalizedAnnotationIndex) (record : CoconutRecord) (width height : Nat) :
    Recovery → List Group → List Candidate → Except MaskError Recovery
  | recovery, [], _ => .ok recovery
  | recovery, group :: groups, candidates => do
      let own := candidates.take group.candidateCount
      let rest := candidates.drop group.candidateCount
      match ← remaining index width height recovery.support group own with
      | none => recoverGroups index record width height recovery groups rest
      | some left =>
          let recovery ← assign record recovery (group.members.zip left)
          recoverGroups index record width height recovery groups rest

/-! The union of the recovered masks. -/

structure Union where
  combined : List RLEPair
  bounds : RowMajorMaskBounds
  deriving DecidableEq, Repr

def emitUnion (width : Nat) (union : Union) (run : RLEPair) : Except MaskError Union := do
  let combined :=
    match union.combined.getLast? with
    | some prior =>
        if run.start ≤ stop prior then
          union.combined.dropLast ++ [⟨prior.start, max (stop prior) (stop run) - prior.start⟩]
        else union.combined ++ [run]
    | none => [run]
  let bounds ← includeRowMajorMaskRun union.bounds run.start (stop run) width
  return ⟨combined, bounds⟩

/-- The cursor whose next run starts first is taken from the heap; of several, the first one. -/
def popLeast : List (List RLEPair) → Option (RLEPair × List (List RLEPair))
  | [] => none
  | [] :: cursors => popLeast cursors
  | (run :: runs) :: cursors =>
      match popLeast cursors with
      | none => some (run, runs :: cursors)
      | some (least, others) =>
          if least.start < run.start then some (least, (run :: runs) :: others)
          else some (run, runs :: cursors)

/-- The runs in the order in which the heap has them. -/
def heapOrder : (count : Nat) → List (List RLEPair) → List RLEPair
  | 0, _ => []
  | count + 1, cursors =>
      match popLeast cursors with
      | none => []
      | some (run, cursors) => run :: heapOrder count cursors

def mergeOrder : List (List RLEPair) → List RLEPair
  | [runs] => runs
  | merge => heapOrder merge.flatten.length merge

def unite (width : Nat) (merge : List (List RLEPair)) : Except MaskError Union :=
  (mergeOrder merge).foldlM (emitUnion width) ⟨[], {}⟩

/-! What is carved out of the other segments. -/

structure Carving where
  scratch : List RLEPair
  area : Nat
  bounds : RowMajorMaskBounds
  deriving DecidableEq, Repr

def emit (width : Nat) (carving : Carving) (first last : Nat) : Except MaskError Carving :=
  if first = last then .ok carving
  else do
    let bounds ← includeRowMajorMaskRun carving.bounds first last width
    return ⟨carving.scratch ++ [⟨first, last - first⟩], carving.area + (last - first), bounds⟩

/-- The cuts of one run; a cut that goes beyond the run is left for the next one. -/
def cutRun (width last : Nat) : Carving → (cursor : Nat) → (cuts : List RLEPair) →
    Except MaskError (Carving × Nat × List RLEPair)
  | carving, cursor, [] => .ok (carving, cursor, [])
  | carving, cursor, cut :: cuts =>
      if last ≤ cut.start then .ok (carving, cursor, cut :: cuts)
      else if stop cut ≤ cursor then cutRun width last carving cursor cuts
      else do
        let carving ← emit width carving cursor (max cursor cut.start)
        if last ≤ stop cut then .ok (carving, min last (stop cut), cut :: cuts)
        else cutRun width last carving (min last (stop cut)) cuts

def cutRuns (width : Nat) : Carving → (cuts runs : List RLEPair) → Except MaskError Carving
  | carving, _, [] => .ok carving
  | carving, cuts, run :: runs => do
      let (carving, cursor, cuts) ← cutRun width (stop run) carving run.start cuts
      let carving ← emit width carving cursor (stop run)
      cutRuns width carving cuts runs

def carve (width : Nat) (union : Union) (segment : CoconutRecordSegment) (support : Support) :
    Except MaskError Support :=
  match support.runs.view with
  | [] => .ok support
  | front :: runs =>
      if !segment.isthing || support.recovered.isSome || apart support.bounds union.bounds then
        .ok support
      else do
        let cuts := union.combined.dropWhile fun cut => stop cut ≤ front.start
        let carving ← cutRuns width ⟨[], 0, {}⟩ cuts (front :: runs)
        if carving.area = support.area then .ok support
        else
          return { support with
            runs := ⟨carving.scratch, []⟩, area := carving.area, carved := true
            bounds := carving.bounds }

def carveAll (width : Nat) (union : Union) :
    List CoconutRecordSegment → List Support → Except MaskError (List Support)
  | segment :: segments, support :: rest => do
      let support ← carve width union segment support
      let rest ← carveAll width union segments rest
      return support :: rest
  | _, support => .ok support

/-- The supports and the facts after the recovery; the original of the image decides. -/
def apply (originals : Option NormalizedAnnotationIndex) (record : CoconutRecord)
    (width height : Nat) (support : List Support) (objects : List CoconutRecoveredObject) :
    Except MaskError (List Support × List CoconutRecoveredObject) :=
  match originals.bind fun index => (index.find record.imageId).map fun image => (index, image) with
  | none => .ok (support, objects)
  | some (index, image) =>
      if width = 0 ∨ height = 0 ∨ 2 ^ 32 ≤ width * height ∨ image.width ≠ width ∨
          image.height ≠ height ∨ index.boxes.length < image.firstBox ∨
          index.boxes.length - image.firstBox < image.boxCount ∨
          support.length ≠ record.segments.length then
        .ok (support, objects)
      else if ¬ (List.range record.segments.length).any (dropped record.segments support) then
        .ok (support, objects)
      else do
        let (groups, candidates) :=
          enterBoxes (groups record.segments support) [] (index.boxesOf image)
        let sorted := candidates.insertionSort fun candidate other =>
          candidate.group ≤ other.group
        let recovery ← recoverGroups index record width height ⟨support, [], objects⟩ groups sorted
        if recovery.merge = [] then .ok (recovery.support, recovery.objects)
        else do
          let union ← unite width recovery.merge
          let support ← carveAll width union record.segments recovery.support
          return (support, recovery.objects)

end CoconutMaskRecovery

end Mmltk.Coconut
