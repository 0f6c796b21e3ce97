import Mathlib.Data.Nat.Log
import Mathlib.Data.Nat.Bitwise
import Mmltk.Dataset.MaskEmitted
import Mmltk.Foundation.Probing

namespace Mmltk.Coconut

open Mmltk.Dataset (RLEPair RowMajorMaskBounds MaskError includeRowMajorMaskRun)

/-! The segments of a panoptic image, found by the colour of its pixels. -/

structure CoconutSegment where
  id : Nat
  isthing : Bool
  valid : Bool
  deriving DecidableEq, Repr

/-- Runs of its own, or borrowed ones that stand for them. -/
structure CoconutSupportRuns where
  owned : List RLEPair
  borrowed : List RLEPair
  deriving DecidableEq, Repr

namespace CoconutSupportRuns

def view (runs : CoconutSupportRuns) : List RLEPair :=
  if runs.borrowed.isEmpty then runs.owned else runs.borrowed

def clear (_ : CoconutSupportRuns) : CoconutSupportRuns := ⟨[], []⟩

/-- A run that goes on where the last one ends is joined to it. -/
def append (runs : CoconutSupportRuns) (first last : Nat) : CoconutSupportRuns :=
  match runs.owned.getLast? with
  | some back =>
      if back.start + back.length = first then
        { runs with
          owned := runs.owned.dropLast ++ [{ back with length := back.length + (last - first) }] }
      else { runs with owned := runs.owned ++ [⟨first, last - first⟩] }
  | none => { runs with owned := runs.owned ++ [⟨first, last - first⟩] }

end CoconutSupportRuns

/-- `recovered` is the box a segment was recovered from, which the decoder only forgets. -/
structure CoconutSegmentSupport (B : Type) where
  area : Nat
  bounds : RowMajorMaskBounds
  runs : CoconutSupportRuns
  recovered : Option B
  carved : Bool
  valid : Bool
  deriving DecidableEq, Repr

def CoconutSegmentSupport.create (B : Type) : CoconutSegmentSupport B :=
  ⟨0, {}, ⟨[], []⟩, none, false, true⟩

structure SegmentEntry where
  id : Nat
  index : Nat
  deriving DecidableEq, Repr, Inhabited

structure CoconutImportLimits where
  maxPixels : Nat
  maxSegments : Nat
  maxDimension : Nat
  deriving DecidableEq, Repr

/-- The bytes of an image of three channels, as the decoder of images has them. -/
structure DecodedImage where
  width : Nat
  height : Nat
  pixel : Nat → UInt8

def DecodedImage.idAt (image : DecodedImage) (position : Nat) : Nat :=
  (image.pixel (position * 3)).toNat ||| (image.pixel (position * 3 + 1)).toNat <<< 8 |||
    (image.pixel (position * 3 + 2)).toNat <<< 16

/-- The least power of two that is not less. -/
def bitCeil (value : Nat) : Nat := 2 ^ Nat.clog 2 value

structure CoconutNativeWorkspace (B : Type) where
  segments : List SegmentEntry
  support : List (CoconutSegmentSupport B)
  unlistedSegment : Nat

namespace CoconutNativeWorkspace

variable {B : Type}

def segmentLoop (segments : List SegmentEntry) (id : Nat) : Nat → Nat → Option Nat
  | 0, _ => none
  | fuel + 1, slot =>
      if (segments.getD slot default).id ≠ 0 ∧ (segments.getD slot default).id ≠ id then
        segmentLoop segments id fuel ((slot + 1) &&& (segments.length - 1))
      else some slot

/-- The slot of an id, or where it would be; nothing if the search goes around the table. -/
def segmentEntry (workspace : CoconutNativeWorkspace B) (id : Nat) : Option Nat :=
  segmentLoop workspace.segments id workspace.segments.length
    ((id * 2654435761) &&& (workspace.segments.length - 1))

/-- As many supports as there are segments, at least. -/
def supports (workspace : CoconutNativeWorkspace B) (count : Nat) : CoconutNativeWorkspace B :=
  { workspace with
    support := workspace.support ++
      List.replicate (count - workspace.support.length) (CoconutSegmentSupport.create B) }

def listable (segment : CoconutSegment) : Bool :=
  segment.valid && segment.id ≠ 0 && segment.id ≤ 0xffffff

def resetSupport (support : CoconutSegmentSupport B) (segment : CoconutSegment) :
    CoconutSegmentSupport B :=
  { area := 0
    bounds := {}
    runs := support.runs.clear
    recovered := none
    carved := false
    valid := listable segment }

def invalidate (support : CoconutSegmentSupport B) : CoconutSegmentSupport B :=
  { support with valid := false }

/-- A segment gets an entry, or it and the one that has its id are both invalid. -/
def listSegment (workspace : CoconutNativeWorkspace B) (index : Nat) (segment : CoconutSegment) :
    Except MaskError (CoconutNativeWorkspace B) :=
  let workspace :=
    { workspace with support := workspace.support.modify index (resetSupport · segment) }
  if !listable segment then .ok workspace
  else
    match workspace.segmentEntry segment.id with
    | none => .error (.logic "unfinished")
    | some slot =>
        let entry := workspace.segments.getD slot default
        if entry.id ≠ 0 then
          .ok { workspace with
            support := (workspace.support.modify entry.index invalidate).modify index invalidate }
        else .ok { workspace with segments := workspace.segments.set slot ⟨segment.id, index⟩ }

def listSegments (workspace : CoconutNativeWorkspace B) :
    Nat → List CoconutSegment → Except MaskError (CoconutNativeWorkspace B)
  | _, [] => .ok workspace
  | index, segment :: segments => do
      listSegments (← workspace.listSegment index segment) (index + 1) segments

/-- Where the run of a colour ends, at the end of the row at the latest. -/
def runEnd (image : DecodedImage) (id : Nat) : Nat → Nat → Nat
  | 0, last => last
  | fuel + 1, last => if image.idAt last = id then runEnd image id fuel (last + 1) else last

def includeRun (support : CoconutSegmentSupport B) (isthing : Bool) (first last width : Nat) :
    Except MaskError (CoconutSegmentSupport B) := do
  let bounds ← includeRowMajorMaskRun support.bounds first last width
  return { support with
    area := support.area + (last - first)
    bounds
    runs := if isthing then support.runs.append first last else support.runs }

/-- A run of a colour. -/
def scanRun (workspace : CoconutNativeWorkspace B) (segments : List CoconutSegment)
    (id first last width : Nat) : Except MaskError (CoconutNativeWorkspace B) :=
  if id = 0 then .ok workspace
  else
    match workspace.segmentEntry id with
    | none => .error (.logic "unfinished")
    | some slot =>
        let found := workspace.segments.getD slot default
        if found.id = 0 then
          if workspace.unlistedSegment = 0 then .ok { workspace with unlistedSegment := id }
          else .ok workspace
        else
          match workspace.support[found.index]?, segments[found.index]? with
          | some support, some segment =>
              if !support.valid then .ok workspace
              else do
                let support ← includeRun support segment.isthing first last width
                return { workspace with support := workspace.support.set found.index support }
          | _, _ => .error (.logic "entry")

/-- Every round takes a pixel at least. -/
def scan (segments : List CoconutSegment) (image : DecodedImage) (count : Nat) :
    Nat → Nat → CoconutNativeWorkspace B → Except MaskError (CoconutNativeWorkspace B)
  | 0, first, workspace => if count ≤ first then .ok workspace else .error (.logic "unfinished")
  | fuel + 1, first, workspace =>
      if count ≤ first then .ok workspace
      else do
        let id := image.idAt first
        let rowEnd := min count ((first / image.width + 1) * image.width)
        let last := runEnd image id (rowEnd - (first + 1)) (first + 1)
        scan segments image count fuel last
          (← workspace.scanRun segments id first last image.width)

/-- `image` is what the decoder made of the bytes; it is not cancelled. -/
def decode (workspace : CoconutNativeWorkspace B) (limits : CoconutImportLimits)
    (segments : List CoconutSegment) (image : DecodedImage) (width height : Nat) :
    Except MaskError (CoconutNativeWorkspace B) :=
  if image.width = 0 ∨ image.height = 0 ∨ image.width ≠ width ∨ image.height ≠ height ∨
      limits.maxDimension < width ∨ limits.maxDimension < height ∨
      limits.maxPixels < width * height ∨ 2 ^ 32 - 1 < width * height ∨
      limits.maxSegments < segments.length then
    .error (.runtime "COCONut: decoded PNG dimensions exceed admission")
  else do
    let workspace : CoconutNativeWorkspace B :=
      { segments := List.replicate (bitCeil (max 2 (segments.length * 2))) ⟨0, 0⟩
        support := workspace.support
        unlistedSegment := 0 }
    let listed ← (workspace.supports segments.length).listSegments 0 segments
    scan segments image (width * height) (width * height) 0 listed

end CoconutNativeWorkspace

end Mmltk.Coconut
