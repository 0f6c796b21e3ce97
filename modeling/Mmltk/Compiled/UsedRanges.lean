import Mmltk.Compiled.Compaction
import Mmltk.Foundation.ByteCopies

namespace Mmltk.Compiled

open Mmltk.Foundation

/-! The ranges of a compiled file that a list of image reads uses, cut at chunk limits. -/

def readChunkBytes : Nat := 16 * 1024 * 1024

structure CompiledImageRead where
  index : Nat
  destinationOffset : Nat
  deriving DecidableEq, Repr

inductive ReadSection where
  | labels
  | pixels
  deriving DecidableEq, Repr

structure UsedRange where
  readSection : ReadSection
  sourceOffset : Nat
  destinationOffset : Nat
  bytes : Nat
  deriving DecidableEq, Repr

/-- An opened file: its layout, its resident index, and the mapping of its bytes. -/
structure CompiledDataset where
  layout : FileLayout
  imageEntries : List ImageEntry
  mappingSize : Nat
  mapping : Nat → UInt8

namespace CompiledDataset

def eligible (dataset : CompiledDataset) (slot : Nat) : Bool :=
  dataset.imageEntries[slot]?.any ImageEntry.eligible

def imageEntry (dataset : CompiledDataset) (slot : Nat) : Except CompiledError ImageEntry :=
  match dataset.imageEntries[slot]? with
  | some entry =>
      if entry.eligible then .ok entry
      else .error (.outOfRange "compiled image slot is not eligible")
  | none => .error (.outOfRange "compiled image slot is not eligible")

end CompiledDataset

/-- `active` as long as `source_` is set. -/
structure UsedRangeCursor where
  active : Bool
  reads : List CompiledImageRead
  labelPitch : Nat
  image : Nat
  offset : Nat
  readSection : ReadSection
  advice : Bool
  deriving DecidableEq, Repr

/-- A number of 64 bits. -/
def wrapped (value : Nat) : Nat := value % 2 ^ 64

namespace UsedRangeCursor

variable (dataset : CompiledDataset)

def empty (cursor : UsedRangeCursor) : Bool := !cursor.active

/-- Images without labels, and in advice those that repeat the image before. -/
def skipsImage (cursor : UsedRangeCursor) (read : CompiledImageRead) :
    Except CompiledError Bool := do
  let entry ← dataset.imageEntry read.index
  return (cursor.readSection = .labels && entry.labelBytes = 0) ||
    (cursor.advice && cursor.offset = 0 && cursor.image ≠ 0 &&
      (cursor.reads[cursor.image - 1]?.any fun previous => previous.index = read.index))

/-- The next image of the section that is not skipped, if one of `remaining` images is. -/
def skipImages : Nat → UsedRangeCursor → Except CompiledError UsedRangeCursor
  | 0, cursor => .ok cursor
  | remaining + 1, cursor =>
      match cursor.reads[cursor.image]? with
      | none => .ok cursor
      | some read => do
          if ← skipsImage dataset cursor read then
            skipImages remaining { cursor with image := cursor.image + 1 }
          else return cursor

/-- Labels first, then pixels, then nothing more. -/
def normalize (cursor : UsedRangeCursor) : Except CompiledError UsedRangeCursor :=
  if !cursor.active then .ok cursor
  else do
    let cursor ← skipImages dataset (cursor.reads.length - cursor.image) cursor
    if cursor.image ≠ cursor.reads.length then return cursor
    else if cursor.readSection = .pixels then return { cursor with active := false }
    else
      let cursor ← skipImages dataset cursor.reads.length
        { cursor with readSection := .pixels, image := 0, offset := 0 }
      return { cursor with active := cursor.image ≠ cursor.reads.length }

/-- The size of the section of an image, and where it is and goes. -/
def piece (cursor : UsedRangeCursor) (read : CompiledImageRead) :
    Except CompiledError (Nat × Nat × Nat) :=
  match cursor.readSection with
  | .labels => do
      let entry ← dataset.imageEntry read.index
      let source ← dataset.layout.labelOffset read.index
      let destination ←
        checkedMultiply (read.destinationOffset / dataset.layout.imageStride) cursor.labelPitch
          "compiled label destination overflow"
      return (entry.labelBytes, source, destination)
  | .pixels => do
      let source ← dataset.layout.pixelOffset read.index
      return (dataset.layout.imageStride, source, read.destinationOffset)

/-- A range does not go on where the next piece is. -/
def breaks (cursor : UsedRangeCursor) (result : UsedRange) (source destination : Nat) : Bool :=
  result.readSection ≠ cursor.readSection || result.sourceOffset + result.bytes ≠ source ||
    (!cursor.advice && wrapped (result.destinationOffset + result.bytes) ≠ destination)

def extended (cursor : UsedRangeCursor) (result : Option UsedRange)
    (source destination bytes : Nat) : UsedRange :=
  match result with
  | some range => { range with bytes := range.bytes + bytes }
  | none => ⟨cursor.readSection, source, destination, bytes⟩

/-- Every round takes a byte, so `fuel` rounds are enough for a limit of as many. -/
def nextLoop (limit : Nat) :
    Nat → Option UsedRange → UsedRangeCursor →
      Except CompiledError (Option UsedRange × UsedRangeCursor)
  | 0, _, _ => .error (.logic "unfinished")
  | fuel + 1, result, cursor =>
      match cursor.reads[cursor.image]? with
      | none => .ok (result, cursor)
      | some read =>
          if !cursor.active then .ok (result, cursor)
          else do
            let (size, sourceBase, destinationBase) ← piece dataset cursor read
            let source := sourceBase + cursor.offset
            let destination := wrapped (destinationBase + cursor.offset)
            if result.any fun range => breaks cursor range source destination then
              return (result, cursor)
            else
              let bytes := min (size - cursor.offset) (limit - (result.elim 0 UsedRange.bytes))
              let range := extended cursor result source destination bytes
              let offset := cursor.offset + bytes
              let cursor ← normalize dataset
                (if offset = size then { cursor with image := cursor.image + 1, offset := 0 }
                else { cursor with offset })
              if range.bytes = limit then return (some range, cursor)
              else nextLoop limit fuel (some range) cursor

def next (limit : Nat) (cursor : UsedRangeCursor) :
    Except CompiledError (Option UsedRange × UsedRangeCursor) :=
  if limit = 0 ∨ readChunkBytes < limit then
    .error (.invalidArgument "compiled read chunk limit is invalid")
  else nextLoop dataset limit (limit + 1) none cursor

/-- The ranges of one limit after the other. -/
def drain (cursor : UsedRangeCursor) :
    List Nat → Except CompiledError (List (Option UsedRange) × UsedRangeCursor)
  | [] => .ok ([], cursor)
  | limit :: rest => do
      let (range, cursor) ← next dataset limit cursor
      let (ranges, cursor) ← drain cursor rest
      return (range :: ranges, cursor)

end UsedRangeCursor

namespace CompiledDataset

variable (dataset : CompiledDataset)

def usedRanges (reads : List CompiledImageRead) (labelPitch : Option Nat) (advice : Bool) :
    Except CompiledError UsedRangeCursor :=
  UsedRangeCursor.normalize dataset
    { active := true
      reads
      labelPitch := labelPitch.getD 0
      image := 0
      offset := 0
      readSection := if labelPitch.isSome then .labels else .pixels
      advice }

/-- `capacity` is the destination's size. -/
def gatherRange (capacity : Nat) (memory : Nat → UInt8) (range : UsedRange) :
    Except CompiledError (Nat → UInt8) :=
  if dataset.mappingSize < range.sourceOffset ∨
      dataset.mappingSize - range.sourceOffset < range.bytes ∨
      capacity < range.destinationOffset ∨
      capacity - range.destinationOffset < range.bytes then
    .error (.outOfRange "compiled read exceeds source or destination")
  else
    .ok (overwrite memory dataset.mapping range.destinationOffset range.sourceOffset range.bytes)

/-- Advice has no effect but on the mapping's residence. -/
def adviseLoop : Nat → UsedRangeCursor → Except CompiledError Unit
  | 0, _ => .error (.logic "unfinished")
  | fuel + 1, cursor => do
      match ← UsedRangeCursor.next dataset readChunkBytes cursor with
      | (none, _) => return ()
      | (some _, cursor) => adviseLoop fuel cursor

def gatherLoop (capacity : Nat) :
    Nat → UsedRangeCursor → (Nat → UInt8) → Except CompiledError (Nat → UInt8)
  | 0, _, _ => .error (.logic "unfinished")
  | fuel + 1, cursor, memory => do
      match ← UsedRangeCursor.next dataset readChunkBytes cursor with
      | (none, _) => return memory
      | (some range, cursor) =>
          gatherLoop capacity fuel cursor (← dataset.gatherRange capacity memory range)

/-- A read that is not cancelled. -/
def readImages (reads : List CompiledImageRead) (capacity : Nat) (memory : Nat → UInt8) :
    Except CompiledError (Nat → UInt8) :=
  if reads.any fun read => !dataset.eligible read.index || capacity < read.destinationOffset ||
      capacity - read.destinationOffset < dataset.layout.imageStride then
    .error (.outOfRange "compiled image read exceeds source or destination")
  else do
    let fuel := reads.length * dataset.layout.imageStride + 1
    dataset.adviseLoop fuel (← dataset.usedRanges reads none true)
    dataset.gatherLoop capacity fuel (← dataset.usedRanges reads none false) memory

end CompiledDataset

end Mmltk.Compiled
