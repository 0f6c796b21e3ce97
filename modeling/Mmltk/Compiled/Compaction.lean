import Mmltk.Compiled.Layout
import Mmltk.Foundation.Relocation

namespace Mmltk.Compiled

open Mmltk.Foundation

/-! The index entries that drive a compaction. -/

inductive ImageStatus where
  | inactive
  | eligible
  | unknown (code : Nat)
  deriving DecidableEq, Repr

structure ImageEntry where
  numInstances : Nat
  status : ImageStatus
  labelBytes : Nat
  numRuns : Nat
  deriving DecidableEq, Repr

def ImageEntry.eligible (entry : ImageEntry) : Bool := entry.status = .eligible

/-! The staged file: its length and its bytes. -/

structure StagedFile where
  size : Nat
  byte : Nat → UInt8

structure FileRange where
  offset : Nat
  bytes : Nat
  deriving DecidableEq, Repr

def FileRange.stop (range : FileRange) : Nat := range.offset + range.bytes

namespace StagedFile

/-- Bytes past the end read as zero once the file reaches them. -/
def extend (file : StagedFile) (size : Nat) : StagedFile :=
  { size := max file.size size,
    byte := fun address => if address < file.size then file.byte address else 0 }

/-- `fallocate(fd, 0, …)` over every nonempty range. -/
def allocateRanges (file : StagedFile) : List FileRange → StagedFile
  | [] => file
  | range :: ranges =>
      allocateRanges (if range.bytes = 0 then file else file.extend range.stop) ranges

/-- `FALLOC_FL_PUNCH_HOLE | FALLOC_FL_KEEP_SIZE` over every range. -/
def punchHoles (file : StagedFile) (ranges : List FileRange) : StagedFile :=
  { file with
    byte := fun address =>
      if ranges.any (fun range => range.offset ≤ address ∧ address < range.stop) then 0
      else file.byte address }

def resizeSparse (file : StagedFile) (size : Nat) : StagedFile :=
  { size := size,
    byte := fun address => if address < file.size then file.byte address else 0 }

def pwriteAll (file : StagedFile) (data : Nat → UInt8) (start count target : Nat) : StagedFile :=
  if count = 0 then file
  else
    { size := max file.size (target + count),
      byte := overwrite (file.extend target).byte data target start count }

end StagedFile

/-! What the system around a run decides: cancellation, capacity, hole support, failures.
A run asks with a counter that grows at every question. -/

inductive Admission where
  | allocated
  | occupied
  | insufficient
  | failed
  deriving DecidableEq, Repr

inductive Reclamation where
  | complete
  | unsupported (punched : Nat)
  | failed
  deriving DecidableEq, Repr

structure Environment where
  cancelled : Nat → Bool
  allocation : Nat → Admission
  reclamation : Nat → Reclamation
  transferFails : Nat → Bool

def compiledCompactionScratchBytes : Nat := 4 * 1024 * 1024

structure CapturedLabel where
  source : Nat
  destination : Nat
  bytes : Nat
  scratchOffset : Nat
  deriving DecidableEq, Repr

/-- What the closures of one compaction read. -/
structure Compaction where
  environment : Environment
  staging : FileLayout
  compact : FileLayout
  priorWindow : Nat
  scratchSize : Nat

/-- What they change. -/
structure Mover where
  file : StagedFile
  scratch : Nat → UInt8
  tick : Nat
  reclaimSupported : Bool
  retainedEnd : Nat
  retainedLiveEnd : Nat
  labels : List CapturedLabel
  capturedBytes : Nat

/-- `retained_live_end` and, after it, the page that holds its last byte. -/
def Mover.retain (mover : Mover) (liveEnd : Nat) : Except CompiledError Mover := do
  let retainedEnd ← compiledAlignUp liveEnd pageSize
  .ok { mover with retainedLiveEnd := liveEnd, retainedEnd }

def Environment.checkCancelled (environment : Environment) (tick : Nat) :
    Except CompiledError Nat :=
  if environment.cancelled tick then .error (.runtime "dataset compilation cancelled")
  else .ok (tick + 1)

def destinationRange (destination bytes : Nat) : Except CompiledError FileRange := do
  let start := destination / pageSize * pageSize
  let stop ← compiledAlignUp (destination + bytes) pageSize
  .ok ⟨start, stop - start⟩

namespace Compaction

variable (run : Compaction)

def checkCancelled (mover : Mover) : Except CompiledError Mover := do
  let tick ← run.environment.checkCancelled mover.tick
  .ok { mover with tick }

def reclaim (ranges : List FileRange) (mover : Mover) : Except CompiledError Mover :=
  if mover.reclaimSupported = false ∨ ranges = [] then .ok mover
  else do
    let mover ← run.checkCancelled mover
    match run.environment.reclamation mover.tick with
    | .complete =>
        .ok { mover with file := mover.file.punchHoles ranges, tick := mover.tick + 1 }
    | .unsupported punched =>
        .ok { mover with
          file := mover.file.punchHoles (ranges.take punched)
          tick := mover.tick + 1
          reclaimSupported := false }
    | .failed => .error (.runtime "file extent reclaim failed")

def reclaimBetween (start stop : Nat) (mover : Mover) : Except CompiledError Mover := do
  let start ← compiledAlignUp start pageSize
  let stop := stop / pageSize * pageSize
  if start < stop then run.reclaim [⟨start, stop - start⟩] mover else .ok mover

/-- `allocate`, with `InsufficientStorage` as the answer `false`. -/
def tryAllocate (ranges : List FileRange) (mover : Mover) :
    Except CompiledError (Bool × Mover) :=
  if ranges = [] then .ok (true, mover)
  else do
    let mover ← run.checkCancelled mover
    match run.environment.allocation mover.tick with
    | .allocated =>
        .ok (true,
          { mover with file := mover.file.allocateRanges ranges, tick := mover.tick + 1 })
    | .occupied => .ok (true, { mover with tick := mover.tick + 1 })
    | .insufficient => .ok (false, { mover with tick := mover.tick + 1 })
    | .failed => .error (.runtime "file extent allocation failed")

def allocate (ranges : List FileRange) (mover : Mover) : Except CompiledError Mover := do
  let (admitted, mover) ← run.tryAllocate ranges mover
  if admitted then .ok mover else .error .insufficientStorage

def read (source offset bytes : Nat) (mover : Mover) : Except CompiledError Mover := do
  let mover ← run.checkCancelled mover
  let stop ← checkedAdd source bytes "pread extent overflow"
  let _ ← checkedCast (2 ^ 63 - 1) stop "pread extent overflow"
  if run.environment.transferFails mover.tick then .error (.runtime "pread failed")
  else if bytes ≠ 0 ∧ mover.file.size < stop then
    .error (.runtime "unexpected EOF during pread")
  else
    .ok { mover with
      scratch := overwrite mover.scratch mover.file.byte offset source bytes
      tick := mover.tick + 1 }

def write (destination offset bytes : Nat) (mover : Mover) : Except CompiledError Mover := do
  let mover ← run.checkCancelled mover
  let stop ← checkedAdd destination bytes "pwritev extent overflow"
  let _ ← checkedCast (2 ^ 63 - 1) stop "pwritev extent overflow"
  if run.environment.transferFails mover.tick then .error (.runtime "pwritev failed")
  else
    .ok { mover with
      file := mover.file.pwriteAll mover.scratch offset bytes destination
      tick := mover.tick + 1 }

/-- After a refused batch, each part is allocated on its own. -/
def admitPart (admitted : Bool) (destination bytes : Nat) (mover : Mover) :
    Except CompiledError Mover :=
  if admitted then .ok mover
  else do
    let part ← destinationRange destination bytes
    run.allocate [part] mover

/-! Moving a run of pixels through the scratch window. -/

def commitCount (admitted : Bool) (size committed : Nat) : Nat :=
  if admitted then size else min run.priorWindow (size - committed)

/-- The inner loop: the captured window goes out whole, or at the prior window size. -/
def commitPixels (source destination offset size : Nat) (admitted : Bool) :
    Nat → Nat → Mover → Except CompiledError Mover
  | 0, _, mover => .ok mover
  | fuel + 1, committed, mover =>
      if committed < size then do
        let count := run.commitCount admitted size committed
        let mover ← run.admitPart admitted (destination + offset + committed) count mover
        let mover ← run.write (destination + offset + committed) committed count mover
        let stop := offset + committed + count
        let placedEnd ← compiledAlignUp (destination + stop) pageSize
        let mover ←
          run.reclaimBetween (max (source + offset + committed) placedEnd) (source + stop) mover
        commitPixels source destination offset size admitted fuel (committed + count) mover
      else .ok mover

/-- The outer loop: a complete source window is captured before any write. -/
def transferPixels (source destination bytes : Nat) :
    Nat → Nat → Mover → Except CompiledError Mover
  | 0, _, mover => .ok mover
  | fuel + 1, offset, mover =>
      if offset < bytes then do
        let size := min run.scratchSize (bytes - offset)
        let mover ← run.read (source + offset) 0 size mover
        let full ← destinationRange (destination + offset) size
        let (admitted, mover) ← run.tryAllocate [full] mover
        if admitted = false ∧ size ≤ run.priorWindow then .error .insufficientStorage
        else do
          let mover ←
            run.commitPixels source destination offset size admitted size 0 mover
          transferPixels source destination bytes fuel (offset + size) mover
      else .ok mover

def movePixels (source destination bytes : Nat) (mover : Mover) :
    Except CompiledError Mover := do
  let mover ← run.checkCancelled mover
  if source < destination ∨ destination < mover.retainedLiveEnd then
    .error (.logic "compiled compaction extent order is invalid")
  else do
    let mover ← run.reclaimBetween mover.retainedEnd destination mover
    let mover ←
      (if source = destination then .ok mover
      else if run.scratchSize = 0 then
        .error (.logic "compiled compaction scratch was not prepared")
      else run.transferPixels source destination bytes bytes 0 mover)
    mover.retain (destination + bytes)

/-! Flushing the queue of labels. -/

/-- What the first pass over the queue collects. -/
structure Gathered where
  destinations : List FileRange
  gaps : List FileRange
  committedEnd : Nat

/-- A label that moves is read, and its destination is to be allocated. -/
def captureLabel (label : CapturedLabel) (destinations : List FileRange) (mover : Mover) :
    Except CompiledError (List FileRange × Mover) :=
  if label.source ≠ label.destination then do
    let mover ← run.read label.source label.scratchOffset label.bytes mover
    let range ← destinationRange label.destination label.bytes
    .ok (destinations ++ [range], mover)
  else .ok (destinations, mover)

def gatherLabels (unreadSource : Nat) :
    List CapturedLabel → Gathered → Mover → Except CompiledError (Gathered × Mover)
  | [], gathered, mover => .ok (gathered, mover)
  | label :: rest, gathered, mover => do
      let mover ← run.checkCancelled mover
      if unreadSource < label.source + label.bytes ∨ label.source < label.destination ∨
          label.destination < gathered.committedEnd then
        .error (.logic "compiled label extent order is invalid")
      else do
        let (destinations, mover) ← run.captureLabel label gathered.destinations mover
        let gaps :=
          if gathered.committedEnd < label.destination then
            gathered.gaps ++ [⟨gathered.committedEnd, label.destination - gathered.committedEnd⟩]
          else gathered.gaps
        let committedEnd ← compiledAlignUp (label.destination + label.bytes) pageSize
        gatherLabels unreadSource rest ⟨destinations, gaps, committedEnd⟩ mover

def placeLabel (admitted : Bool) (label : CapturedLabel) (mover : Mover) :
    Except CompiledError Mover :=
  if label.source = label.destination then .ok mover
  else do
    let mover ← run.admitPart admitted label.destination label.bytes mover
    run.write label.destination label.scratchOffset label.bytes mover

def placeLabels (sourceBegin : Nat) (admitted : Bool) :
    List CapturedLabel → Mover → Except CompiledError Mover
  | [], mover => .ok mover
  | label :: rest, mover => do
      let mover ← run.placeLabel admitted label mover
      let mover ← mover.retain (label.destination + label.bytes)
      let mover ←
        (if admitted then .ok mover
        else
          run.reclaimBetween (max sourceBegin mover.retainedEnd) (label.source + label.bytes)
            mover)
      placeLabels sourceBegin admitted rest mover

def flushLabels (unreadSource : Nat) (mover : Mover) : Except CompiledError Mover :=
  match mover.labels with
  | [] => .ok mover
  | first :: rest => do
      let (gathered, mover) ←
        run.gatherLabels unreadSource (first :: rest) ⟨[], [], mover.retainedEnd⟩ mover
      let (admitted, mover) ← run.tryAllocate gathered.destinations mover
      let mover ← run.reclaim gathered.gaps mover
      let mover ← run.placeLabels first.source admitted (first :: rest) mover
      let last := (first :: rest).getLast (List.cons_ne_nil _ _)
      let mover ←
        (if admitted then
          run.reclaimBetween (max first.source mover.retainedEnd) (last.source + last.bytes) mover
        else .ok mover)
      .ok { mover with labels := [], capturedBytes := 0 }

/-! One block: its pixel runs, then its labels. -/

variable (entries : List ImageEntry)

def eligibleAt (image : Nat) : Bool :=
  match entries[image]? with
  | some entry => entry.eligible
  | none => false

/-- The inner `while`: unpadded pixels of adjacent eligible slots form one run. -/
def runEnd (stop : Nat) : Nat → Nat → Nat
  | 0, image => image
  | fuel + 1, image =>
      if run.staging.pixelPitch = run.staging.imageStride ∧ image < stop ∧
          eligibleAt entries image then
        runEnd stop fuel (image + 1)
      else image

def pixelLoop (stop : Nat) : Nat → Nat → Mover → Except CompiledError Mover
  | 0, _, mover => .ok mover
  | fuel + 1, image, mover =>
      if image < stop then
        if eligibleAt entries image = false then pixelLoop stop fuel (image + 1) mover
        else do
          let start := image
          let image := run.runEnd entries stop (stop - (start + 1)) (start + 1)
          let slot ← checkedCast (2 ^ 32 - 1) start "compiled compaction slot overflow"
          let source ← run.staging.pixelOffset slot
          let destination ← run.compact.pixelOffset slot
          let bytes ← checkedMultiply (image - start) run.staging.imageStride
            "compiled pixel extent overflow"
          let mover ← run.movePixels source destination bytes mover
          pixelLoop stop fuel image mover
      else .ok mover

def queueLabel (image bytes : Nat) (mover : Mover) : Except CompiledError Mover := do
  let slot ← checkedCast (2 ^ 32 - 1) image "compiled compaction slot overflow"
  let source ← run.staging.labelOffset slot
  let destination ← run.compact.labelOffset slot
  let capture := if source = destination then 0 else bytes
  let mover ←
    (if run.scratchSize - mover.capturedBytes < capture then run.flushLabels source mover
    else .ok mover)
  if run.scratchSize < capture then
    .error (.logic "compiled label capture exceeds scratch")
  else
    .ok { mover with
      labels := mover.labels ++ [⟨source, destination, bytes, mover.capturedBytes⟩]
      capturedBytes := mover.capturedBytes + capture }

def labelLoop (stop : Nat) : Nat → Nat → Mover → Except CompiledError Mover
  | 0, _, mover => .ok mover
  | fuel + 1, image, mover =>
      if image < stop then
        match entries[image]? with
        | none => .error (.outOfRange "compiled compaction entry")
        | some entry =>
            if entry.eligible = false ∨ entry.labelBytes = 0 then
              labelLoop stop fuel (image + 1) mover
            else do
              let mover ← run.queueLabel image entry.labelBytes mover
              labelLoop stop fuel (image + 1) mover
      else .ok mover

def moveBlock (block : Nat) (mover : Mover) : Except CompiledError Mover := do
  let first := block * compiledBlockSlots
  let stop := min (first + compiledBlockSlots) entries.length
  let mover ← run.pixelLoop entries stop (stop - first) first mover
  let mover ← run.labelLoop entries stop (stop - first) first mover
  let unread ← run.staging.blockOffset (block + 1)
  run.flushLabels unread mover

def blockLoop : Nat → Nat → Mover → Except CompiledError Mover
  | 0, _, mover => .ok mover
  | remaining + 1, block, mover => do
      let mover ← run.moveBlock entries block mover
      blockLoop remaining (block + 1) mover

/-- Everything after the scratch is at hand. -/
def relocate (mover : Mover) : Except CompiledError Mover := do
  let mover ← run.blockLoop entries run.staging.blockCount 0 mover
  let mover ← run.reclaimBetween mover.retainedEnd run.compact.indexOffset mover
  let mover ← run.checkCancelled mover
  if run.environment.transferFails mover.tick then
    .error (.runtime "sparse file resize failed")
  else .ok { mover with file := mover.file.resizeSparse run.compact.totalSize }

end Compaction

/-! The entry check that yields the largest label and the live bytes. -/

structure LiveExtent where
  maximum : Nat
  total : Nat
  deriving DecidableEq, Repr

def admitEntry (staging : FileLayout) (measured : Bool) (entry : ImageEntry)
    (extent : LiveExtent) : Except CompiledError LiveExtent :=
  if entry.eligible = false then
    if entry.status ≠ .inactive ∨ entry.labelBytes ≠ 0 ∨ entry.numInstances ≠ 0 ∨
        entry.numRuns ≠ 0 then
      .error (.runtime "invalid inactive compaction slot")
    else .ok extent
  else do
    let layout ← annotationLayout entry.numInstances entry.numRuns compiledLabelLimit 0
    if entry.labelBytes < layout.usedBytes ∨ entry.labelBytes % rlePairBytes ≠ 0 ∨
        staging.labelCapacity < entry.labelBytes then
      .error (.runtime "compiled compaction label extent differs")
    else do
      let total ←
        (if measured then do
          let sample ← checkedAdd staging.imageStride entry.labelBytes
            "compiled compaction sample overflow"
          checkedAdd extent.total sample "compiled compaction total overflow"
        else .ok extent.total)
      .ok ⟨max extent.maximum entry.labelBytes, total⟩

def admitEntries (environment : Environment) (staging : FileLayout) (measured : Bool) :
    List ImageEntry → Nat → LiveExtent → Nat → Except CompiledError (LiveExtent × Nat)
  | [], _, extent, tick => .ok (extent, tick)
  | entry :: rest, slot, extent, tick => do
      let tick ← (if slot % 4096 = 0 then environment.checkCancelled tick else .ok tick)
      let extent ← admitEntry staging measured entry extent
      admitEntries environment staging measured rest (slot + 1) extent tick

/-- `supplied` is the size of the caller's scratch; `measured` says that a progress or
an observer callback wants the live total. -/
def compactCompiledFile (environment : Environment) (file : StagedFile) (staging : FileLayout)
    (entries : List ImageEntry) (measured : Bool) (supplied : Nat) (scratch : Nat → UInt8) :
    Except CompiledError (FileLayout × StagedFile) :=
  if entries.length ≠ staging.numSlots ∨ file.size < staging.indexOffset then
    .error (.runtime "compiled compaction staging extent differs")
  else do
    let (extent, tick) ← admitEntries environment staging measured entries 0 ⟨0, 0⟩ 0
    let compact ← computeFileLayout staging.numSlots staging.imageStride extent.maximum
      staging.catalogBytes
    if staging.totalSize < compact.totalSize then
      .error (.logic "compiled compaction cannot grow its layout")
    else do
      let priorWindow ←
        (if compact.labelPitch = staging.labelPitch then .ok 0
        else do
          let window ← compiledAlignUp (max staging.imageStride extent.maximum) pageSize
          .ok (min compiledCompactionScratchBytes window))
      let available := if priorWindow ≠ 0 ∧ supplied = 0 then priorWindow else supplied
      if available < priorWindow then
        .error (.length "compiled compaction scratch is too small")
      else do
        let scratchSize :=
          if priorWindow = 0 then 0 else min available compiledCompactionScratchBytes
        let run : Compaction := { environment, staging, compact, priorWindow, scratchSize }
        let mover ← run.relocate entries
          { file, scratch, tick, reclaimSupported := true,
            retainedEnd := compact.dataOffset, retainedLiveEnd := compact.dataOffset,
            labels := [], capturedBytes := 0 }
        .ok (compact, mover.file)

end Mmltk.Compiled
