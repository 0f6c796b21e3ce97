import Mmltk.Storage.FileHandle
import Mmltk.Storage.OccupiedRanges

namespace Mmltk.Storage

open Mmltk.Foundation

/-! A staged file, the reservation its storage is charged to, and what is known of its backing. -/

structure StagedArtifact where
  ledgers : Ledgers
  /-- The address of `allocation_`. -/
  allocation : Nat
  occupied : List Interval
  file : File

inductive StagedFailure where
  | raised (failure : FileFailure)
  /-- Extracting a node from an empty map, which is undefined. -/
  | extraction
  deriving DecidableEq, Repr

/-- `fstat`: an error, or the blocks the file has beyond those of its allocated pages. -/
abbrev Fstat := Except Nat Nat

def blockBytes : Nat := 512

namespace StagedArtifact

abbrev Call := Transaction StagedArtifact StagedFailure

def reservation (artifact : StagedArtifact) : Reservation :=
  artifact.ledgers.reservations.get artifact.allocation

def onFile {α : Type} (code : FileHandle.Call α) : Call α :=
  code.focus (fun artifact => artifact.file) (fun artifact file => { artifact with file := file })
    .raised

/-- An operation of `allocation_`. -/
def onAllocation (operation : Ledgers → Nat → Settled) : Call Unit := fun artifact =>
  let settled := operation artifact.ledgers artifact.allocation
  ({ artifact with ledgers := settled.ledgers },
    match settled.failure with
    | none => .ok ()
    | some failure => .error (.raised (.storage failure)))

def checked {α : Type} (result : Except StorageFailure α) : Call α :=
  .lift (result.mapError fun failure => .raised (.storage failure))

def cancelIf (cancelled : Bool) (message : String) : Call Unit :=
  if cancelled then .fail (.raised (.runtime message)) else pure ()

def clearOccupied : Call Unit := .modify fun artifact => { artifact with occupied := [] }

def statusOf (file : File) (fstat : Fstat) : FileStatus :=
  fstat.map fun extra => (true, file.allocated.card * (pageBytes / blockBytes) + extra)

/-- `StorageReservationPool::allocated_bytes(file_.get())` -/
def inspectAllocated (fstat : Fstat) : Call Nat :=
  .read >>= fun artifact => checked (Ledgers.allocatedBytes (statusOf artifact.file fstat))

def reconcileLocked (fstat : Fstat) : Call Nat := do
  let allocated ← inspectAllocated fstat
  onAllocation fun ledgers id => ledgers.reconcileAllocated id allocated
  return allocated

def withdrawAllocation : Call Unit := onAllocation fun ledgers id => ledgers.withdrawAllocation id

def resizeAllocation (promised : Nat) (description : String) (volume : VolumeStatus) : Call Unit :=
  onAllocation fun ledgers id => ledgers.resize id promised description volume

def preallocate (bytes : Nat) (volume : VolumeStatus) (answer : Fallocate) (resized : Ftruncate)
    (fstat : Fstat) : Call Unit := do
  onAllocation fun ledgers id => ledgers.grow id bytes "staged allocation" volume
  withdrawAllocation
  clearOccupied
  onFile (FileHandle.preallocate bytes answer resized)
  let _ ← reconcileLocked fstat
  return ()

def resize (bytes : Nat) (description : String) (before : Fstat) (volume : VolumeStatus)
    (shortened : Ftruncate) (answer : Fallocate) (resized : Ftruncate) (fstat : Fstat) :
    Call Unit := do
  let _ ← reconcileLocked before
  resizeAllocation bytes description volume
  withdrawAllocation
  clearOccupied
  onFile (FileHandle.resizeSparse bytes shortened)
  (if bytes ≠ 0 then onFile (FileHandle.preallocate bytes answer resized) else pure ())
  let _ ← reconcileLocked fstat
  return ()

/-- A change of the map, `none` where it would extract a node from an empty one. -/
def changeOccupied (change : List Interval → Option (List Interval × Nat)) : Call Nat :=
  .read >>= fun artifact =>
    match change artifact.occupied with
    | none => .fail .extraction
    | some (occupied, prepared) =>
        .modify (fun artifact => { artifact with occupied := occupied }) >>= fun _ => pure prepared

def resizeSparse (bytes : Nat) (resized : Ftruncate) (fstat : Fstat) (volume : VolumeStatus) :
    Call Unit := do
  let occupiedEnd ← checked (pageCeil bytes "staged page extent overflow")
  withdrawAllocation
  onFile (FileHandle.resizeSparse bytes resized)
  let _ ← changeOccupied fun occupied => forgetRange occupiedEnd (wordLimit - 1) occupied 0
  let allocated ← reconcileLocked fstat
  resizeAllocation allocated "sparse staged allocation" volume

/-- How much of a range the map does not cover. -/
def missingBytes (occupied : List Interval) (range : FileRange) : Nat :=
  let last := range.offset + range.bytes
  let overlapping := (seek range.offset (fun reach => reach > range.offset) occupied).2.takeWhile
    fun covered => covered.1 < last
  overlapping.foldl (fun missing covered =>
    wordSub missing (wordSub (min last covered.2) (max range.offset covered.1))) range.bytes

/-- The loop that leaves the ranges with something missing. -/
def uncoveredRanges (occupied : List Interval) (uncovered : Nat) :
    List FileRange → Except StorageFailure (Nat × List FileRange)
  | [] => .ok (uncovered, [])
  | range :: rest => do
      let missing := missingBytes occupied range
      if missing = 0 then uncoveredRanges occupied uncovered rest
      else
        let uncovered ← checkedAdd uncovered missing "staged uncovered extent overflow"
        let result ← uncoveredRanges occupied uncovered rest
        return (result.1, range :: result.2)

def occupyRanges (prepared : Nat) : List FileRange → Call Unit
  | [] => return ()
  | range :: rest => do
      let last ← checked range.last
      let left ← changeOccupied fun occupied => occupyRange range.offset last occupied prepared
      occupyRanges left rest

def allocateRanges (input : List FileRange) (cancelled : Bool) (before : Fstat)
    (admitted : VolumeStatus) (answers : Nat → Fallocate) (fstat : Fstat) (volume : VolumeStatus) :
    Call Unit := do
  let normalized ← checked (FileHandle.normalizeRanges input .coverPages)
  if normalized = [] then return ()
  let artifact ← Transaction.read
  let missing ← checked (uncoveredRanges artifact.occupied 0 normalized)
  if missing.2 = [] then return ()
  cancelIf cancelled "staged allocation cancelled"
  let allocated ← inspectAllocated before
  onAllocation fun ledgers id =>
    ledgers.reserveGrowth id allocated missing.1 "occupied staged extent" admitted
  onFile (FileHandle.allocateRanges missing.2 answers)
  occupyRanges missing.2.length missing.2
  let allocated ← reconcileLocked fstat
  resizeAllocation allocated "occupied staged allocation" volume

/-- The `forget` of `reclaim_ranges`: of every range the pages inside it. -/
def forgetRanges (prepared : Nat) : List FileRange → Call Unit
  | [] => return ()
  | range :: rest => do
      let first ← checked (pageCeil range.offset "staged reclaim page overflow")
      let last ← checked range.last
      let left ← changeOccupied fun occupied =>
        forgetRange first (last / pageBytes * pageBytes) occupied prepared
      forgetRanges left rest

def reclaimRanges (input : List FileRange) (cancelled : Bool) (answers : Nat → PunchHole)
    (fstat : Fstat) (volume : VolumeStatus) : Call Bool := do
  let normalized ← checked (FileHandle.normalizeRanges input .exact)
  if normalized = [] then return true
  cancelIf cancelled "staged reclamation cancelled"
  withdrawAllocation
  let reclaimed ← (onFile (FileHandle.punchHoles normalized answers)).onFailure
    (forgetRanges normalized.length normalized)
  forgetRanges normalized.length (normalized.take reclaimed.2)
  let allocated ← reconcileLocked fstat
  resizeAllocation allocated "reclaimed staged allocation" volume
  return reclaimed.1

def reconcile (fstat : Fstat) : Call Unit := do
  let _ ← reconcileLocked fstat
  return ()

end StagedArtifact

/-! Calls, each with what the system answers to it. -/

inductive StagedCall where
  | preallocate (bytes : Nat) (volume : VolumeStatus) (answer : Fallocate) (resized : Ftruncate)
      (fstat : Fstat)
  | resize (bytes : Nat) (description : String) (before : Fstat) (volume : VolumeStatus)
      (shortened : Ftruncate) (answer : Fallocate) (resized : Ftruncate) (fstat : Fstat)
  | resizeSparse (bytes : Nat) (resized : Ftruncate) (fstat : Fstat) (volume : VolumeStatus)
  | allocateRanges (input : List FileRange) (cancelled : Bool) (before : Fstat)
      (admitted : VolumeStatus) (answers : Nat → Fallocate) (fstat : Fstat) (volume : VolumeStatus)
  | reclaimRanges (input : List FileRange) (cancelled : Bool) (answers : Nat → PunchHole)
      (fstat : Fstat) (volume : VolumeStatus)
  | reconcile (fstat : Fstat)

namespace StagedCall

open StagedArtifact

/-- `allocate_range` -/
def allocateRange (offset bytes : Nat) : Fstat → VolumeStatus → (Nat → Fallocate) → Fstat →
    VolumeStatus → StagedCall :=
  .allocateRanges [⟨offset, bytes⟩] false

/-- `reclaim_range` -/
def reclaimRange (offset bytes : Nat) : (Nat → PunchHole) → Fstat → VolumeStatus → StagedCall :=
  .reclaimRanges [⟨offset, bytes⟩] false

/-- Nothing has been granted to the call when it starts. -/
def begin (artifact : StagedArtifact) : StagedArtifact :=
  { artifact with file := { artifact.file with granted := ∅ } }

def code : StagedCall → Call Unit
  | .preallocate bytes volume answer resized fstat =>
      StagedArtifact.preallocate bytes volume answer resized fstat
  | .resize bytes description before volume shortened answer resized fstat =>
      StagedArtifact.resize bytes description before volume shortened answer resized fstat
  | .resizeSparse bytes resized fstat volume =>
      StagedArtifact.resizeSparse bytes resized fstat volume
  | .allocateRanges input cancelled before admitted answers fstat volume =>
      StagedArtifact.allocateRanges input cancelled before admitted answers fstat volume
  | .reclaimRanges input cancelled answers fstat volume =>
      StagedArtifact.reclaimRanges input cancelled answers fstat volume >>= fun _ => pure ()
  | .reconcile fstat => StagedArtifact.reconcile fstat

def run (call : StagedCall) (artifact : StagedArtifact) :
    StagedArtifact × Except StagedFailure Unit :=
  call.code (begin artifact)

/-- The `fstat` a call settles with. -/
def settlement : StagedCall → Fstat
  | .preallocate _ _ _ _ fstat => fstat
  | .resize _ _ _ _ _ _ _ fstat => fstat
  | .resizeSparse _ _ fstat _ => fstat
  | .allocateRanges _ _ _ _ _ fstat _ => fstat
  | .reclaimRanges _ _ _ fstat _ => fstat
  | .reconcile fstat => fstat

end StagedCall

namespace StagedArtifact

/-- Just created: a reservation with nothing allocated and an empty file. -/
structure Created (artifact : StagedArtifact) : Prop where
  reserved : artifact.reservation.destination.isSome
  allocated : artifact.reservation.allocated = 0
  occupied : artifact.occupied = []
  size : artifact.file.size = 0
  file : artifact.file.allocated = ∅

/-- Calls that succeed or fail.  Between them writes through the descriptor add pages and length,
and other reservations use the same ledgers. -/
inductive Reachable : StagedArtifact → Prop
  | created {artifact : StagedArtifact} (h : artifact.Created) : Reachable artifact
  | call {artifact : StagedArtifact} (call : StagedCall) (h : Reachable artifact) :
      Reachable (call.run artifact).1
  | write {artifact : StagedArtifact} (size : Nat) (pages : Finset Nat) (h : Reachable artifact)
      (hsize : artifact.file.size ≤ size) (hbounded : size < offsetLimit) :
      Reachable { artifact with
        file := { artifact.file with
          size := size
          allocated := artifact.file.allocated ∪ pages } }
  | others {artifact : StagedArtifact} (ledgers : Ledgers) (h : Reachable artifact)
      (hsame : ledgers.reservations.get artifact.allocation = artifact.reservation) :
      Reachable { artifact with ledgers := ledgers }

end StagedArtifact

end Mmltk.Storage
