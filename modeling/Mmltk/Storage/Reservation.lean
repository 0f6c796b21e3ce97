import Mmltk.Foundation.Store

namespace Mmltk.Storage

open Mmltk.Foundation

/-! Unsigned 64-bit arithmetic. -/

def wordLimit : Nat := 2 ^ 64

/-- `std::uint64_t` subtraction, which wraps. -/
def wordSub (left right : Nat) : Nat :=
  if right ≤ left then left - right else left + wordLimit - right

theorem wordSub_of_le {left right : Nat} (h : right ≤ left) : wordSub left right = left - right := by
  rw [wordSub, if_pos h]

inductive StorageFailure where
  | system (code : Nat) (message : String)
  | overflow (message : String)
  | insufficientStorage (message : String)
  | logic (message : String)
  deriving DecidableEq, Repr

def checkedAdd (left right : Nat) (message : String) : Except StorageFailure Nat :=
  if left + right < wordLimit then .ok (left + right) else .error (.overflow message)

def checkedMultiply (left right : Nat) (message : String) : Except StorageFailure Nat :=
  if left * right < wordLimit then .ok (left * right) else .error (.overflow message)

/-! What the system answers. -/

/-- `statvfs`: an error, or `f_bavail` and `f_frsize`. -/
abbrev VolumeStatus := Except Nat (Nat × Nat)

/-- `fstat`: an error, or whether the descriptor is a regular file and its `st_blocks`. -/
abbrev FileStatus := Except Nat (Bool × Nat)

def availableBytes (status : VolumeStatus) : Except StorageFailure Nat :=
  match status with
  | .error code => .error (.system code "cannot inspect storage")
  | .ok (available, unit) => checkedMultiply available unit "available storage overflow"

def checkCapacity (available reserved required : Nat) (description : String) :
    Except StorageFailure Unit :=
  if reserved > available ∨ required > available - reserved then
    .error (.insufficientStorage ("insufficient storage for " ++ description ++ ": requires " ++
      toString required ++ " bytes with " ++ toString reserved ++
      " bytes outstanding, available " ++ toString available))
  else .ok ()

/-! Pools name a filesystem of a ledger; every entry starts with nothing outstanding. -/

structure Filesystem where
  ledger : Nat
  device : Nat
  deriving DecidableEq, Repr

structure Reservation where
  destination : Option Filesystem
  promised : Nat
  allocated : Nat
  deriving DecidableEq, Repr

def Reservation.outstanding (reservation : Reservation) : Nat :=
  if reservation.promised > reservation.allocated then
    reservation.promised - reservation.allocated
  else 0

structure Ledgers where
  outstanding : Filesystem → Nat
  reservations : Store Reservation

def Ledgers.initial : Ledgers := ⟨fun _ => 0, Store.empty ⟨none, 0, 0⟩⟩

/-- Where an operation stops, and what it has changed by then. -/
structure Settled where
  ledgers : Ledgers
  failure : Option StorageFailure

def Settled.done (ledgers : Ledgers) : Settled := ⟨ledgers, none⟩

namespace Ledgers

def setOutstanding (ledgers : Ledgers) (filesystem : Filesystem) (outstanding : Nat) : Ledgers :=
  { ledgers with outstanding := Function.update ledgers.outstanding filesystem outstanding }

/-- The value `Filesystem::replace` commits. -/
def admitOutstanding (ledgers : Ledgers) (filesystem : Filesystem) (previous required : Nat) (sample : Bool)
    (status : VolumeStatus) (description : String) : Except StorageFailure Nat := do
  let others := wordSub (ledgers.outstanding filesystem) previous
  if sample ∨ required > previous then
    let available ← availableBytes status
    if required ≠ 0 then
      checkCapacity available others required description
  checkedAdd others required "storage reservation overflow"

def replaceOutstanding (ledgers : Ledgers) (filesystem : Filesystem) (previous required : Nat)
    (sample : Bool) (status : VolumeStatus) (description : String) : Settled :=
  match ledgers.admitOutstanding filesystem previous required sample status description with
  | .error failure => ⟨ledgers, some failure⟩
  | .ok outstanding => .done (ledgers.setOutstanding filesystem outstanding)

/-- `Reservation::replace`: the filesystem's transaction, then the reservation's own fields. -/
def replace (ledgers : Ledgers) (id promised allocated : Nat) (description : String)
    (sample : Bool) (status : VolumeStatus) : Settled :=
  let reservation := ledgers.reservations.get id
  match reservation.destination with
  | none => ⟨ledgers, some (.logic "cannot resize an empty storage reservation")⟩
  | some filesystem =>
      let remaining := if promised > allocated then promised - allocated else 0
      let settled := ledgers.replaceOutstanding filesystem reservation.outstanding remaining
        sample status description
      match settled.failure with
      | some _ => settled
      | none =>
          .done { settled.ledgers with
            reservations := settled.ledgers.reservations.modify id fun reservation =>
              { reservation with promised := promised, allocated := allocated } }

def resize (ledgers : Ledgers) (id promised : Nat) (description : String)
    (status : VolumeStatus) : Settled :=
  ledgers.replace id promised (ledgers.reservations.get id).allocated description false status

def grow (ledgers : Ledgers) (id promised : Nat) (description : String)
    (status : VolumeStatus) : Settled :=
  if promised > (ledgers.reservations.get id).promised then
    ledgers.resize id promised description status
  else .done ledgers

def reserveGrowth (ledgers : Ledgers) (id allocated additional : Nat) (description : String)
    (status : VolumeStatus) : Settled :=
  match checkedAdd allocated additional "staged growth overflow" with
  | .error failure => ⟨ledgers, some failure⟩
  | .ok promised => ledgers.replace id promised allocated description true status

def reconcileAllocated (ledgers : Ledgers) (id allocated : Nat) : Settled :=
  let reservation := ledgers.reservations.get id
  match reservation.destination with
  | none => .done ledgers
  | some filesystem =>
      let remaining :=
        if reservation.promised > allocated then reservation.promised - allocated else 0
      match checkedAdd (wordSub (ledgers.outstanding filesystem) reservation.outstanding) remaining
          "storage reservation overflow" with
      | .error failure => ⟨ledgers, some failure⟩
      | .ok outstanding =>
          .done { ledgers.setOutstanding filesystem outstanding with
            reservations := ledgers.reservations.modify id fun reservation =>
              { reservation with allocated := allocated } }

def allocatedBytes (status : FileStatus) : Except StorageFailure Nat :=
  match status with
  | .error code => .error (.system code "cannot reconcile staging allocation")
  | .ok (regular, blocks) =>
      if regular then checkedMultiply blocks 512 "allocation overflow"
      else .error (.logic "staging allocation is not a regular file")

def reconcile (ledgers : Ledgers) (id : Nat) (status : FileStatus) : Settled :=
  if (ledgers.reservations.get id).destination.isSome then
    match allocatedBytes status with
    | .error failure => ⟨ledgers, some failure⟩
    | .ok allocated => ledgers.reconcileAllocated id allocated
  else .done ledgers

def withdrawAllocation (ledgers : Ledgers) (id : Nat) : Settled :=
  ledgers.reconcileAllocated id 0

/-- `StorageReservationPool::reserve` into the object at `id`. -/
def reserve (ledgers : Ledgers) (id : Nat) (filesystem : Filesystem) (promised : Nat)
    (description : String) (allocated : Nat) (status : VolumeStatus) : Settled :=
  let required := if promised > allocated then promised - allocated else 0
  let settled := ledgers.replaceOutstanding filesystem 0 required true status description
  match settled.failure with
  | some _ => settled
  | none =>
      .done { settled.ledgers with
        reservations := settled.ledgers.reservations.construct id
          ⟨some filesystem, promised, allocated⟩ }

def release (ledgers : Ledgers) (id : Nat) : Ledgers :=
  let reservation := ledgers.reservations.get id
  match reservation.destination with
  | none => ledgers
  | some filesystem =>
      { ledgers.setOutstanding filesystem
          (wordSub (ledgers.outstanding filesystem) reservation.outstanding) with
        reservations := ledgers.reservations.modify id fun reservation =>
          { reservation with destination := none } }

/-- `Reservation(Reservation&&)` into the object at `id`. -/
def moveConstruct (ledgers : Ledgers) (id other : Nat) : Ledgers :=
  { ledgers with
    reservations := (ledgers.reservations.construct id (ledgers.reservations.get other)).modify
      other fun reservation => { reservation with destination := none } }

/-- `operator=(Reservation&&)` -/
def moveAssign (ledgers : Ledgers) (id other : Nat) : Ledgers :=
  if id = other then ledgers
  else
    let released := ledgers.release id
    { released with
      reservations := (released.reservations.modify id fun _ => released.reservations.get other).modify
        other fun reservation => { reservation with destination := none } }

/-- `~Reservation` -/
def destroy (ledgers : Ledgers) (id : Nat) : Ledgers :=
  let released := ledgers.release id
  { released with reservations := released.reservations.destroy id }

end Ledgers

/-! Operations on the objects of any set of pools, in any order. -/

inductive Operation where
  | construct (id : Nat)
  | reserve (id : Nat) (filesystem : Filesystem) (promised : Nat) (description : String)
      (allocated : Nat) (status : VolumeStatus)
  | grow (id promised : Nat) (description : String) (status : VolumeStatus)
  | resize (id promised : Nat) (description : String) (status : VolumeStatus)
  | reserveGrowth (id allocated additional : Nat) (description : String) (status : VolumeStatus)
  | reconcile (id : Nat) (status : FileStatus)
  | reconcileAllocated (id allocated : Nat)
  | withdrawAllocation (id : Nat)
  | moveConstruct (id other : Nat)
  | moveAssign (id other : Nat)
  | release (id : Nat)
  | destroy (id : Nat)

def Operation.run (ledgers : Ledgers) : Operation → Settled
  | .construct id =>
      .done { ledgers with reservations := ledgers.reservations.construct id ⟨none, 0, 0⟩ }
  | .reserve id filesystem promised description allocated status =>
      ledgers.reserve id filesystem promised description allocated status
  | .grow id promised description status => ledgers.grow id promised description status
  | .resize id promised description status => ledgers.resize id promised description status
  | .reserveGrowth id allocated additional description status =>
      ledgers.reserveGrowth id allocated additional description status
  | .reconcile id status => ledgers.reconcile id status
  | .reconcileAllocated id allocated => ledgers.reconcileAllocated id allocated
  | .withdrawAllocation id => ledgers.withdrawAllocation id
  | .moveConstruct id other => .done (ledgers.moveConstruct id other)
  | .moveAssign id other => .done (ledgers.moveAssign id other)
  | .release id => .done (ledgers.release id)
  | .destroy id => .done (ledgers.destroy id)

/-- New objects take free addresses, every other operation names objects that are alive. -/
def Operation.Valid (ledgers : Ledgers) : Operation → Prop
  | .construct id => id ∉ ledgers.reservations.live
  | .reserve id _ promised _ allocated _ =>
      id ∉ ledgers.reservations.live ∧ promised < wordLimit ∧ allocated < wordLimit
  | .grow id promised _ _ => id ∈ ledgers.reservations.live ∧ promised < wordLimit
  | .resize id promised _ _ => id ∈ ledgers.reservations.live ∧ promised < wordLimit
  | .reserveGrowth id allocated additional _ _ =>
      id ∈ ledgers.reservations.live ∧ allocated < wordLimit ∧ additional < wordLimit
  | .reconcile id _ => id ∈ ledgers.reservations.live
  | .reconcileAllocated id allocated => id ∈ ledgers.reservations.live ∧ allocated < wordLimit
  | .withdrawAllocation id => id ∈ ledgers.reservations.live
  | .moveConstruct id other =>
      id ∉ ledgers.reservations.live ∧ other ∈ ledgers.reservations.live
  | .moveAssign id other => id ∈ ledgers.reservations.live ∧ other ∈ ledgers.reservations.live
  | .release id => id ∈ ledgers.reservations.live
  | .destroy id => id ∈ ledgers.reservations.live

inductive Reachable : Ledgers → Prop
  | initial : Reachable .initial
  | step {ledgers : Ledgers} (operation : Operation) (h : Reachable ledgers)
      (hvalid : operation.Valid ledgers) : Reachable (operation.run ledgers).ledgers

end Mmltk.Storage
