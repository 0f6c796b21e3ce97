import Mathlib.Algebra.Group.Nat.Defs
import Mmltk.Loading.Schedule

namespace Mmltk.Loading

open Mmltk.Foundation

/-! The loader's slots, filled by the image stream and leased to one consumer. -/

inductive SlotState where
  | free
  | reading
  | ready
  | checkedOut
  | released
  deriving DecidableEq, Repr

structure LoaderSlot where
  state : SlotState
  batch : Nat
  start : Nat
  count : Nat
  lease : Nat
  transferPending : Bool
  consumerPending : Bool
  /-- The images read, in the order of their destinations. -/
  reads : List Nat
  deriving DecidableEq, Repr

def LoaderSlot.initial : LoaderSlot := ⟨.free, 0, 0, 0, 0, false, false, []⟩

/-- What `refill` may use: a free slot, or a released one that nothing on the device holds. -/
def LoaderSlot.Refillable (slot : LoaderSlot) : Prop :=
  slot.state = .free ∨
    slot.state = .released ∧ slot.transferPending = false ∧ slot.consumerPending = false

instance (slot : LoaderSlot) : Decidable slot.Refillable :=
  inferInstanceAs (Decidable (_ ∨ _))

/-- The calls the stream still owes for a slot. -/
structure Callbacks where
  read : Bool
  transfer : Bool
  consumer : Bool
  deriving DecidableEq, Repr

def Callbacks.none : Callbacks := ⟨false, false, false⟩

structure BatchContent where
  imageIndices : List Nat
  drawKeys : List Nat
  microbatchKey : Nat
  deriving DecidableEq, Repr

structure Batch extends BatchContent where
  slotIndex : Nat
  leaseId : Nat
  deriving DecidableEq, Repr

structure Loader where
  config : LoaderConfig
  seed : Nat
  eligible : List Nat
  source : EpochSource
  batchCount : Nat
  slotCount : Nat
  slots : Nat → LoaderSlot
  batchSlots : Nat → Nat
  submitted : Nat
  consumed : Nat
  nextLease : Nat
  epoch : Bool
  stopping : Bool
  resetting : Bool
  failure : Option String
  /-- What the stream owes. -/
  callbacks : Nat → Callbacks
  /-- The `begin_epoch` the consumer waits in. -/
  beginning : Option (Option IndexSchedule × Nat)
  /-- The epochs begun, the batches of this one, and all batches with their epoch. -/
  generation : Nat
  delivered : List Batch
  handed : List (Nat × Batch)

inductive Outcome where
  | returned
  | threw (message : String)
  | batch (batch : Batch)
  /-- `next_batch` returns false. -/
  | finished
  /-- `next_batch` waits for `changed`. -/
  | waiting
  deriving DecidableEq, Repr

/-- A batch's content, cut from the schedule at its start. -/
def EpochSource.content (source : EpochSource) (config : LoaderConfig) (start count : Nat) :
    BatchContent where
  imageIndices := (source.indices.drop start).take count
  drawKeys :=
    match source.explicitSchedule with
    | some schedule => (schedule.drawKeys.drop start).take count
    | none => []
  microbatchKey :=
    match source.explicitSchedule with
    | some schedule => schedule.microbatchKeys.getD (start / config.batchSize) 0
    | none => 0

namespace Loader

def checkFailure (loader : Loader) : Option String :=
  match loader.failure with
  | some failure => some failure
  | none => if loader.stopping then some "dataset loader stopped" else none

def checkedOut (loader : Loader) : Prop :=
  ∃ index ∈ List.range loader.slotCount, (loader.slots index).state = .checkedOut

instance (loader : Loader) : Decidable loader.checkedOut :=
  inferInstanceAs (Decidable (∃ index ∈ List.range loader.slotCount, _))

def require (loader : Loader) (batch : Batch) (operation : String) (released : Bool) :
    Except String LoaderSlot :=
  if batch.slotIndex ≥ loader.slotCount then
    .error (operation ++ ": batch slot index out of range")
  else
    let slot := loader.slots batch.slotIndex
    if slot.lease ≠ batch.leaseId then .error (operation ++ ": stale batch lease")
    else if slot.state ≠ .checkedOut ∧ ¬(released = true ∧ slot.state = .released) then
      .error (operation ++ ": batch is not checked out")
    else .ok slot

def setSlot (loader : Loader) (index : Nat) (slot : LoaderSlot) : Loader :=
  { loader with slots := Function.update loader.slots index slot }

def setCallbacks (loader : Loader) (index : Nat) (callbacks : Callbacks) : Loader :=
  { loader with callbacks := Function.update loader.callbacks index callbacks }

/-- The slot of the next batch to submit. -/
def filledSlot (loader : Loader) (slot : LoaderSlot) : LoaderSlot :=
  let start := loader.source.batchStart loader.config loader.submitted
  let count := loader.source.batchImages loader.config loader.submitted
  { slot with
    state := .reading
    batch := loader.submitted
    start := start
    count := count
    lease := loader.nextLease
    transferPending := true
    reads := (loader.source.indices.drop start).take count }

/-- The effects of `refill` up to the submission. -/
def place (loader : Loader) (index : Nat) : Loader :=
  { loader.setSlot index (loader.filledSlot (loader.slots index)) with
    batchSlots :=
      Function.update loader.batchSlots (loader.submitted % loader.slotCount) index
    submitted := loader.submitted + 1
    nextLease := loader.nextLease + 1 }

/-- `refill`, with what the stream answers to a submission, and what it throws. -/
def refill (loader : Loader) (index : Nat) (submit : Option String) : Loader × Option String :=
  match loader.checkFailure with
  | some failure => (loader, some failure)
  | none =>
      let slot := loader.slots index
      let slot := if slot.Refillable then { slot with state := .free } else slot
      let loader := loader.setSlot index slot
      if loader.submitted = loader.batchCount ∨ slot.state ≠ .free then (loader, none)
      else
        let placed := loader.place index
        match submit with
        | none =>
            (placed.setCallbacks index
              { placed.callbacks index with read := true, transfer := true }, none)
        | some failure =>
            ({ placed.setSlot index
                { placed.slots index with transferPending := false, state := .released } with
              failure := some failure }, some failure)

/-- A refill whose exception becomes the loader's failure. -/
def tryRefill (loader : Loader) (index : Nat) (submit : Option String) : Loader :=
  if loader.failure = none ∧ loader.stopping = false ∧ loader.resetting = false then
    match loader.refill index submit with
    | (after, none) => after
    | (after, some failure) => { after with failure := some failure }
  else loader

def fail (loader : Loader) (error : Option String) : Loader :=
  { loader with failure := loader.failure.or error }

def readComplete (loader : Loader) (index : Nat) (error : Option String) (read : Bool) : Loader :=
  let loader := (loader.fail error).setCallbacks index
    { loader.callbacks index with read := false }
  let slot := loader.slots index
  loader.setSlot index
    (if error.isSome ∨ read = false then
      { slot with state := .released, transferPending := false }
    else { slot with state := .ready })

def transferComplete (loader : Loader) (index : Nat) (error submit : Option String) : Loader :=
  let loader := (loader.fail error).setCallbacks index
    { loader.callbacks index with transfer := false }
  (loader.setSlot index { loader.slots index with transferPending := false }).tryRefill index submit

def consumerComplete (loader : Loader) (index : Nat) (error submit : Option String) : Loader :=
  let loader := (loader.fail error).setCallbacks index
    { loader.callbacks index with consumer := false }
  (loader.setSlot index { loader.slots index with consumerPending := false }).tryRefill index submit

/-- `release`, with what `cudaStreamSynchronize` or the stream's own release answers. -/
def release (loader : Loader) (batch : Batch) (hasConsumer : Bool)
    (settled submit : Option String) : Loader × Outcome :=
  match loader.require batch "release_batch" false with
  | .error failure => (loader, .threw failure)
  | .ok slot =>
      match (if hasConsumer then settled else none) with
      | some failure => (loader, .threw failure)
      | none =>
          let index := batch.slotIndex
          let fenced := hasConsumer && !loader.stopping
          let loader :=
            if fenced then
              loader.setCallbacks index { loader.callbacks index with consumer := true }
            else loader
          let slot := if fenced then { slot with consumerPending := true } else slot
          ((loader.setSlot index { slot with state := .released }).tryRefill index submit, .returned)

/-- What `begin_epoch` refuses before it looks at the loader. -/
def scheduleRefusal (loader : Loader) (schedule : Option IndexSchedule) (resumeOffset : Nat) :
    Option String :=
  match schedule with
  | none =>
      if resumeOffset ≠ 0 then some "resume offset requires an explicit dataset schedule" else none
  | some schedule =>
      let images := schedule.imageIndices.length
      if resumeOffset > images ∨ resumeOffset % loader.config.batchSize ≠ 0 ∨
          (schedule.drawKeys ≠ [] ∧ schedule.drawKeys.length ≠ images) then
        some "invalid explicit dataset schedule or resume offset"
      else if schedule.microbatchKeys ≠ [] ∧
          schedule.microbatchKeys.length ≠ divideUp images loader.config.batchSize then
        some "explicit microbatch key count differs"
      else if schedule.imageIndices.all (fun image => loader.eligible.contains image) then none
      else some "scheduled image is outside dataset"

/-- `begin_epoch` until it waits for the stream. -/
def beginEpoch (loader : Loader) (schedule : Option IndexSchedule) (resumeOffset : Nat) :
    Loader × Outcome :=
  match loader.scheduleRefusal schedule resumeOffset with
  | some refusal => (loader, .threw refusal)
  | none =>
      match loader.checkFailure with
      | some failure => (loader, .threw failure)
      | none =>
          if loader.checkedOut then
            (loader, .threw "begin_epoch requires all checked-out batches to be released")
          else
            ({ loader with resetting := true, beginning := some (schedule, resumeOffset) },
              .waiting)

/-- The stream's `synchronize` throws. -/
def beginFailed (loader : Loader) (failure : String) : Loader × Outcome :=
  ({ loader with beginning := none }, .threw failure)

def refillAll (loader : Loader) (submits : Nat → Option String) :
    List Nat → Loader × Option String
  | [] => (loader, none)
  | index :: rest =>
      match loader.refill index (submits index) with
      | (after, none) => after.refillAll submits rest
      | (after, some failure) => (after, some failure)

/-- The order of an epoch without an explicit schedule. -/
def epochOrder (shuffler : Shuffler) (loader : Loader) (schedule : Option IndexSchedule) :
    Except String (List Nat) :=
  if schedule = none ∧ loader.config.shuffle = true then
    shuffler.buildBlockShuffledOrder loader.eligible loader.config.batchSize
      (shuffler.seeded loader.seed)
  else .ok loader.source.order

def nextSeed (loader : Loader) (schedule : Option IndexSchedule) : Nat :=
  if schedule = none ∧ loader.config.shuffle = true then (loader.seed + 1) % 2 ^ 64
  else loader.seed

/-- The loader with a new schedule and every slot free. -/
def reset (loader : Loader) (source : EpochSource) (seed : Nat) : Loader :=
  { loader with
    source := source
    seed := seed
    batchCount := source.batchCount loader.config
    submitted := 0
    consumed := 0
    slots := fun index => { loader.slots index with state := .free }
    epoch := true
    resetting := false
    beginning := none
    generation := loader.generation + 1
    delivered := [] }

/-- `begin_epoch` from its second lock on. -/
def beginFinished (shuffler : Shuffler) (loader : Loader) (submits : Nat → Option String) :
    Loader × Outcome :=
  match loader.beginning with
  | none => (loader, .returned)
  | some (schedule, resumeOffset) =>
      match loader.checkFailure with
      | some failure => ({ loader with beginning := none }, .threw failure)
      | none =>
          match loader.epochOrder shuffler schedule with
          | .error failure =>
              ({ loader with
                beginning := none
                source := { loader.source with
                  explicitSchedule := schedule
                  resumeOffset := resumeOffset } }, .threw failure)
          | .ok order =>
              let loader := loader.reset ⟨order, schedule, resumeOffset⟩
                (loader.nextSeed schedule)
              match loader.refillAll submits (List.range loader.slotCount) with
              | (after, none) => (after, .returned)
              | (after, some failure) => (after, .threw failure)

/-- The loop of `next_batch` in an epoch, with whether its token asks to stop. -/
def nextBatch (loader : Loader) (stopRequested : Bool) : Loader × Outcome :=
  if loader.stopping then (loader, .finished)
  else
    match loader.failure with
    | some failure => (loader, .threw failure)
    | none =>
        if stopRequested = true ∨ loader.consumed = loader.batchCount then (loader, .finished)
        else if loader.consumed = loader.submitted then (loader, .waiting)
        else
          let index := loader.batchSlots (loader.consumed % loader.slotCount)
          let slot := loader.slots index
          if slot.batch = loader.consumed ∧ slot.state = .ready then
            let content := loader.source.content loader.config slot.start slot.count
            let batch : Batch := { content with slotIndex := index, leaseId := slot.lease }
            ({ loader.setSlot index { slot with state := .checkedOut } with
              consumed := loader.consumed + 1
              delivered := loader.delivered ++ [batch]
              handed := loader.handed ++ [(loader.generation, batch)] }, .batch batch)
          else (loader, .waiting)

/-- `next_batch`, with whether its token asks to stop at the start and in the loop.  The first
one begins an epoch. -/
def requestBatch (loader : Loader) (stopped stopRequested : Bool) : Loader × Outcome :=
  if stopped = true ∨ loader.stopping = true then (loader, .finished)
  else if loader.epoch = false then loader.beginEpoch none 0
  else loader.nextBatch stopRequested

end Loader

/-! Runs.  The consumer is one thread: it does nothing else while it waits in `begin_epoch`. -/

inductive LoaderAction where
  | beginEpoch (schedule : Option IndexSchedule) (resumeOffset : Nat)
  | beginFailed (failure : String)
  | beginFinished (submits : Nat → Option String)
  | nextBatch (stopped stopRequested : Bool)
  | release (batch : Batch) (hasConsumer : Bool) (settled submit : Option String)
  | readComplete (index : Nat) (error : Option String) (read : Bool)
  | transferComplete (index : Nat) (error submit : Option String)
  | consumerComplete (index : Nat) (error submit : Option String)
  | stopWorkers

namespace LoaderAction

def run (shuffler : Shuffler) (loader : Loader) : LoaderAction → Loader × Outcome
  | .beginEpoch schedule resumeOffset => loader.beginEpoch schedule resumeOffset
  | .beginFailed failure => loader.beginFailed failure
  | .beginFinished submits => loader.beginFinished shuffler submits
  | .nextBatch stopped stopRequested => loader.requestBatch stopped stopRequested
  | .release batch hasConsumer settled submit => loader.release batch hasConsumer settled submit
  | .readComplete index error read => (loader.readComplete index error read, .returned)
  | .transferComplete index error submit =>
      (loader.transferComplete index error submit, .returned)
  | .consumerComplete index error submit =>
      (loader.consumerComplete index error submit, .returned)
  | .stopWorkers => ({ loader with stopping := true }, .returned)

/-- Callbacks are the owed ones; a read ends without error and unread only once it is cancelled,
and the stream is synchronized when it owes nothing. -/
def Enabled (loader : Loader) : LoaderAction → Prop
  | .beginEpoch _ _ => loader.beginning = none
  | .beginFailed _ => loader.beginning ≠ none
  | .beginFinished _ => loader.beginning ≠ none ∧
      ∀ index < loader.slotCount, loader.callbacks index = .none
  | .nextBatch _ _ => loader.beginning = none
  | .release _ _ _ _ => loader.beginning = none
  | .readComplete index error read => index < loader.slotCount ∧
      (loader.callbacks index).read = true ∧
      (error = none → read = false → loader.resetting = true ∨ loader.stopping = true)
  | .transferComplete index _ _ => index < loader.slotCount ∧
      (loader.callbacks index).transfer = true
  | .consumerComplete index _ _ => index < loader.slotCount ∧
      (loader.callbacks index).consumer = true
  | .stopWorkers => True

end LoaderAction

namespace Loader

/-- The loader its constructor leaves, with as many slots as it prefetches batches. -/
def constructed (config : LoaderConfig) (seed : Nat) (eligible : List Nat) (prefetch : Nat) :
    Loader :=
  let source : EpochSource := ⟨eligible, none, 0⟩
  { config := config
    seed := seed
    eligible := eligible
    source := source
    batchCount := source.batchCount config
    slotCount := max 1 (min prefetch (source.batchCount config))
    slots := fun _ => .initial
    batchSlots := fun _ => 0
    submitted := 0
    consumed := 0
    nextLease := 1
    epoch := false
    stopping := false
    resetting := false
    failure := none
    callbacks := fun _ => .none
    beginning := none
    generation := 0
    delivered := []
    handed := [] }

inductive Reachable (shuffler : Shuffler) : Loader → Prop
  | constructed (config : LoaderConfig) (hvalid : config.Valid) (seed : Nat) (hseed : seed < 2 ^ 64)
      (eligible : List Nat) (prefetch : Nat) :
      Reachable shuffler (.constructed config seed eligible prefetch)
  | step {loader : Loader} (action : LoaderAction) (h : Reachable shuffler loader)
      (henabled : action.Enabled loader) : Reachable shuffler (action.run shuffler loader).1

end Loader

end Mmltk.Loading
