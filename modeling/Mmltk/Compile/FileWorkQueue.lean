import Mmltk.Compile.Resources
import Mmltk.Foundation.Store

namespace Mmltk.Compile

open Mmltk.Foundation

/-! The prepared records of file operations, filled by reservations, claimed by dispatchers and
settled outside the lock. -/

/-- An exception: the queue's own, or another. -/
inductive Failure where
  | cancelled
  | thrown (what : String)
  deriving DecidableEq, Repr

/-- An operation; of its functions, which ones it has. -/
structure Operation where
  context : Nat
  call : Bool
  completed : Bool
  work : Bool
  serviceClass : CompileWorkClass
  deriving DecidableEq, Repr

def Operation.empty : Operation := ⟨0, false, false, false, .output⟩

inductive RecordState where
  | free
  | reserved
  | queued
  | waiting
  | running
  | completing
  deriving DecidableEq, Repr

structure FileRecord where
  operation : Operation
  /-- The completion source, one for each reservation. -/
  completion : Nat
  state : RecordState
  workClass : CompileWorkClass
  /-- `dispatch_owner` is set. -/
  dispatchOwner : Bool
  /-- The borrowed task is in the pool's queue. -/
  dispatchQueued : Bool
  /-- The borrowed task was taken off it and has not reached `dispatch`. -/
  dispatchTaken : Bool
  deriving DecidableEq, Repr

def FileRecord.initial : FileRecord := ⟨.empty, 0, .free, .output, false, false, false⟩

/-- Where a thread is between two locks of the queue. -/
inductive Stage where
  /-- `perform` before it commits. -/
  | claimed
  /-- `dispatch_one` without a grant. -/
  | refused (failure : Failure)
  | running
  /-- `perform` after the call, or what was thrown before it. -/
  | ended (error : Option Failure)
  /-- `finish`, and in it the completed callback and what follows it. -/
  | finishing (error : Option Failure)
  | calling (operation : Operation) (error : Option Failure)
  | retiring (operation : Operation) (error : Option Failure)
  | notifying (context : Nat) (error : Option Failure)
  | notified
  /-- `dispatch_one` at its end. -/
  | leaving
  deriving DecidableEq, Repr

structure Activity where
  index : Nat
  completion : Nat
  service : Bool
  /-- The service is lent out in `wait`. -/
  lent : Bool
  stage : Stage
  deriving DecidableEq, Repr

/-! What happened to an operation. -/

inductive Place where
  | record (index : Nat)
  | activity (id : Nat)
  /-- Its reservation was released unused. -/
  | returned
  | done
  deriving DecidableEq, Repr

inductive Execution where
  | unstarted
  | refused (failure : Failure)
  | running
  | ended (error : Option Failure)
  deriving DecidableEq, Repr

structure History where
  operation : Option Operation
  place : Place
  executions : Nat
  execution : Execution
  /-- What the completed callback was called with. -/
  calls : List (Option Failure)
  /-- What the completion was settled with. -/
  results : List (Option Failure)
  deriving DecidableEq, Repr

def History.opened (index : Nat) : History := ⟨none, .record index, 0, .unstarted, [], []⟩

inductive QueueMode where
  | compile (services : Nat)
  /-- On a worker pool, with or without a readiness callback. -/
  | runtime (notifies : Bool)
  deriving DecidableEq, Repr

structure FileWorkQueue where
  mode : QueueMode
  capacity : Nat
  records : Store FileRecord
  producers : CompileWorkClass → Bool
  classPending : CompileWorkClass → Nat
  queued : CompileWorkClass → Nat
  /-- What the service demand asks for. -/
  demand : CompileWorkClass → Bool
  pending : Nat
  cursor : Nat
  notifying : Nat
  busyServices : Nat
  stopping : Bool
  shutdown : Bool
  activities : Store Activity
  started : Nat
  completions : Nat
  histories : Nat → History

inductive QueueReply where
  | quiet
  | full
  | reserved (index : Nat)
  | accepted (completion : Nat)
  | threw (what : String)
  deriving DecidableEq, Repr

def QueueMode.isRuntime : QueueMode → Bool
  | .compile _ => false
  | .runtime _ => true

def QueueMode.notifies : QueueMode → Bool
  | .compile _ => false
  | .runtime notifies => notifies

def QueueMode.services : QueueMode → Nat
  | .compile services => services
  | .runtime _ => 0

namespace FileWorkQueue

def checkAdmission (queue : FileWorkQueue) (interruption : Option String) : Option String :=
  if queue.stopping then some "file queue admission after stop"
  else if queue.mode.isRuntime then none
  else interruption

/-- The classes the demand asks for: those with queued records, while a dispatcher is free. -/
def demanded (queue : FileWorkQueue) (kind : CompileWorkClass) : Bool :=
  !queue.stopping && !queue.shutdown && decide (queue.busyServices < queue.mode.services) &&
    decide (queue.queued kind ≠ 0)

def updateDemand (queue : FileWorkQueue) : FileWorkQueue :=
  if queue.mode.isRuntime then queue else { queue with demand := queue.demanded }

def setRecord (queue : FileWorkQueue) (index : Nat) (record : FileRecord) : FileWorkQueue :=
  { queue with records := queue.records.modify index fun _ => record }

def setHistory (queue : FileWorkQueue) (completion : Nat) (history : History) : FileWorkQueue :=
  { queue with histories := Function.update queue.histories completion history }

def setStage (queue : FileWorkQueue) (id : Nat) (stage : Stage) : FileWorkQueue :=
  { queue with activities := queue.activities.modify id fun activity =>
      { activity with stage := stage } }

/-- A thread that takes a record up. -/
def start (queue : FileWorkQueue) (index : Nat) (service : Bool) (stage : Stage) :
    FileWorkQueue :=
  let completion := (queue.records.get index).completion
  { queue.setHistory completion
      { queue.histories completion with place := .activity queue.started } with
    activities := queue.activities.construct queue.started ⟨index, completion, service, false, stage⟩
    started := queue.started + 1 }

/-- `try_reserve_record`, with the execution's interruption and what `open_class` throws. -/
def tryReserveRecord (queue : FileWorkQueue) (kind : CompileWorkClass)
    (interruption opened : Option String) : FileWorkQueue × QueueReply :=
  if kind = .count then (queue, .threw "invalid file operation service class")
  else
    match queue.checkAdmission interruption with
    | some failure => (queue, .threw failure)
    | none =>
        match (List.range queue.capacity).find? fun index =>
            (queue.records.get index).state = .free with
        | none => (queue, .full)
        | some index =>
            let opens := decide (queue.classPending kind = 0) && !queue.mode.isRuntime
            match (if opens then opened else none) with
            | some failure => (queue, .threw failure)
            | none =>
                ({ (queue.setRecord index { queue.records.get index with
                      completion := queue.completions
                      workClass := kind
                      state := .reserved }).setHistory queue.completions (.opened index) with
                  producers :=
                    if opens then Function.update queue.producers kind true else queue.producers
                  classPending :=
                    Function.update queue.classPending kind (queue.classPending kind + 1)
                  pending := queue.pending + 1
                  completions := queue.completions + 1 }, .reserved index)

/-- One record less of a class; its producer is closed with the last one. -/
def retireClass (queue : FileWorkQueue) (kind : CompileWorkClass) : FileWorkQueue :=
  { queue with
    pending := queue.pending - 1
    classPending := Function.update queue.classPending kind (queue.classPending kind - 1)
    producers :=
      if queue.classPending kind - 1 = 0 then Function.update queue.producers kind false
      else queue.producers }

/-- `Reservation::release`; a record that is not reserved has no reservation. -/
def release (queue : FileWorkQueue) (index : Nat) : FileWorkQueue × QueueReply :=
  let record := queue.records.get index
  if index ≥ queue.capacity ∨ record.state ≠ .reserved then (queue, .quiet)
  else
    (((queue.setRecord index { record with state := .free }).setHistory record.completion
      { queue.histories record.completion with place := .returned }).retireClass record.workClass,
      .quiet)

/-- `enqueue_borrowed`, with what the pool's own admission throws. -/
def enqueueBorrowed (queue : FileWorkQueue) (record : FileRecord) (refused : Option String) :
    Option String :=
  if queue.mode.isRuntime = false then none
  else
    match refused with
    | some failure => some failure
    | none =>
        if record.dispatchQueued then some "borrowed worker task is already queued" else none

/-- `Reservation::submit` -/
def submit (queue : FileWorkQueue) (index : Nat) (operation : Operation)
    (interruption refused : Option String) : FileWorkQueue × QueueReply :=
  let record := queue.records.get index
  if index ≥ queue.capacity ∨ record.state ≠ .reserved then
    (queue, .threw "file operation has no reserved record")
  else if operation.call = false ∧ operation.work = false then
    (queue, .threw "empty borrowed file operation")
  else
    match queue.checkAdmission interruption with
    | some failure => (queue, .threw failure)
    | none =>
        if operation.serviceClass ≠ record.workClass then
          (queue, .threw "file operation changed its reserved service class")
        else
          match queue.enqueueBorrowed record refused with
          | some failure =>
              (queue.setRecord index { record with dispatchOwner := false }, .threw failure)
          | none =>
              let owned := queue.mode.isRuntime
              ({ (queue.setRecord index { record with
                    operation := operation
                    state := .queued
                    dispatchOwner := record.dispatchOwner || owned
                    dispatchQueued := record.dispatchQueued || owned }).setHistory
                  record.completion
                  { queue.histories record.completion with operation := some operation } with
                queued := Function.update queue.queued record.workClass
                  (queue.queued record.workClass + 1) }.updateDemand,
                .accepted record.completion)

def claim (queue : FileWorkQueue) (index : Nat) : FileWorkQueue :=
  let record := queue.records.get index
  let kind := record.operation.serviceClass
  { queue.setRecord index { record with state := .waiting } with
    queued := Function.update queue.queued kind (queue.queued kind - 1)
    cursor := (index + 1) % queue.capacity }

/-- The first queued record from the cursor on that the grant can take. -/
def selected (queue : FileWorkQueue) (grant : Except Failure (Option CompileWorkClass)) :
    Option Nat :=
  ((List.range queue.capacity).map fun turn => (queue.cursor + turn) % queue.capacity).find?
    fun candidate =>
      let record := queue.records.get candidate
      decide (record.state = .queued) &&
        match grant with
        | .error _ => true
        | .ok none => false
        | .ok (some kind) => decide (record.operation.serviceClass = kind)

/-- One turn of `dispatch_one`, with what `try_grant` answers. -/
def dispatchOne (queue : FileWorkQueue) (grant : Except Failure (Option CompileWorkClass)) :
    FileWorkQueue :=
  if queue.stopping ∨ queue.shutdown then queue
  else
    match queue.selected grant with
    | none => queue
    | some index =>
        let stage :=
          match grant with
          | .error failure => .refused failure
          | .ok _ => .claimed
        let claimed := queue.claim index
        ({ claimed with busyServices := claimed.busyServices + 1 }.updateDemand).start index true
          stage

/-- A pool worker takes the borrowed task, and its owner with it. -/
def takeTask (queue : FileWorkQueue) (index : Nat) : FileWorkQueue :=
  queue.setRecord index { queue.records.get index with
    dispatchOwner := false
    dispatchQueued := false
    dispatchTaken := true }

/-- `dispatch` -/
def dispatch (queue : FileWorkQueue) (index : Nat) : FileWorkQueue :=
  let record := queue.records.get index
  let queue := queue.setRecord index { record with dispatchTaken := false }
  if record.state ≠ .queued then queue else (queue.claim index).start index false .claimed

/-- The lock of `perform` that commits the call. -/
def commit (queue : FileWorkQueue) (id : Nat) : FileWorkQueue :=
  let activity := queue.activities.get id
  let history := queue.histories activity.completion
  if queue.stopping then
    (queue.setStage id (.ended (some .cancelled))).setHistory activity.completion
      { history with execution := .refused .cancelled }
  else
    ((queue.setRecord activity.index
      { queue.records.get activity.index with state := .running }).setStage id .running).setHistory
        activity.completion
        { history with executions := history.executions + 1, execution := .running }

/-- `set_thread_affinity` throws. -/
def bindFailed (queue : FileWorkQueue) (id : Nat) (failure : Failure) : FileWorkQueue :=
  let completion := (queue.activities.get id).completion
  (queue.setStage id (.ended (some failure))).setHistory completion
    { queue.histories completion with execution := .refused failure }

def callReturned (queue : FileWorkQueue) (id : Nat) (error : Option Failure) : FileWorkQueue :=
  let completion := (queue.activities.get id).completion
  (queue.setStage id (.ended error)).setHistory completion
    { queue.histories completion with execution := .ended error }

/-- The lock before `finish`. -/
def complete (queue : FileWorkQueue) (id : Nat) : FileWorkQueue :=
  let activity := queue.activities.get id
  let completing := queue.setRecord activity.index
    { queue.records.get activity.index with state := .completing }
  match activity.stage with
  | .ended error => completing.setStage id (.finishing error)
  | .refused failure =>
      (completing.setStage id (.finishing (some failure))).setHistory activity.completion
        { queue.histories activity.completion with execution := .refused failure }
  | _ => queue

/-- `finish` moves the operation out and calls its callback. -/
def takeOperation (queue : FileWorkQueue) (id : Nat) : FileWorkQueue :=
  let activity := queue.activities.get id
  match activity.stage with
  | .finishing error =>
      let operation := (queue.records.get activity.index).operation
      let history := queue.histories activity.completion
      (queue.setStage id (.calling operation error)).setHistory activity.completion
        { history with calls := history.calls ++ if operation.completed then [error] else [] }
  | _ => queue

/-- The callback is over; without a readiness callback the completion settles here. -/
def callbackReturned (queue : FileWorkQueue) (id : Nat) (thrown : Option Failure) :
    FileWorkQueue :=
  let activity := queue.activities.get id
  match activity.stage with
  | .calling operation error =>
      let error := error.or (if operation.completed then thrown else none)
      let history := queue.histories activity.completion
      (queue.setStage id (.retiring operation error)).setHistory activity.completion
        { history with results := history.results ++ if queue.mode.notifies then [] else [error] }
  | _ => queue

/-- The thread is through with its record; a dispatcher goes back for another. -/
def conclude (queue : FileWorkQueue) (id : Nat) : FileWorkQueue :=
  if (queue.activities.get id).service then queue.setStage id .leaving
  else { queue with activities := queue.activities.destroy id }

/-- The lock of `finish` that frees the record. -/
def retire (queue : FileWorkQueue) (id : Nat) : FileWorkQueue :=
  let activity := queue.activities.get id
  match activity.stage with
  | .retiring operation error =>
      let retired := (queue.setRecord activity.index
        { queue.records.get activity.index with state := .free }).retireClass
          operation.serviceClass
      if queue.mode.notifies then
        { retired with notifying := retired.notifying + 1 }.setStage id
          (.notifying operation.context error)
      else
        (retired.setHistory activity.completion
          { retired.histories activity.completion with place := .done }).conclude id
  | _ => queue

/-- The readiness callback has returned, and the completion settles. -/
def availableReturned (queue : FileWorkQueue) (id : Nat) : FileWorkQueue :=
  let activity := queue.activities.get id
  match activity.stage with
  | .notifying _ error =>
      let history := queue.histories activity.completion
      (queue.setStage id .notified).setHistory activity.completion
        { history with results := history.results ++ [error], place := .done }
  | _ => queue

def unnotify (queue : FileWorkQueue) (id : Nat) : FileWorkQueue :=
  { queue with notifying := queue.notifying - 1 }.conclude id

/-- The end of `dispatch_one`. -/
def leave (queue : FileWorkQueue) (id : Nat) : FileWorkQueue :=
  { queue with
    busyServices := queue.busyServices - 1
    activities := queue.activities.destroy id }.updateDemand

/-- `wait` in a callback of a service lends the service out, and takes it back. -/
def lend (queue : FileWorkQueue) (id : Nat) : FileWorkQueue :=
  { queue with
    busyServices := queue.busyServices - 1
    activities := queue.activities.modify id fun activity =>
      { activity with lent := true } }.updateDemand

def resume (queue : FileWorkQueue) (id : Nat) : FileWorkQueue :=
  { queue with
    busyServices := queue.busyServices + 1
    activities := queue.activities.modify id fun activity =>
      { activity with lent := false } }.updateDemand

/-- The first lock of `cancel`. -/
def cancel (queue : FileWorkQueue) : FileWorkQueue :=
  { queue with stopping := true }.updateDemand

/-- What `cancel` does to each record. -/
def cancelQueued (queue : FileWorkQueue) (index : Nat) : FileWorkQueue :=
  let record := queue.records.get index
  let kind := record.operation.serviceClass
  if record.state ≠ .queued then queue
  else
    let queue := { queue.setRecord index { record with state := .completing } with
      queued := Function.update queue.queued kind (queue.queued kind - 1) }
    (queue.setHistory record.completion
      { queue.histories record.completion with execution := .refused .cancelled }).start index
        false (.finishing (some .cancelled))

end FileWorkQueue

/-! Runs: every lock of the queue is one step, and so is every call that returns outside it. -/

inductive QueueAction where
  | tryReserveRecord (kind : CompileWorkClass) (interruption opened : Option String)
  | release (index : Nat)
  | submit (index : Nat) (operation : Operation) (interruption refused : Option String)
  | dispatchOne (grant : Except Failure (Option CompileWorkClass))
  | takeTask (index : Nat)
  | dispatch (index : Nat)
  | commit (id : Nat)
  | bindFailed (id : Nat) (failure : Failure)
  | callReturned (id : Nat) (error : Option Failure)
  | complete (id : Nat)
  | takeOperation (id : Nat)
  | callbackReturned (id : Nat) (thrown : Option Failure)
  | retire (id : Nat)
  | availableReturned (id : Nat)
  | unnotify (id : Nat)
  | leave (id : Nat)
  | lend (id : Nat)
  | resume (id : Nat)
  | cancel
  | cancelQueued (index : Nat)
  | stopServices

namespace QueueAction

def run (queue : FileWorkQueue) : QueueAction → FileWorkQueue × QueueReply
  | .tryReserveRecord kind interruption opened => queue.tryReserveRecord kind interruption opened
  | .release index => queue.release index
  | .submit index operation interruption refused =>
      queue.submit index operation interruption refused
  | .dispatchOne grant => (queue.dispatchOne grant, .quiet)
  | .takeTask index => (queue.takeTask index, .quiet)
  | .dispatch index => (queue.dispatch index, .quiet)
  | .commit id => (queue.commit id, .quiet)
  | .bindFailed id failure => (queue.bindFailed id failure, .quiet)
  | .callReturned id error => (queue.callReturned id error, .quiet)
  | .complete id => (queue.complete id, .quiet)
  | .takeOperation id => (queue.takeOperation id, .quiet)
  | .callbackReturned id thrown => (queue.callbackReturned id thrown, .quiet)
  | .retire id => (queue.retire id, .quiet)
  | .availableReturned id => (queue.availableReturned id, .quiet)
  | .unnotify id => (queue.unnotify id, .quiet)
  | .leave id => (queue.leave id, .quiet)
  | .lend id => (queue.lend id, .quiet)
  | .resume id => (queue.resume id, .quiet)
  | .cancel => (queue.cancel, .quiet)
  | .cancelQueued index => (queue.cancelQueued index, .quiet)
  | .stopServices => ({ queue with shutdown := true }, .quiet)

/-- A thread does what its stage comes to next; `cancel` visits records once it has stopped the
queue, and only a callback of a service waits. -/
def Enabled (queue : FileWorkQueue) : QueueAction → Prop
  | .tryReserveRecord _ _ _ | .release _ | .submit _ _ _ _ | .cancel | .stopServices => True
  | .dispatchOne _ => queue.mode.isRuntime = false
  | .takeTask index => index < queue.capacity ∧
      (queue.records.get index).dispatchQueued = true
  | .dispatch index => index < queue.capacity ∧ (queue.records.get index).dispatchTaken = true
  | .commit id => id ∈ queue.activities.live ∧ (queue.activities.get id).stage = .claimed
  | .bindFailed id _ => id ∈ queue.activities.live ∧
      (queue.activities.get id).stage = .claimed ∧ queue.mode.isRuntime = false
  | .callReturned id _ => id ∈ queue.activities.live ∧
      (queue.activities.get id).stage = .running
  | .complete id => id ∈ queue.activities.live ∧
      ((∃ error, (queue.activities.get id).stage = .ended error) ∨
        ∃ failure, (queue.activities.get id).stage = .refused failure)
  | .takeOperation id => id ∈ queue.activities.live ∧
      ∃ error, (queue.activities.get id).stage = .finishing error
  | .callbackReturned id _ => id ∈ queue.activities.live ∧
      (∃ operation error, (queue.activities.get id).stage = .calling operation error) ∧
      (queue.activities.get id).lent = false
  | .retire id => id ∈ queue.activities.live ∧
      ∃ operation error, (queue.activities.get id).stage = .retiring operation error
  | .availableReturned id => id ∈ queue.activities.live ∧
      ∃ context error, (queue.activities.get id).stage = .notifying context error
  | .unnotify id => id ∈ queue.activities.live ∧ (queue.activities.get id).stage = .notified
  | .leave id => id ∈ queue.activities.live ∧ (queue.activities.get id).stage = .leaving
  | .lend id => id ∈ queue.activities.live ∧ (queue.activities.get id).service = true ∧
      (queue.activities.get id).lent = false ∧
      ∃ operation error, (queue.activities.get id).stage = .calling operation error
  | .resume id => id ∈ queue.activities.live ∧ (queue.activities.get id).lent = true
  | .cancelQueued index => index < queue.capacity ∧ queue.stopping = true

end QueueAction

namespace FileWorkQueue

/-- The queue its constructors leave; a compile queue starts its services. -/
def constructed (mode : QueueMode) (capacity : Nat) : FileWorkQueue where
  mode := mode
  capacity := capacity
  records := ⟨Finset.range capacity, fun _ => .initial⟩
  producers := fun _ => false
  classPending := fun _ => 0
  queued := fun _ => 0
  demand := fun _ => false
  pending := 0
  cursor := 0
  notifying := 0
  busyServices := 0
  stopping := false
  shutdown := false
  activities := .empty ⟨0, 0, false, false, .leaving⟩
  started := 0
  completions := 0
  histories := fun _ => .opened 0

inductive Reachable : FileWorkQueue → Prop
  | constructed (mode : QueueMode) (capacity : Nat) (hcapacity : 0 < capacity) :
      Reachable (constructed mode capacity)
  | step {queue : FileWorkQueue} (action : QueueAction) (h : Reachable queue)
      (henabled : action.Enabled queue) : Reachable (action.run queue).1

end FileWorkQueue

end Mmltk.Compile
