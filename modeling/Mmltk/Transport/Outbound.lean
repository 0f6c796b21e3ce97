import Mathlib.Algebra.Group.Nat.Defs
import Mathlib.Data.List.Basic

namespace Mmltk.Transport

/-! Records the frontend sends to its server. -/

def outboundCapacity : Nat := 64

/-- The largest `usize` of the browser's machine. -/
def usizeMax : Nat := 2 ^ 32 - 1

inductive PresentationSourceKind where
  | none
  | explore
  | annotation
  | predict
  | live
  | upscale
  | validation
  deriving DecidableEq, Repr

/-- What the generated tables answer: the endpoints of the interactions, the endpoint a mouse
record belongs to, and whether an intent's endpoint is one of the annotation system. -/
structure OutboundRouting where
  interactionEndpoints : List Nat
  workspaceMouseEndpoint : PresentationSourceKind → Option Nat
  annotationIntent : Nat → Bool

variable {V : Type}

structure Intent (V : Type) where
  correlation : Nat
  endpointId : Nat
  fields : V
  deriving DecidableEq, Repr

structure Interaction (V : Type) where
  endpointId : Nat
  value : V
  deriving DecidableEq, Repr

structure ScheduledInteraction (V : Type) where
  replaceable : Bool
  record : Interaction V
  deriving DecidableEq, Repr

structure WorkspaceMouse (V : Type) where
  source : PresentationSourceKind
  peerepoch : Nat
  input : V
  deriving DecidableEq, Repr

inductive OutboundRecord (V : Type) where
  | wake
  | intent (intent : Intent V)
  | interaction (interaction : ScheduledInteraction V)
  | mouse (mouse : WorkspaceMouse V)
  | integrationControl (receipt : V)
  deriving DecidableEq, Repr

inductive SendDisposition where
  | queued
  | dropped
  deriving DecidableEq, Repr

inductive OutboundSendError where
  | closed
  | capacity
  | allocation
  deriving DecidableEq, Repr

/-- `pressureObservation` holds the sequence, the mouse records admitted since, and whether the
peer was told. -/
structure Outbound (V : Type) where
  records : List (OutboundRecord V)
  closed : Bool
  epoch : Nat
  writable : Bool
  adjacentRecord : Bool
  pressureObservation : Option (Nat × Nat × Bool)
  submittedInteractions : List (Nat × Bool)
  deriving DecidableEq, Repr

namespace Outbound

def default (routing : OutboundRouting) : Outbound V where
  records := []
  closed := false
  epoch := 0
  writable := false
  adjacentRecord := false
  pressureObservation := none
  submittedInteractions := routing.interactionEndpoints.map fun endpoint => (endpoint, false)

/-- The first entry of an endpoint takes a new flag. -/
def mark (endpoint : Nat) (flag : Bool) : List (Nat × Bool) → List (Nat × Bool)
  | [] => []
  | (candidate, submitted) :: rest =>
      if candidate = endpoint then (candidate, flag) :: rest
      else (candidate, submitted) :: mark endpoint flag rest

def submitted (outbound : Outbound V) (endpoint : Nat) : Outbound V :=
  { outbound with submittedInteractions := mark endpoint true outbound.submittedInteractions }

def takeInteractionSubmission (outbound : Outbound V) (endpoint : Nat) : Outbound V × Bool :=
  ({ outbound with submittedInteractions := mark endpoint false outbound.submittedInteractions },
    (outbound.submittedInteractions.find? fun entry => entry.1 = endpoint).any (·.2))

def observeIntegrationPressure (outbound : Outbound V) (sequence : Nat) : Outbound V :=
  { outbound with pressureObservation := some (sequence, 0, false) }

/-- The lock section of `send_workspace_mouse`; `reserved` is what `try_reserve` answered. A call
that could not reserve closes the connection next. -/
def sendWorkspaceMouse (outbound : Outbound V) (mouse : WorkspaceMouse V) (reserved : Bool) :
    Outbound V × Except OutboundSendError SendDisposition :=
  if reserved then
    ({ outbound with
      records := outbound.records ++ [.mouse mouse],
      pressureObservation := outbound.pressureObservation.map fun (sequence, admitted, entered) =>
        (sequence, min (admitted + 1) usizeMax, entered),
      adjacentRecord := false }, .ok .queued)
  else (outbound, .error .allocation)

/-- The record to replace is an interaction of the same endpoint, enqueued just before. -/
def replaces : OutboundRecord V → Option (OutboundRecord V) → Bool
  | .interaction next, some (.interaction prior) =>
      next.replaceable && prior.record.endpointId = next.record.endpointId
  | _, _ => false

def orderedDocument (routing : OutboundRouting) : OutboundRecord V → Bool
  | .intent intent => routing.annotationIntent intent.endpointId
  | _ => false

/-- The lock section of `send`. An ordered document that could not be reserved for closes the
connection next. -/
def send (routing : OutboundRouting) (outbound : Outbound V) (record : OutboundRecord V)
    (transient reserved : Bool) : Outbound V × Except OutboundSendError SendDisposition :=
  if outbound.adjacentRecord && replaces record outbound.records.getLast? then
    ({ outbound with records := outbound.records.dropLast ++ [record] }, .ok .queued)
  else if !orderedDocument routing record && outbound.records.length ≥ outboundCapacity then
    (outbound, if transient then .ok .dropped else .error .capacity)
  else if reserved then
    ({ outbound with records := outbound.records ++ [record], adjacentRecord := true },
      .ok .queued)
  else (outbound, .error .allocation)

/-- A bootstrap record's input epoch; other records do not concern the queue. -/
def observe (outbound : Outbound V) (bootstrap : Option Nat) : Except String (Outbound V) :=
  match bootstrap with
  | none => .ok outbound
  | some inputEpoch =>
      if inputEpoch = 0 then .error "workspace input peer is unavailable"
      else if outbound.epoch ≠ 0 ∧ outbound.epoch ≠ inputEpoch then
        .error "workspace input peer changed on an established connection"
      else .ok { outbound with epoch := inputEpoch }

def close (outbound : Outbound V) : Outbound V :=
  { outbound with closed := true, records := [], writable := false }

end Outbound

/-! Writing. -/

def OutboundRecord.stamp (epoch : Nat) : OutboundRecord V → OutboundRecord V
  | .mouse record => .mouse { record with peerepoch := epoch }
  | record => record

/-- The endpoint whose submission a written record settles. -/
def OutboundRecord.endpoint (routing : OutboundRouting) : OutboundRecord V → Option Nat
  | .mouse record => routing.workspaceMouseEndpoint record.source
  | .interaction scheduled => some scheduled.record.endpointId
  | _ => none

/-- A record as it was written: from the queue, or the notice of pressure. -/
inductive WireRecord (V : Type) where
  | queued (record : OutboundRecord V)
  | pressureEntered (sequence : Nat)
  deriving DecidableEq, Repr

/-- `Wake` is not a wire record. -/
def WireRecord.encode (codec : WireRecord V → Option (List UInt8)) :
    WireRecord V → Option (List UInt8)
  | .queued .wake => none
  | record => codec record

structure Drained (V : Type) where
  remaining : List (OutboundRecord V)
  sent : List (OutboundRecord V)
  failed : Bool

/-- `while let Some(record) = retained.records.pop_front()`, the socket answering each attempt. -/
def drain (codec : WireRecord V → Option (List UInt8)) (epoch : Nat) (answers : Nat → Bool) :
    Nat → List (OutboundRecord V) → Drained V
  | _, [] => ⟨[], [], false⟩
  | attempt, record :: rest =>
      let stamped := record.stamp epoch
      if ((WireRecord.queued stamped).encode codec).isSome && answers attempt then
        let later := drain codec epoch answers (attempt + 1) rest
        { later with sent := stamped :: later.sent }
      else ⟨rest, [], true⟩

structure Flushed (V : Type) where
  outbound : Outbound V
  written : List (WireRecord V)
  failed : Bool

namespace Outbound

/-- After the queue, the peer is told once that the pressure it asked about was entered. -/
def announcePressure (codec : WireRecord V → Option (List UInt8)) (answers : Nat → Bool)
    (attempt : Nat) (outbound : Outbound V) : Flushed V :=
  match outbound.pressureObservation with
  | some (sequence, admitted, false) =>
      if admitted > outboundCapacity then
        if (WireRecord.encode codec (.pressureEntered sequence)).isSome && answers attempt then
          ⟨{ outbound with pressureObservation := some (sequence, admitted, true) },
            [.pressureEntered sequence], false⟩
        else ⟨outbound, [], true⟩
      else ⟨outbound, [], false⟩
  | _ => ⟨outbound, [], false⟩

def flush (routing : OutboundRouting) (codec : WireRecord V → Option (List UInt8))
    (answers : Nat → Bool) (outbound : Outbound V) : Flushed V :=
  if outbound.closed then ⟨outbound, [], true⟩
  else if outbound.epoch = 0 then ⟨outbound, [], false⟩
  else
    let drained := drain codec outbound.epoch answers 0 outbound.records
    let submitted := (drained.sent.filterMap (OutboundRecord.endpoint routing)).foldl submitted
      { outbound with
        records := drained.remaining,
        writable := if drained.remaining.length < outbound.records.length then false
          else outbound.writable }
    let written := drained.sent.map WireRecord.queued
    if drained.failed then ⟨submitted, written, true⟩
    else
      let announced := submitted.announcePressure codec answers drained.sent.length
      { announced with written := written ++ announced.written }

end Outbound

/-! A connection, its callers and the worker that writes it. -/

/-- `entered` counts the calls that have passed `require_open` and not yet taken the lock;
`accepted` and `entries` keep every record ever queued, before and after replacement. -/
structure Peer (V : Type) where
  outbound : Outbound V
  receiverDropped : Bool
  running : Bool
  entered : Nat
  written : List (WireRecord V)
  accepted : List (OutboundRecord V)
  entries : List (OutboundRecord V)
  deriving DecidableEq, Repr

inductive PeerEvent (V : Type) where
  | requireOpen
  | sendIntent (intent : Intent V) (reserved : Bool)
  | sendInteraction (interaction : ScheduledInteraction V) (reserved : Bool)
  | sendWorkspaceMouse (mouse : WorkspaceMouse V) (reserved : Bool)
  | sendIntegrationControl (receipt : V) (reserved : Bool)
  | takeInteractionSubmission (endpoint : Nat)
  | observeIntegrationPressure (sequence : Nat)
  | awaitWritable
  | observe (bootstrap : Option Nat)
  | flush (answers : Nat → Bool)
  | stop
  | close
  | dropReceiver

namespace Peer

def initial (routing : OutboundRouting) : Peer V :=
  ⟨.default routing, false, true, 0, [], [], []⟩

def isClosed (peer : Peer V) : Bool :=
  peer.receiverDropped || peer.outbound.closed

/-- A caller past `require_open` takes the lock; a queued record joins the log, in the place of
the last one when it replaced it. -/
def enqueue (peer : Peer V) (record : OutboundRecord V)
    (result : Outbound V × Except OutboundSendError SendDisposition) (replaced : Bool) : Peer V :=
  if peer.entered = 0 then peer
  else
    match result.2 with
    | .ok .queued => { peer with
        outbound := result.1,
        entered := peer.entered - 1,
        accepted := peer.accepted ++ [record],
        entries := (if replaced then peer.entries.dropLast else peer.entries) ++ [record] }
    | _ => { peer with outbound := result.1, entered := peer.entered - 1 }

def send (routing : OutboundRouting) (peer : Peer V) (record : OutboundRecord V)
    (transient reserved : Bool) : Peer V :=
  peer.enqueue record (peer.outbound.send routing record transient reserved)
    (peer.outbound.adjacentRecord && Outbound.replaces record peer.outbound.records.getLast?)

def step (routing : OutboundRouting) (codec : WireRecord V → Option (List UInt8)) (peer : Peer V) :
    PeerEvent V → Peer V
  | .requireOpen => if peer.isClosed then peer else { peer with entered := peer.entered + 1 }
  | .sendIntent intent reserved => peer.send routing (.intent intent) false reserved
  | .sendInteraction interaction reserved =>
      peer.send routing (.interaction interaction) true reserved
  | .sendWorkspaceMouse mouse reserved =>
      peer.enqueue (.mouse mouse) (peer.outbound.sendWorkspaceMouse mouse reserved) false
  | .sendIntegrationControl receipt reserved =>
      peer.send routing (.integrationControl receipt) false reserved
  | .takeInteractionSubmission endpoint =>
      { peer with outbound := (peer.outbound.takeInteractionSubmission endpoint).1 }
  | .observeIntegrationPressure sequence =>
      { peer with outbound := peer.outbound.observeIntegrationPressure sequence }
  | .awaitWritable =>
      if peer.isClosed || peer.outbound.records.length < outboundCapacity then peer
      else { peer with outbound := { peer.outbound with writable := true } }
  | .observe bootstrap =>
      if peer.running then
        match peer.outbound.observe bootstrap with
        | .ok outbound => { peer with outbound := outbound }
        | .error _ => { peer with running := false }
      else peer
  | .flush answers =>
      if peer.running then
        let flushed := peer.outbound.flush routing codec answers
        { peer with
          outbound := flushed.outbound,
          written := peer.written ++ flushed.written,
          running := !flushed.failed }
      else peer
  | .stop => { peer with running := false }
  | .close => { peer with outbound := peer.outbound.close }
  | .dropReceiver => if peer.running then peer else { peer with receiverDropped := true }

def run (routing : OutboundRouting) (codec : WireRecord V → Option (List UInt8))
    (events : List (PeerEvent V)) : Peer V :=
  events.foldl (step routing codec) (initial routing)

end Peer

end Mmltk.Transport
