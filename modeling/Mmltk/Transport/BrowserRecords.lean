import Mmltk.Foundation.Coalescing

namespace Mmltk.Transport

open Mmltk.Foundation

/-! Records a server sends to its browser peer. -/

inductive EventDelivery where
  | transient
  | critical
  | latestState
  deriving DecidableEq, Repr

structure SystemEvent (V : Type) where
  systemId : Nat
  eventId : Nat
  delivery : EventDelivery
  stateRevision : Nat
  value : V
  deriving DecidableEq, Repr

inductive ServerRecord (V : Type) where
  | bootstrap (value : V)
  | intentReply (value : V)
  | systemEvent (event : SystemEvent V)
  | interactionRejected (value : V)
  | integrationControl (value : V)
  deriving DecidableEq, Repr

/-- The events of the schema both sides are generated from: each identity, neither half of it
zero, has its delivery and a variant of its own. -/
structure EventSchema where
  delivery : Nat → Nat → Option EventDelivery
  variant : Nat → Nat → Nat
  nonzero : ∀ system event, (delivery system event).isSome → system ≠ 0 ∧ event ≠ 0
  injective : ∀ system event system' event', (delivery system event).isSome →
    (delivery system' event').isSome → variant system event = variant system' event' →
    system = system' ∧ event = event'

variable {V : Type}

def EventSchema.Admits (schema : EventSchema) : ServerRecord V → Prop
  | .systemEvent event => schema.delivery event.systemId event.eventId = some event.delivery
  | _ => True

/-! The native side. -/

inductive BrowserRecordPriority where
  | transient
  | critical
  deriving DecidableEq, Repr

inductive BrowserRecordPush where
  | enqueued
  | dropped
  | closePeer
  deriving DecidableEq, Repr

structure BrowserOutputRecord where
  bytes : List UInt8
  priority : BrowserRecordPriority
  stateSystem : Nat
  stateEvent : Nat
  stateRevision : Nat
  deriving DecidableEq, Repr

def priority (delivery : EventDelivery) : BrowserRecordPriority :=
  if delivery ≠ .transient then .critical else .transient

/-- `publish_record` with the priority every caller passes for its kind of record. -/
def outputRecord (encode : ServerRecord V → List UInt8) (record : ServerRecord V) :
    BrowserOutputRecord :=
  match record with
  | .systemEvent event =>
      if event.delivery = .latestState then
        ⟨encode record, priority event.delivery, event.systemId, event.eventId,
          event.stateRevision⟩
      else ⟨encode record, priority event.delivery, 0, 0, 0⟩
  | _ => ⟨encode record, .critical, 0, 0, 0⟩

def kBrowserRecordRingCapacity : Nat := 64

structure BrowserRecordRing where
  records : Nat → Option (BrowserOutputRecord)
  read : Nat
  write : Nat
  size : Nat

namespace BrowserRecordRing

def empty : BrowserRecordRing := ⟨fun _ => none, 0, 0, 0⟩

def slot (ring : BrowserRecordRing) (offset : Nat) : Nat :=
  (ring.read + offset) % kBrowserRecordRingCapacity

/-- The first slot from `offset` on that holds the same state, with that state's record. -/
def findState (ring : BrowserRecordRing) (record : BrowserOutputRecord) :
    Nat → Nat → Option (Nat × BrowserOutputRecord)
  | _, 0 => none
  | offset, remaining + 1 =>
      match ring.records (ring.slot offset) with
      | none => ring.findState record (offset + 1) remaining
      | some prior =>
          if prior.stateSystem ≠ record.stateSystem ∨ prior.stateEvent ≠ record.stateEvent then
            ring.findState record (offset + 1) remaining
          else some (offset, prior)

/-- `for (next = offset + 1; next != size_; ++next) records_[next - 1] = move(records_[next])` -/
def shift (ring : BrowserRecordRing) : Nat → Nat → BrowserRecordRing
  | _, 0 => ring
  | next, remaining + 1 =>
      shift { ring with
        records := Function.update
          (Function.update ring.records (ring.slot (next - 1)) (ring.records (ring.slot next)))
          (ring.slot next) none } (next + 1) remaining

def remove (ring : BrowserRecordRing) (offset : Nat) : BrowserRecordRing :=
  let shifted := ring.shift (offset + 1) (ring.size - (offset + 1))
  let write := (shifted.write + kBrowserRecordRingCapacity - 1) % kBrowserRecordRingCapacity
  { shifted with
    records := Function.update shifted.records write none,
    write := write,
    size := shifted.size - 1 }

def append (ring : BrowserRecordRing) (record : BrowserOutputRecord) :
    BrowserRecordRing × BrowserRecordPush :=
  if ring.size = kBrowserRecordRingCapacity then
    (ring, if record.priority = .transient then .dropped else .closePeer)
  else
    ({ ring with
      records := Function.update ring.records ring.write (some record),
      write := (ring.write + 1) % kBrowserRecordRingCapacity,
      size := ring.size + 1 }, .enqueued)

def push (ring : BrowserRecordRing) (record : BrowserOutputRecord) :
    BrowserRecordRing × BrowserRecordPush :=
  if record.stateSystem ≠ 0 ∧ record.stateEvent ≠ 0 then
    match ring.findState record 0 ring.size with
    | none => ring.append record
    | some (offset, prior) =>
        if prior.stateRevision ≥ record.stateRevision then (ring, .enqueued)
        else (ring.remove offset).append record
  else ring.append record

def pop (ring : BrowserRecordRing) : BrowserRecordRing × Option (BrowserOutputRecord) :=
  if ring.size = 0 then (ring, none)
  else
    ({ ring with
      records := Function.update ring.records ring.read none,
      read := (ring.read + 1) % kBrowserRecordRingCapacity,
      size := ring.size - 1 }, ring.records ring.read)

end BrowserRecordRing

/-! The frontend side. -/

structure ApplicationEvent (V : Type) where
  variant : Nat
  value : V
  deriving DecidableEq, Repr

structure FrontendSystemEvent (V : Type) where
  delivery : EventDelivery
  stateRevision : Nat
  event : ApplicationEvent V
  deriving DecidableEq, Repr

inductive TransportEvent (V : Type) where
  | bootstrap (value : V)
  | intentReply (value : V)
  | systemEvent (event : FrontendSystemEvent V)
  | integrationControl (value : V)
  | integrationInputSettled
  | rejected (value : V)
  deriving DecidableEq, Repr

/-- `decode_server` of an admitted record, then `application_event`. -/
def applicationEvent (schema : EventSchema) : ServerRecord V → TransportEvent V
  | .bootstrap value => .bootstrap value
  | .intentReply value => .intentReply value
  | .systemEvent event =>
      .systemEvent ⟨event.delivery, event.stateRevision,
        ⟨schema.variant event.systemId event.eventId, event.value⟩⟩
  | .interactionRejected value => .rejected value
  | .integrationControl value => .integrationControl value

/-- The closure of `find_map` in `retain_event`. -/
def sameState (next : FrontendSystemEvent V) : TransportEvent V → Option Nat
  | .systemEvent prior =>
      if prior.delivery = .latestState ∧ prior.event.variant = next.event.variant then
        some prior.stateRevision
      else none
  | _ => none

/-- `iter().enumerate().find_map(…)` -/
def findState (next : FrontendSystemEvent V) : Nat → List (TransportEvent V) → Option (Nat × Nat)
  | _, [] => none
  | index, prior :: rest =>
      match sameState next prior with
      | some revision => some (index, revision)
      | none => findState next (index + 1) rest

def retainAtEnd (pending : List (TransportEvent V)) (event : TransportEvent V) :
    Except String (List (TransportEvent V)) :=
  if pending.length = 64 then
    .error "essential application event continuity capacity exceeded"
  else .ok (pending ++ [event])

def retainEvent (pending : List (TransportEvent V)) (event : TransportEvent V) :
    Except String (List (TransportEvent V)) :=
  match event with
  | .systemEvent next =>
      if next.delivery = .latestState then
        match findState next 0 pending with
        | some (index, revision) =>
            if next.stateRevision ≤ revision then .ok pending
            else retainAtEnd (pending.eraseIdx index) event
        | none => retainAtEnd pending event
      else if next.delivery = .transient ∧ pending.length = 64 then .ok pending
      else retainAtEnd pending event
  | _ => retainAtEnd pending event

/-! Both sides under one sequence of requests, until the connection ends. -/

structure NativeSide where
  ring : BrowserRecordRing
  sent : List (BrowserOutputRecord)
  closed : Bool

def NativeSide.initial : NativeSide := ⟨.empty, [], false⟩

def NativeSide.step (encode : ServerRecord V → List UInt8) (side : NativeSide)
    (request : Coalescing.Request (ServerRecord V)) : NativeSide :=
  if side.closed then side
  else
    match request with
    | .push record =>
        let result := side.ring.push (outputRecord encode record)
        { side with ring := result.1, closed := result.2 = .closePeer }
    | .pop =>
        let result := side.ring.pop
        { side with ring := result.1, sent := side.sent ++ result.2.toList }

def NativeSide.run (encode : ServerRecord V → List UInt8)
    (requests : List (Coalescing.Request (ServerRecord V))) : NativeSide :=
  requests.foldl (.step encode) .initial

structure FrontendSide (V : Type) where
  pending : List (TransportEvent V)
  delivered : List (TransportEvent V)
  closed : Bool

def FrontendSide.initial : FrontendSide V := ⟨[], [], false⟩

def FrontendSide.step (schema : EventSchema) (side : FrontendSide V)
    (request : Coalescing.Request (ServerRecord V)) : FrontendSide V :=
  if side.closed then side
  else
    match request with
    | .push record =>
        match retainEvent side.pending (applicationEvent schema record) with
        | .ok pending => { side with pending := pending }
        | .error _ => { side with closed := true }
    | .pop =>
        match side.pending with
        | [] => side
        | event :: rest => { side with pending := rest, delivered := side.delivered ++ [event] }

def FrontendSide.run (schema : EventSchema)
    (requests : List (Coalescing.Request (ServerRecord V))) : FrontendSide V :=
  requests.foldl (.step schema) .initial

end Mmltk.Transport
