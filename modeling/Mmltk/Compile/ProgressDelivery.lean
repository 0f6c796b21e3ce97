import Mmltk.Foundation.RingBuffer

namespace Mmltk.Compile

open Mmltk.Foundation

/-! The observer worker of a compile. The owner's mutex protects all of its state, so each step below
is what one thread does between taking that mutex and releasing it. -/

inductive CompileProgressDeliveryMode where
  | dirty
  | boundary
  | lifecycle
  | warning
  deriving DecidableEq, Repr

/-- A failure of the delivery itself, or an exception of `materialize_` or the observer. -/
inductive DeliveryFault (ε : Type) where
  | runtime (message : String)
  | raised (exception : ε)
  deriving DecidableEq, Repr

namespace ProgressDelivery

def capacity : Nat := 64

structure Item (α : Type) where
  value : α
  sequence : Nat
  mode : CompileProgressDeliveryMode
  deriving DecidableEq, Repr

def Item.lifecycle {α : Type} (item : Item α) : Bool := item.mode = .lifecycle

/-- Where the worker is while it does not hold the mutex: about to look for work, in the observer,
in the diagnostic, in the failure callback, or gone. -/
inductive Worker (α : Type) where
  | looking
  | observing (item : Item α)
  | reporting
  | failing
  | returned
  deriving DecidableEq, Repr

end ProgressDelivery

open ProgressDelivery

/-- A delivery with an observer; without one every call returns at once. -/
structure CompileProgressDelivery (α ε : Type) where
  pending : RingBuffer (Item α)
  submitted : Nat
  delivered : Nat
  flushThrough : Nat
  dirty : Bool
  stopping : Bool
  failureNotified : Bool
  failure : Option (DeliveryFault ε)
  worker : Worker α

namespace CompileProgressDelivery

variable {α ε : Type}

def initial : CompileProgressDelivery α ε :=
  ⟨.empty, 0, 0, 0, false, false, false, none, .looking⟩

/-- Cumulative facts and warnings cannot consume lifecycle capacity: the oldest of them goes. -/
def evict (ring : RingBuffer (Item α)) : RingBuffer (Item α) :=
  match ring.find capacity (fun item => !item.lifecycle) 0 ring.size with
  | none => ring
  | some offset => ring.remove capacity offset

/-- `changed`; `materialized` is what `materialize_` returns if it is called. -/
def changed (delivery : CompileProgressDelivery α ε) (mode : CompileProgressDeliveryMode)
    (materialized : Except ε α) :
    CompileProgressDelivery α ε × Except (DeliveryFault ε) Unit :=
  match delivery.failure with
  | some fault => (delivery, if mode = .warning then .ok () else .error fault)
  | none =>
      if mode = .dirty then
        ({ delivery with submitted := delivery.submitted + 1, dirty := true }, .ok ())
      else if mode = .warning ∧ delivery.pending.size = capacity then (delivery, .ok ())
      else
        let sequence := delivery.submitted + 1
        let ring :=
          if delivery.pending.size = capacity then evict delivery.pending else delivery.pending
        if ring.size = capacity then
          let fault := .runtime "compile progress lifecycle capacity exhausted"
          ({ delivery with submitted := sequence, pending := ring, failure := some fault },
            .error fault)
        else
          match materialized with
          | .error exception =>
              if mode = .warning then ({ delivery with pending := ring }, .ok ())
              else
                ({ delivery with
                    submitted := sequence
                    pending := ring
                    failure := some (.raised exception) },
                  .error (.raised exception))
          | .ok value =>
              ({ delivery with
                  submitted := sequence
                  pending := ring.push capacity ⟨value, sequence, mode⟩
                  dirty := false },
                .ok ())

/-- `flush` until it waits: what it waits for is `submitted_`. -/
def flush (delivery : CompileProgressDelivery α ε) : CompileProgressDelivery α ε :=
  { delivery with flushThrough := delivery.submitted }

/-- `flush` from its wait on: `none` while it still waits. -/
def flushed (delivery : CompileProgressDelivery α ε) (through : Nat) :
    Option (Except (DeliveryFault ε) Unit) :=
  match delivery.failure with
  | some fault => if delivery.failureNotified then some (.error fault) else none
  | none => if delivery.delivered ≥ through then some (.ok ()) else none

/-- `drain` from the head of its loop until it gives the mutex up; `elapsed` tells whether the
deadline of the dirty facts has passed. -/
def drain (delivery : CompileProgressDelivery α ε) (elapsed : Bool)
    (materialized : Except ε α) : CompileProgressDelivery α ε :=
  if delivery.failure.isSome then { delivery with worker := .failing }
  else if delivery.pending.size = 0 ∧ ¬ delivery.dirty then
    if delivery.stopping then { delivery with worker := .returned } else delivery
  else if delivery.pending.size = 0 ∧ delivery.flushThrough ≤ delivery.delivered ∧ ¬ elapsed then
    delivery
  else if delivery.pending.size ≠ 0 then
    match delivery.pending.peek capacity 0 with
    | none => delivery
    | some item =>
        { delivery with pending := delivery.pending.pop capacity, worker := .observing item }
  else
    match materialized with
    | .error exception => { delivery with failure := some (.raised exception) }
    | .ok value =>
        { delivery with dirty := false, worker := .observing ⟨value, delivery.submitted, .dirty⟩ }

/-- The observer returned, or raised; `diagnostic` tells whether a diagnostic follows. -/
def observed (delivery : CompileProgressDelivery α ε) (item : Item α) (raised : Option ε)
    (diagnostic : Bool) : CompileProgressDelivery α ε :=
  { delivery with
    delivered := item.sequence
    failure :=
      match raised with
      | some exception =>
          if item.mode = .warning then delivery.failure else some (.raised exception)
      | none => delivery.failure
    worker := if diagnostic then .reporting else .looking }

/-- The failure callback returned. -/
def notified (delivery : CompileProgressDelivery α ε) : CompileProgressDelivery α ε :=
  { delivery with failureNotified := true, worker := .returned }

/-- The destructor, once its own flush is over. -/
def stop (delivery : CompileProgressDelivery α ε) : CompileProgressDelivery α ε :=
  { delivery with stopping := true }

end CompileProgressDelivery

end Mmltk.Compile
