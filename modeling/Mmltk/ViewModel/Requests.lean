import Mathlib.Algebra.Group.Nat.Defs
import Mmltk.ViewModel.Snapshots

namespace Mmltk.ViewModel

open Mmltk.Foundation

/-! Requests to the peer: registration, replies, abandonment and the loss of the peer. -/

def maxPendingIntents : Nat := 64

inductive ConnectionState where
  | connecting
  | awaitingBootstrap
  | connected
  | reconnecting
  deriving DecidableEq, Repr

/-- `T`, `R` and `F` are file dialog targets, model selection receipts and features. -/
inductive PendingDetail (T R F : Type) where
  | none
  | fileDialog (target : T)
  | modelSelect (receipt : R)
  | modelStop (feature : F)
  deriving DecidableEq

structure PendingRequest (E T R F : Type) where
  endpoint : E
  detail : PendingDetail T R F
  deriving DecidableEq

structure Intent (V : Type) where
  correlation : Nat
  endpointId : Nat
  fields : V

structure EncodedApplicationIntent (E V : Type) where
  endpoint : E
  record : Intent V

inductive ApplicationErrorCategory where
  | invalidIntent
  | busy
  | unavailable
  | failed
  deriving DecidableEq, Repr

structure ApplicationError where
  category : ApplicationErrorCategory
  detail : String
  deriving DecidableEq, Repr

/-- The generated facts about endpoints (`E`) and systems (`Y`). -/
structure Endpoints (E Y : Type) where
  decode : Nat → Option E
  system : E → Y
  fileDialogOpen : E
  fileDialogStop : E
  modelSelect : E
  modelStop : E
  annotation : Y
  explore : Y
  fileDialog : Y
  model : Y

/-- The part of the application model that requests go through; the pending ones by correlation. -/
structure RequestModel (E T R F : Type) where
  connection : ConnectionState
  dialogContext : Option T
  pending : List (Nat × PendingRequest E T R F)
  nextCorrelation : Nat
  settledReplies : List (Nat × Nat)

variable {E Y T R F V : Type} [DecidableEq E] [DecidableEq Y] [DecidableEq T]

namespace RequestModel

/-- `ApplicationModel::default`. -/
def initial : RequestModel E T R F where
  connection := .connecting
  dialogContext := none
  pending := []
  nextCorrelation := 1
  settledReplies := []

/-- `pending.get`. -/
def pendingRequest (model : RequestModel E T R F) (correlation : Nat) :
    Option (PendingRequest E T R F) :=
  (model.pending.find? fun entry => entry.1 = correlation).map Prod.snd

/-- `pending.remove`. -/
def removePending (model : RequestModel E T R F) (correlation : Nat) : RequestModel E T R F :=
  { model with pending := model.pending.filter fun entry => entry.1 ≠ correlation }

/-- The detail that a request of this endpoint is kept with. -/
def pendingDetail (endpoints : Endpoints E Y) (model : RequestModel E T R F) (expected : E)
    (detail : PendingDetail T R F) : Except UiError (PendingDetail T R F) :=
  if expected = endpoints.fileDialogOpen ∨ expected = endpoints.fileDialogStop then
    match detail with
    | .none =>
        match model.dialogContext with
        | some target => .ok (.fileDialog target)
        | none =>
            .error ⟨.invalidIntent, "Request unavailable", "No typed file-dialog target is registered."⟩
    | _ => .error (.protocol "invalid file-dialog pending detail")
  else if expected = endpoints.modelSelect then
    match detail with
    | .modelSelect receipt => .ok (.modelSelect receipt)
    | _ => .error (.protocol "missing model pending detail")
  else if expected = endpoints.modelStop then
    match detail with
    | .modelStop feature => .ok (.modelStop feature)
    | _ => .error (.protocol "missing model pending detail")
  else
    match detail with
    | .none => .ok .none
    | _ => .error (.protocol "pending detail does not belong to endpoint")

def busyText (endpoints : Endpoints E Y) (owner : Y) : String :=
  if owner = endpoints.explore then "An Explore request is already pending."
  else if owner = endpoints.fileDialog then "A file selection request is already pending."
  else if owner = endpoints.model then "A model request is already pending."
  else "A start or stop request for this operation is already pending."

/-- `register_intent_with_detail`; an encoder is any function of the correlation. -/
def registerIntentWithDetail (endpoints : Endpoints E Y) (expected : E)
    (detail : PendingDetail T R F) (encode : Nat → EncodedApplicationIntent E V) :
    Reduction (RequestModel E T R F) (Intent V) :=
  Transaction.read >>= fun model =>
    if model.connection ≠ .connected then
      Transaction.fail ⟨.transport, "Connection interrupted",
        "The application is not ready to accept requests."⟩
    else if 2 ^ 64 ≤ model.nextCorrelation + 1 then
      Transaction.fail (.protocol "Request correlation exhausted")
    else
      let correlation := model.nextCorrelation
      let encoded := encode correlation
      if encoded.record.correlation ≠ correlation ∨ encoded.record.endpointId = 0 then
        Transaction.fail (.protocol "generated intent encoder returned an invalid identity")
      else
        match endpoints.decode encoded.record.endpointId with
        | none =>
            Transaction.fail (.protocol
              "generated intent encoder returned an unknown or interaction identity")
        | some decoded =>
            if encoded.endpoint ≠ expected ∨ decoded ≠ expected then
              Transaction.fail (.protocol
                "generated intent wrapper and record identities do not match")
            else
              Transaction.lift (model.pendingDetail endpoints expected detail) >>= fun detail =>
                if maxPendingIntents ≤ model.pending.length then
                  Transaction.fail ⟨.busy, "Too many pending operations",
                    "Wait for an operation to finish before starting another."⟩
                else
                  let owner := endpoints.system expected
                  if owner ≠ endpoints.annotation ∧
                      model.pending.any fun entry => endpoints.system entry.2.endpoint = owner then
                    Transaction.fail ⟨.busy, "Operation already running", busyText endpoints owner⟩
                  else
                    Transaction.modify (fun model =>
                      { model with
                        nextCorrelation := correlation + 1
                        pending := model.pending ++ [(correlation, ⟨expected, detail⟩)] }) >>=
                      fun _ => pure encoded.record

def clearDialogTargetIfMatches (model : RequestModel E T R F) (target : T) : RequestModel E T R F :=
  if model.dialogContext = some target then { model with dialogContext := none } else model

def abandonIntent (endpoints : Endpoints E Y) (model : RequestModel E T R F) (correlation : Nat) :
    RequestModel E T R F :=
  match model.pendingRequest correlation with
  | none => model
  | some request =>
      let model := model.removePending correlation
      if request.endpoint = endpoints.fileDialogOpen ∨ request.endpoint = endpoints.fileDialogStop then
        match request.detail with
        | .fileDialog target => model.clearDialogTargetIfMatches target
        | _ => model
      else model

def clearPeerState (model : RequestModel E T R F) : RequestModel E T R F :=
  { model with pending := [], dialogContext := none }

def peerConnected (model : RequestModel E T R F) : RequestModel E T R F :=
  { model.clearPeerState with connection := .awaitingBootstrap }

def peerDisconnected (model : RequestModel E T R F) : RequestModel E T R F :=
  { model.clearPeerState with connection := .reconnecting }

/-- `install_bootstrap`: what its replacement takes over; a rejected bootstrap changes nothing. -/
def installBootstrap (model : RequestModel E T R F) (accepted : Bool) : RequestModel E T R F :=
  if accepted then
    { (initial : RequestModel E T R F) with
      nextCorrelation := model.nextCorrelation
      settledReplies := model.settledReplies
      connection := .connected }
  else model

/-- `accept_reply`, with the fingerprint that the result of the reply has. -/
def acceptReply (model : RequestModel E T R F) (correlation fingerprint : Nat) :
    RequestModel E T R F × Bool :=
  match model.settledReplies.find? fun settled => settled.1 = correlation with
  | some _ => (model, false)
  | none =>
      if correlation = 0 ∨ model.nextCorrelation ≤ correlation then (model, false)
      else if (model.pendingRequest correlation).isNone then (model, false)
      else
        let kept :=
          if model.settledReplies.length = maxPendingIntents then model.settledReplies.drop 1
          else model.settledReplies
        ({ model with settledReplies := kept ++ [(correlation, fingerprint)] }, true)

/-- What became of a request that had a reply. -/
inductive Settlement where
  | failed
  | wrongKind
  | installed
  deriving DecidableEq, Repr

/-- `reduce_reply`; a result is an error or a reply of some endpoint, and installing it may change
the dialog context. -/
def reduceReply (endpoints : Endpoints E Y) (installReply : E → Option T → Option T)
    (model : RequestModel E T R F) (correlation : Nat) (result : Except ApplicationError E) :
    RequestModel E T R F × Option Settlement :=
  match model.pendingRequest correlation with
  | none => (model, none)
  | some request =>
      let dialog : Bool :=
        request.endpoint = endpoints.fileDialogOpen || request.endpoint = endpoints.fileDialogStop
      match result with
      | .error _ =>
          let model :=
            match dialog, request.detail with
            | true, .fileDialog target => model.clearDialogTargetIfMatches target
            | _, _ => model
          (model.removePending correlation, some .failed)
      | .ok endpoint =>
          if endpoint ≠ request.endpoint then
            let model := if dialog then { model with dialogContext := none } else model
            (model.removePending correlation, some .wrongKind)
          else
            let model :=
              { model with dialogContext := installReply endpoint model.dialogContext }
            (model.removePending correlation, some .installed)

/-- A reply from the peer: the result is decoded for the endpoint that is pending. -/
def receiveReply (endpoints : Endpoints E Y) (installReply : E → Option T → Option T)
    (model : RequestModel E T R F) (correlation fingerprint : Nat)
    (decode : E → Except ApplicationError E) : RequestModel E T R F × Option Settlement :=
  match model.acceptReply correlation fingerprint with
  | (model, false) => (model, none)
  | (model, true) =>
      match model.pendingRequest correlation with
      | none => (model, none)
      | some request =>
          model.reduceReply endpoints installReply correlation (decode request.endpoint)

end RequestModel

end Mmltk.ViewModel
