import Mathlib.Algebra.Group.Defs
import Mmltk.Training.BucketLayout

namespace Mmltk.Training

/-! The reducer's state. A parameter's value is its window of its bucket's tensor. -/

structure Slot (M : Type) where
  gradients : Nat → Option M
  remaining : Nat → Nat
  closed : Nat → Bool
  armed : Bool
  contribution : Nat

structure Hook (M : Type) where
  contribution : Nat
  parameter : Nat
  gradient : M
  deriving DecidableEq, Repr

structure Closing where
  contribution : Nat
  bucket : Nat
  deriving DecidableEq, Repr

/-- A collective, with what it was given to reduce. -/
structure Collective (M : Type) where
  bucket : Nat
  values : List M
  deriving DecidableEq, Repr

/-- `hooked` and `closings` remember the attempt: every gradient a hook was given and every bucket
that was closed, each by its contribution. -/
structure Reducer (M : Type) where
  distributed : Bool
  directLayout : Bool
  slotCount : Nat
  slots : Nat → Slot M
  values : Nat → M
  bucketClosed : Nat → Nat
  hostUsage : Nat → Nat
  gradient : Nat → Option M
  masterGrad : Nat → Option M
  submitted : List (Collective M)
  expected : Nat
  admitted : Nat
  finished : Nat
  nextBucket : Nat
  active : Bool
  countsSubmitted : Bool
  direct : Bool
  handedOff : Bool
  failure : Bool
  hooked : List (Hook M)
  closings : List Closing

namespace Reducer

variable {M : Type} [AddCommMonoid M]

def initial (distributed directLayout : Bool) (slotCount : Nat) : Reducer M where
  distributed := distributed
  directLayout := directLayout
  slotCount := slotCount
  slots _ := ⟨fun _ => none, fun _ => 0, fun _ => false, false, 0⟩
  values _ := 0
  bucketClosed _ := 0
  hostUsage _ := 0
  gradient _ := none
  masterGrad _ := none
  submitted := []
  expected := 0
  admitted := 0
  finished := 0
  nextBucket := 0
  active := false
  countsSubmitted := false
  direct := false
  handedOff := false
  failure := false
  hooked := []
  closings := []

variable (layout : BucketLayout) (reducer : Reducer M)

/-- One turn of the loop in `launch_ready`. -/
def launchNext : Reducer M :=
  { reducer with
    submitted := reducer.submitted ++
      [⟨reducer.nextBucket, (layout.parameters reducer.nextBucket).map reducer.values⟩],
    nextBucket := reducer.nextBucket + 1 }

/-- The loop runs at most once for every bucket that is left. -/
def launchLoop (layout : BucketLayout) : Nat → Reducer M → Reducer M
  | 0, reducer => reducer
  | left + 1, reducer =>
      if reducer.bucketClosed reducer.nextBucket = reducer.expected then
        launchLoop layout left (reducer.launchNext layout)
      else reducer

def launchReady : Reducer M :=
  if reducer.countsSubmitted = false ∨ reducer.direct = true then reducer
  else launchLoop layout (layout.size - reducer.nextBucket) reducer

/-- `close` up to its `launch_ready`: the slot's gradients of the bucket join the bucket's values
and are marked as used. -/
def closeBucket (slot bucket : Nat) : Reducer M :=
  { reducer with
    slots := Function.update reducer.slots slot { reducer.slots slot with
      gradients := fun parameter =>
        if parameter ∈ layout.parameters bucket then none
        else (reducer.slots slot).gradients parameter,
      closed := Function.update (reducer.slots slot).closed bucket true },
    values := fun parameter =>
      if parameter ∈ layout.parameters bucket then
        match (reducer.slots slot).gradients parameter with
        | some gradient => reducer.values parameter + gradient
        | none => reducer.values parameter
      else reducer.values parameter,
    hostUsage := fun parameter =>
      if parameter ∈ layout.parameters bucket ∧
          ((reducer.slots slot).gradients parameter).isSome then 1
      else reducer.hostUsage parameter,
    bucketClosed := Function.update reducer.bucketClosed bucket (reducer.bucketClosed bucket + 1),
    closings := reducer.closings ++ [⟨(reducer.slots slot).contribution, bucket⟩] }

def close (slot bucket : Nat) : Reducer M :=
  if (reducer.slots slot).closed bucket then reducer
  else (reducer.closeBucket layout slot bucket).launchReady layout

def check : Except String Unit :=
  if reducer.failure then .error "failure" else .ok ()

/-- `slots.at(index)` -/
def slotAt (slot : Nat) : Except String (Slot M) :=
  if slot < reducer.slotCount then .ok (reducer.slots slot) else .error "out of range"

/-- The slot keeps the gradient until its bucket is closed. -/
def produce (slot parameter : Nat) (gradient : M) : Reducer M :=
  { reducer with
    slots := Function.update reducer.slots slot { reducer.slots slot with
      gradients := Function.update (reducer.slots slot).gradients parameter (some gradient) },
    hooked := reducer.hooked ++ [⟨(reducer.slots slot).contribution, parameter, gradient⟩] }

/-- `--remaining` -/
def countDown (slot bucket : Nat) : Reducer M :=
  { reducer with
    slots := Function.update reducer.slots slot { reducer.slots slot with
      remaining := Function.update (reducer.slots slot).remaining bucket
        ((reducer.slots slot).remaining bucket - 1) } }

def hook (index parameter : Nat) (gradient : M) : Except String (Reducer M) := do
  reducer.check
  let slot ← reducer.slotAt index
  if !reducer.active || !slot.armed || (slot.gradients parameter).isSome ||
      slot.closed (layout.bucket parameter) then
    .error "gradient hook outside its contribution"
  else
    let produced := reducer.produce index parameter gradient
    if produced.direct then .ok produced
    else
      let counted := produced.countDown index (layout.bucket parameter)
      if (counted.slots index).remaining (layout.bucket parameter) = 0 then
        .ok (counted.close layout index (layout.bucket parameter))
      else .ok counted

def beginAttempt (count : Nat) : Except String (Reducer M) := do
  reducer.check
  if reducer.active || count = 0 then .error "invalid gradient attempt admission"
  else
    let direct := !reducer.distributed && count = 1 && reducer.slotCount = 1 &&
      reducer.directLayout
    .ok { reducer with
      direct := direct,
      masterGrad := fun _ => none,
      gradient := fun _ => none,
      values := if direct then reducer.values else fun _ => 0,
      bucketClosed := fun _ => 0,
      hostUsage := fun _ => 0,
      submitted := [],
      expected := count,
      admitted := 0,
      finished := 0,
      nextBucket := 0,
      countsSubmitted := false,
      handedOff := false,
      active := true,
      hooked := [],
      closings := [] }

def arm (index : Nat) : Except String (Reducer M) := do
  reducer.check
  let slot ← reducer.slotAt index
  if !reducer.active || slot.armed || reducer.admitted = reducer.expected then
    .error "invalid gradient contribution admission"
  else
    .ok { reducer with
      slots := Function.update reducer.slots index { slot with
        armed := true,
        closed := fun _ => false,
        remaining := fun bucket => (layout.parameters bucket).length,
        contribution := reducer.admitted },
      admitted := reducer.admitted + 1 }

/-- The bucket loop of `collect`. -/
def closeAll (index : Nat) : Reducer M :=
  (List.range layout.size).foldl (fun reducer bucket => reducer.close layout index bucket) reducer

/-- The direct branch of `collect`: `exclusive` says whose gradient owns its dense storage and is
handed on as it is; the others are copied into their view. -/
def collectDirect (index : Nat) (exclusive : Nat → Bool) : Reducer M :=
  let gradients := (reducer.slots index).gradients
  { reducer with
    slots := Function.update reducer.slots index { reducer.slots index with
      gradients := fun parameter =>
        if parameter < layout.parameterCount then none else gradients parameter },
    values := fun parameter =>
      if parameter < layout.parameterCount && !exclusive parameter then
        (gradients parameter).getD (reducer.values parameter)
      else reducer.values parameter,
    gradient := fun parameter =>
      if parameter < layout.parameterCount && (gradients parameter).isSome then gradients parameter
      else reducer.gradient parameter,
    hostUsage := fun parameter =>
      if parameter < layout.parameterCount && (gradients parameter).isSome then 1
      else reducer.hostUsage parameter }

/-- `slot.armed = false; ++finished` -/
def disarm (index : Nat) : Reducer M :=
  { reducer with
    slots := Function.update reducer.slots index { reducer.slots index with armed := false },
    finished := reducer.finished + 1 }

def collect (index : Nat) (sameStream : Bool) (exclusive : Nat → Bool) :
    Except String (Reducer M) := do
  reducer.check
  let slot ← reducer.slotAt index
  if !slot.armed then .error "gradient graph returned without an armed contribution"
  else if reducer.direct then
    if !sameStream then .error "direct gradient contribution changed its caller stream"
    else .ok ((reducer.collectDirect layout index exclusive).disarm index)
  else .ok ((reducer.closeAll layout index).disarm index)

/-- Every bucket counts one more contribution that closed it. -/
def closeEmpty : Reducer M :=
  { reducer with
    bucketClosed := fun bucket =>
      if bucket < layout.size then reducer.bucketClosed bucket + 1 else reducer.bucketClosed bucket,
    admitted := reducer.admitted + 1,
    finished := reducer.finished + 1,
    closings := reducer.closings ++ (List.range layout.size).map fun bucket =>
      ⟨reducer.admitted, bucket⟩ }

def contributeEmpty : Except String (Reducer M) := do
  reducer.check
  if !reducer.active || reducer.admitted = reducer.expected then
    .error "invalid empty gradient contribution"
  else .ok ((reducer.closeEmpty layout).launchReady layout)

def enableGradientLaunchAfterCounts : Except String (Reducer M) := do
  reducer.check
  if !reducer.active then .error "gradient launch outside attempt"
  else .ok (({ reducer with countsSubmitted := true } : Reducer M).launchReady layout)

/-- What the collectives of every rank made of the values and of the usage counts. -/
structure Reduced (M : Type) where
  values : Nat → M
  usage : Nat → Nat

def finishAttempt (reduced : Reduced M) : Except String (Reducer M × List M) := do
  reducer.check
  if !reducer.active || reducer.handedOff || !reducer.countsSubmitted ||
      reducer.finished ≠ reducer.expected ||
      (!reducer.direct && reducer.nextBucket ≠ layout.size) then
    .error "incomplete gradient attempt"
  else
    let values := if reducer.distributed then reduced.values else reducer.values
    let hostUsage := if reducer.distributed then reduced.usage else reducer.hostUsage
    let gradient := fun parameter =>
      if !reducer.direct && (reducer.distributed || hostUsage parameter ≠ 0) then
        some (values parameter)
      else reducer.gradient parameter
    .ok ({ reducer with
      values := values,
      hostUsage := hostUsage,
      gradient := gradient,
      handedOff := true }, (List.range layout.parameterCount).filterMap gradient)

def finalizeAttempt (released : Bool) : Except String (Reducer M) := do
  reducer.check
  if !reducer.active || !reducer.handedOff then
    .error "gradient usage projection before device handoff"
  else if reducer.distributed && !released then
    .error "gradient usage projection before metric completion"
  else
    .ok { reducer with
      masterGrad := fun parameter =>
        if parameter < layout.parameterCount && reducer.hostUsage parameter ≠ 0 then
          reducer.gradient parameter
        else reducer.masterGrad parameter,
      active := false }

/-! One attempt. A call that throws leaves the reducer as it was. -/

inductive Call (layout : BucketLayout) (M : Type) where
  | arm (slot : Nat)
  | hook (slot : Nat) (parameter : Fin layout.parameterCount) (gradient : M)
  | collect (slot : Nat) (sameStream : Bool) (exclusive : Nat → Bool)
  | contributeEmpty
  | enableGradientLaunchAfterCounts

def call : Call layout M → Except String (Reducer M)
  | .arm slot => reducer.arm layout slot
  | .hook slot parameter gradient => reducer.hook layout slot parameter gradient
  | .collect slot sameStream exclusive => reducer.collect layout slot sameStream exclusive
  | .contributeEmpty => reducer.contributeEmpty layout
  | .enableGradientLaunchAfterCounts => reducer.enableGradientLaunchAfterCounts layout

def step (call : Call layout M) : Reducer M :=
  match reducer.call layout call with
  | .ok next => next
  | .error _ => reducer

def run (calls : List (Call layout M)) : Reducer M :=
  calls.foldl (step layout) reducer

end Reducer

end Mmltk.Training
