import Mmltk.Dataset.MaskRuns

namespace Mmltk.Dataset

open Mmltk.Foundation

/-! A mask resized by the nearest source pixel, in steps. -/

structure ImageResizeGeometry where
  resizedWidth : Nat
  resizedHeight : Nat
  offsetX : Nat
  offsetY : Nat
  deriving DecidableEq, Repr

/-- The first target coordinate whose nearest source coordinate is not below the bound. -/
def inverseMaskCoordinate (bound sourceExtent targetExtent : Nat) : Nat :=
  let numerator := 2 * targetExtent * bound
  if numerator ≤ sourceExtent then 0
  else
    let denominator := 2 * sourceExtent
    min targetExtent ((numerator - sourceExtent + denominator - 1) / denominator)

inductive Stage where
  | source
  | head
  | full
  | fullSlab
  | tail
  | finalFlush
  | finish
  deriving DecidableEq, Repr

/-- What the constructor fixes. -/
structure MaskProjectionInput where
  pairs : List RLEPair
  sourceDimensions : MaskDimensions
  geometry : ImageResizeGeometry
  first : Nat
  pixels : Nat
  full : Interval
  identity : Bool

structure RowMajorMaskProjection where
  intervals : List Interval
  cursor : Nat
  source : RowMajorMaskBounds
  emitter : MaskRunEmitter
  slab : MaskRunEmitter.Slab
  previousEnd : Nat
  remaining : Nat
  pendingRow : Nat
  row : Nat
  x : Nat
  rows : Nat
  stage : Stage
  slabActive : Bool
  clearIntervals : Bool
  finished : Bool
  failed : Bool

namespace RowMajorMaskProjection

/-- `scratch` is `none` for a null pointer. -/
def create (pairs : List RLEPair) (source target : MaskDimensions) (geometry : ImageResizeGeometry)
    (scratch : Option (List Interval)) (output : List RLEPair) (maximum : Nat) :
    Except MaskError (MaskProjectionInput × RowMajorMaskProjection) :=
  let input : MaskProjectionInput :=
    { pairs, sourceDimensions := source, geometry, first := output.length, pixels := 0
      full := (0, 0), identity := false }
  let projection : RowMajorMaskProjection :=
    { intervals := scratch.getD [], cursor := 0, source := {}
      emitter := .create output output.length target.width "mask run start overflow"
        "mask run length overflow" maximum
      slab := ⟨0, 0, [], 0⟩, previousEnd := 0, remaining := 0, pendingRow := 0, row := 0, x := 0
      rows := 0, stage := .source, slabActive := false, clearIntervals := false, finished := false
      failed := false }
  if scratch = none ∨ geometry.resizedWidth = 0 ∨ geometry.resizedHeight = 0 ∨
      target.width < geometry.resizedWidth ∨ target.height < geometry.resizedHeight ∨
      target.width - geometry.resizedWidth < geometry.offsetX ∨
      target.height - geometry.resizedHeight < geometry.offsetY then
    .error (.invalidArgument "mask resize parameters are invalid")
  else if pairs = [] then .ok (input, { projection with finished := true })
  else do
    let pixels ← checkedPixelCount source
    let _ ← checkedPixelCount target
    return ({ input with
      pixels
      identity := decide (source.width = target.width ∧ source.height = target.height ∧
        geometry.resizedWidth = source.width ∧ geometry.resizedHeight = source.height ∧
        geometry.offsetX = 0 ∧ geometry.offsetY = 0)
      full := (geometry.offsetX, geometry.offsetX + geometry.resizedWidth) },
      { projection with intervals := [] })

variable (input : MaskProjectionInput)

def inverseRow (row : Nat) : Nat :=
  inverseMaskCoordinate row input.sourceDimensions.height input.geometry.resizedHeight

def inverseColumn (column : Nat) : Nat :=
  inverseMaskCoordinate column input.sourceDimensions.width input.geometry.resizedWidth

def rollback (projection : RowMajorMaskProjection) : RowMajorMaskProjection :=
  { projection with
    emitter := { projection.emitter with output := projection.emitter.output.take input.first }
    failed := true }

def startSlab (projection : RowMajorMaskProjection) (first stop : Nat) (intervals : List Interval)
    (clear : Bool) : RowMajorMaskProjection :=
  { projection with
    slab := ⟨first + input.geometry.offsetY, stop + input.geometry.offsetY, intervals, 0⟩
    slabActive := true
    clearIntervals := clear }

def flush (projection : RowMajorMaskProjection) : RowMajorMaskProjection :=
  projection.startSlab input (inverseRow input projection.pendingRow)
    (inverseRow input (projection.pendingRow + 1)) projection.intervals true

/-- An interval joined to the last one, if they meet. -/
def addInterval (intervals : List Interval) (first last : Nat) : List Interval :=
  match intervals.getLast? with
  | some previous =>
      if previous.2 = first then intervals.dropLast ++ [(previous.1, last)]
      else intervals ++ [(first, last)]
  | none => [(first, last)]

/-- False if the pending row comes first. -/
def partialRow (projection : RowMajorMaskProjection) (row first last : Nat) :
    Bool × RowMajorMaskProjection :=
  if row ≠ projection.pendingRow then
    (false, { projection.flush input with pendingRow := row })
  else
    let left := inverseColumn input first + input.geometry.offsetX
    let right := inverseColumn input last + input.geometry.offsetX
    (true, { projection with
      intervals :=
        if left ≠ right then addInterval projection.intervals left right
        else projection.intervals })

def advanceSlab (projection : RowMajorMaskProjection) : Except MaskError RowMajorMaskProjection := do
  let (done, emitter, slab) ← projection.emitter.stepSlab projection.slab
  let stepped := { projection with emitter, slab }
  return if done then
    { stepped with
      slabActive := false
      intervals := if projection.clearIntervals then [] else projection.intervals }
  else stepped

def advanceSource (projection : RowMajorMaskProjection) : Except MaskError RowMajorMaskProjection :=
  match input.pairs[projection.cursor]? with
  | none => .ok { projection with stage := .finalFlush }
  | some run =>
      let stop := run.start + run.length
      if run.length = 0 ∨ run.start < projection.previousEnd ∨ input.pixels < stop then
        .error (.runtime "row-major mask contains an invalid run")
      else do
        let source ← includeRowMajorMaskRun projection.source run.start stop
          input.sourceDimensions.width
        let taken := { projection with
          cursor := projection.cursor + 1
          previousEnd := stop
          source }
        if input.identity then
          let emitter ← taken.emitter.run run.start stop
          return { taken with emitter }
        else
          return { taken with
            row := run.start / input.sourceDimensions.width
            x := run.start % input.sourceDimensions.width
            remaining := run.length
            stage := .head }

def advanceHead (projection : RowMajorMaskProjection) : RowMajorMaskProjection :=
  if projection.x = 0 then { projection with stage := .full }
  else
    let count := min projection.remaining (input.sourceDimensions.width - projection.x)
    let (taken, next) :=
      projection.partialRow input projection.row projection.x (projection.x + count)
    if taken then
      { next with remaining := next.remaining - count, row := next.row + 1, stage := .full }
    else next

def advanceFull (projection : RowMajorMaskProjection) : RowMajorMaskProjection :=
  let counted := { projection with rows := projection.remaining / input.sourceDimensions.width }
  if counted.rows ≠ 0 then { counted.flush input with stage := .fullSlab }
  else { counted with stage := .tail }

def advanceFullSlab (projection : RowMajorMaskProjection) : RowMajorMaskProjection :=
  let started := projection.startSlab input (inverseRow input projection.row)
    (inverseRow input (projection.row + projection.rows)) [input.full] false
  { started with
    row := projection.row + projection.rows
    remaining := projection.remaining % input.sourceDimensions.width
    stage := .tail }

def advanceTail (projection : RowMajorMaskProjection) : RowMajorMaskProjection :=
  if projection.remaining = 0 then { projection with stage := .source }
  else
    let (taken, next) := projection.partialRow input projection.row 0 projection.remaining
    if taken then { next with stage := .source } else next

def advance (projection : RowMajorMaskProjection) : Except MaskError RowMajorMaskProjection :=
  if projection.slabActive then projection.advanceSlab
  else
    match projection.stage with
    | .source => projection.advanceSource input
    | .head => .ok (projection.advanceHead input)
    | .full => .ok (projection.advanceFull input)
    | .fullSlab => .ok (projection.advanceFullSlab input)
    | .tail => .ok (projection.advanceTail input)
    | .finalFlush =>
        let flushed := if input.identity then projection else projection.flush input
        .ok { flushed with stage := .finish }
    | .finish => do
        projection.emitter.finish
        return { projection with finished := true }

/-- The loop of a step; a failure comes with the state it is found in. -/
def stepLoop : Nat → RowMajorMaskProjection →
    Except (MaskError × RowMajorMaskProjection) RowMajorMaskProjection
  | 0, projection => .ok projection
  | maximum + 1, projection =>
      if projection.finished then .ok projection
      else
        match projection.advance input with
        | .ok next => stepLoop maximum next
        | .error failure => .error (failure, projection)

/-- The projection after the step, with its answer. -/
def step (projection : RowMajorMaskProjection) (maximumSteps : Nat) :
    Except MaskError Bool × RowMajorMaskProjection :=
  if maximumSteps = 0 then
    (.error (.invalidArgument "mask projection step requires a positive bound"), projection)
  else if projection.failed then
    (.error (.logic "mask projection resumed after failure"), projection)
  else
    match projection.stepLoop input maximumSteps with
    | .ok next => (.ok next.finished, next)
    | .error (failure, left) => (.error failure, left.rollback input)

/-- The projection after steps of the given bounds, up to the first failure. -/
def steps : List Nat → RowMajorMaskProjection → Except MaskError Bool × RowMajorMaskProjection
  | [], projection => (.ok projection.finished, projection)
  | maximumSteps :: rest, projection =>
      match projection.step input maximumSteps with
      | (.ok _, next) => steps rest next
      | (.error failure, left) => (.error failure, left)

end RowMajorMaskProjection

end Mmltk.Dataset
