import Mmltk.Foundation.Intervals
import Mmltk.Foundation.Outcome

namespace Mmltk.Dataset

open Mmltk.Foundation

/-! The runs of a mask in row-major order, and how they are emitted. -/

structure RLEPair where
  start : Nat
  length : Nat
  deriving DecidableEq, Inhabited, Repr

/-- Both are `uint32_t`. -/
structure MaskDimensions where
  width : Nat
  height : Nat
  widthFits : width < 2 ^ 32
  heightFits : height < 2 ^ 32

structure RowMajorMaskBounds where
  minX : Nat := 0
  minY : Nat := 0
  maxX : Nat := 0
  maxY : Nat := 0
  hasForeground : Bool := false
  deriving DecidableEq, Repr

inductive MaskError where
  | invalidArgument (message : String)
  | runtime (message : String)
  | overflow (message : String)
  | logic (message : String)
  | capacity (required : Nat)
  deriving DecidableEq, Repr

/-- `checked_cast` to `uint32_t` -/
def checkedCast (value : Nat) (message : String) : Except MaskError Nat :=
  if value < 2 ^ 32 then .ok value else .error (.overflow message)

def checkedPixelCount (dimensions : MaskDimensions) : Except MaskError Nat :=
  if dimensions.width = 0 ∨ dimensions.height = 0 ∨
      (2 ^ 64 - 1) / dimensions.height < dimensions.width then
    .error (.runtime "mask dimensions are invalid")
  else .ok (dimensions.width * dimensions.height)

/-- The bounds with one run that is not empty. -/
def includeRowMajorMaskRun (bounds : RowMajorMaskBounds) (first last width : Nat) :
    Except MaskError RowMajorMaskBounds := do
  let beginY ← checkedCast (first / width) "mask run y overflow"
  let beginX ← checkedCast (first % width) "mask run x overflow"
  let endY ← checkedCast ((last - 1) / width) "mask run y overflow"
  let endX ← checkedCast ((last - 1) % width) "mask run x overflow"
  let box : RowMajorMaskBounds :=
    if !bounds.hasForeground then
      { minX := beginX, minY := beginY, maxX := endX + 1, maxY := endY + 1, hasForeground := true }
    else
      { bounds with
        minY := min bounds.minY beginY
        maxY := max bounds.maxY (endY + 1)
        minX := min bounds.minX beginX
        maxX := max bounds.maxX (endX + 1) }
  return if beginY ≠ endY then { box with minX := 0, maxX := width } else box

/-! The emitter of runs, which appends to an output that other masks may have runs in. -/

structure MaskRunEmitter where
  output : List RLEPair
  first : Nat
  width : Nat
  bounds : RowMajorMaskBounds
  startError : String
  lengthError : String
  maximum : Nat
  required : Nat
  last : RLEPair

namespace MaskRunEmitter

def create (output : List RLEPair) (first width : Nat) (startError lengthError : String)
    (maximum : Nat) : MaskRunEmitter where
  output := output
  first := first
  width := width
  bounds := {}
  startError := startError
  lengthError := lengthError
  maximum := maximum
  required := output.length
  last := if first < output.length then output.getLastD default else default

/-- The run joined to the last one. -/
def extend (emitter : MaskRunEmitter) (last : Nat) : Except MaskError MaskRunEmitter := do
  let length ← checkedCast (last - emitter.last.start) emitter.lengthError
  let joined : RLEPair := { emitter.last with length := length }
  return { emitter with
    last := joined
    output :=
      if emitter.required ≤ emitter.maximum then emitter.output.dropLast ++ [joined]
      else emitter.output }

/-- The run as a new one. -/
def append (emitter : MaskRunEmitter) (start length : Nat) : MaskRunEmitter :=
  { emitter with
    last := ⟨start, length⟩
    required := emitter.required + 1
    output :=
      if emitter.required + 1 ≤ emitter.maximum then emitter.output ++ [⟨start, length⟩]
      else emitter.output }

def run (emitter : MaskRunEmitter) (first last : Nat) : Except MaskError MaskRunEmitter :=
  if first = last then .ok emitter
  else do
    let start ← checkedCast first emitter.startError
    if last < first then .error (.overflow emitter.lengthError)
    else
      let length ← checkedCast (last - first) emitter.lengthError
      let emitted ←
        if emitter.first < emitter.required ∧ emitter.last.start + emitter.last.length = first then
          emitter.extend last
        else .ok (emitter.append start length)
      let bounds ← includeRowMajorMaskRun emitted.bounds first last emitted.width
      return { emitted with bounds := bounds }

def finish (emitter : MaskRunEmitter) : Except MaskError Unit :=
  if emitter.maximum < emitter.required then .error (.capacity emitter.required) else .ok ()

/-- Rows with the same intervals. -/
structure Slab where
  row : Nat
  stop : Nat
  intervals : List Interval
  interval : Nat
  deriving DecidableEq, Repr

/-- One interval, or all rows at once if they are full; true if nothing is left. -/
def stepSlab (emitter : MaskRunEmitter) (slab : Slab) :
    Except MaskError (Bool × MaskRunEmitter × Slab) :=
  if slab.row = slab.stop ∨ slab.intervals = [] then .ok (true, emitter, slab)
  else if slab.intervals = [(0, emitter.width)] then do
    let emitted ← emitter.run (slab.row * emitter.width) (slab.stop * emitter.width)
    return (true, emitted, { slab with row := slab.stop })
  else if slab.stop ≤ slab.row then .ok (true, emitter, slab)
  else do
    let interval := slab.intervals.getD slab.interval (0, 0)
    let emitted ← emitter.run (slab.row * emitter.width + interval.1)
      (slab.row * emitter.width + interval.2)
    let next :=
      if slab.interval + 1 = slab.intervals.length then
        { slab with interval := 0, row := slab.row + 1 }
      else { slab with interval := slab.interval + 1 }
    return (decide (next.row = next.stop), emitted, next)

end MaskRunEmitter

end Mmltk.Dataset
