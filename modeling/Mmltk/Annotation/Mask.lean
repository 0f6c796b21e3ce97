import Mathlib.Data.Rat.Floor
import Mmltk.Foundation.RowRuns
import Mmltk.Foundation.UnionFind

namespace Mmltk.Annotation

open Mmltk.Foundation

/-! Masks of annotation objects: sorted runs of pixels inside a frame. -/

def maskRunCapacity : Nat := 32768

/-- The order of `AnnotationMaskRun`: by row, first and last. -/
def runLe (run other : RowRun) : Bool :=
  run.row < other.row || (run.row = other.row &&
    (run.first < other.first || (run.first = other.first && run.last ≤ other.last)))

/-- What `normalize` does with sorted runs: the last one kept takes in those that it touches. -/
def joinRuns : List RowRun → List RowRun
  | [] => []
  | [run] => [run]
  | run :: next :: rest =>
      if run.row = next.row ∧ next.first ≤ run.last + 1 then
        joinRuns ({ run with last := max run.last next.last } :: rest)
      else run :: joinRuns (next :: rest)
termination_by runs => runs.length

def normalize (runs : List RowRun) : Option (List RowRun) :=
  let joined := joinRuns (runs.mergeSort runLe)
  if maskRunCapacity < joined.length then none else some joined

/-- The gaps of one row from `x` on, and the runs of the rows after it. -/
def complementRow (y width : Nat) (x : Nat) : List RowRun → List RowRun × List RowRun
  | [] => (if x < width then [⟨y, x, width - 1⟩] else [], [])
  | run :: rest =>
      if run.row = y then
        let (gaps, after) := complementRow y width (run.last + 1) rest
        (if x < run.first then ⟨y, x, run.first - 1⟩ :: gaps else gaps, after)
      else (if x < width then [⟨y, x, width - 1⟩] else [], run :: rest)

def complementFrom (width : Nat) (y : Nat) : Nat → List RowRun → List RowRun
  | 0, _ => []
  | rows + 1, runs =>
      let (gaps, after) := complementRow y width 0 runs
      gaps ++ complementFrom width (y + 1) rows after

def complement (runs : List RowRun) (width height : Nat) : List RowRun :=
  complementFrom width 0 height runs

/-- `DiskReach::At`. -/
def diskReach (radius dy : Nat) : Nat := Nat.sqrt (radius ^ 2 - dy ^ 2)

def dilateRun (radius width height : Nat) (run : RowRun) : List RowRun :=
  let low := run.row - radius
  (List.range' low (min height (run.row + radius + 1) - low)).map fun y =>
    let reach := diskReach radius ((y - run.row) + (run.row - y))
    ⟨y, run.first - reach, min (width - 1) (run.last + reach)⟩

/-- Runs that come in steps, normalized whenever there are too many and at the end. -/
def gather (result : List RowRun) : List (List RowRun) → Option (List RowRun)
  | [] => normalize result
  | step :: rest =>
      let grown := result ++ step
      if maskRunCapacity * 2 < grown.length then
        (normalize grown).bind fun joined => gather joined rest
      else gather grown rest

def dilate (runs : List RowRun) (radius width height : Nat) : Option (List RowRun) :=
  gather [] (runs.map (dilateRun radius width height))

/-! Components of runs that overlap from row to row, by the index of each run. -/

/-- One row after the row before it; what ends left of a run ends left of those after it. -/
def joinRow (size : Nat) (parent : Nat → Nat) :
    List (RowRun × Nat) → List (RowRun × Nat) → Nat → Nat
  | _, [] => parent
  | previous, (run, index) :: rest =>
      let left := previous.dropWhile fun other => other.1.last < run.first
      let overlapping := left.takeWhile fun other => other.1.first ≤ run.last
      joinRow size
        (overlapping.foldl (fun parent other => UnionFind.join size parent index other.2) parent)
        left rest

/-- Row by row: `previous` is the row before. -/
def joinRows (size : Nat) (parent : Nat → Nat) (previous : List (RowRun × Nat)) :
    List (RowRun × Nat) → Nat → Nat
  | [] => parent
  | (run, index) :: rest =>
      let row := (run, index) :: rest.takeWhile fun other => other.1.row = run.row
      let after := rest.dropWhile fun other => other.1.row = run.row
      let joined :=
        if previous.head?.any fun other => other.1.row + 1 = run.row then joinRow size parent previous row
        else parent
      joinRows size joined row after
termination_by runs => runs.length
decreasing_by
  exact Nat.lt_succ_of_le (List.dropWhile_suffix _).length_le

/-- `Components`: the parents after all rows. -/
def components (runs : List RowRun) : Nat → Nat :=
  joinRows runs.length id [] runs.zipIdx

/-- The root of each run; `Components::root` halves paths on its way. -/
def componentRoots (runs : List RowRun) (parent : Nat → Nat) : (Nat → Nat) × List Nat :=
  UnionFind.findRoots parent runs.length (List.range runs.length)

/-- The runs whose root passes a test. -/
def selectRuns (runs : List RowRun) (roots : List Nat) (test : Nat → Bool) : List RowRun :=
  ((runs.zip roots).filter fun member => test member.2).map Prod.fst

/-- The areas by root, as they are summed up. -/
def componentAreas (runs : List RowRun) (roots : List Nat) : Nat → Nat :=
  (runs.zip roots).foldl (fun area member =>
    Function.update area member.2 (area member.2 + (member.1.last - member.1.first + 1)))
    fun _ => 0

/-- `std::ranges::max_element`: the first of the largest below `size`. -/
def largestIndex (area : Nat → Nat) : Nat → Nat
  | 0 => 0
  | size + 1 =>
      let best := largestIndex area size
      if area best < area size then size else best

def largestComponent (runs : List RowRun) : List RowRun :=
  if runs = [] then runs
  else
    let (parent, roots) := componentRoots runs (components runs)
    let largest := largestIndex (componentAreas runs roots) runs.length
    let (_, roots) := componentRoots runs parent
    selectRuns runs roots fun root => root = largest

structure MaskBox where
  left : Nat
  top : Nat
  right : Nat
  bottom : Nat
  deriving DecidableEq, Repr

inductive AnnotationMaskCleanup where
  | largestComponent
  | fillHoles
  | dilate
  | erode
  | opening
  | closing
  deriving DecidableEq, Repr

structure AnnotationMask where
  runs : List RowRun
  cleanupRadius : Nat
  cleanup : AnnotationMaskCleanup
  present : Bool
  deriving DecidableEq, Repr

/-- The fields of an object that the masks are about. -/
structure AnnotationObject where
  mask : AnnotationMask
  box : MaskBox
  deriving DecidableEq, Repr

/-- `shrink`: the complement of the grown complement, away from the border. -/
def erode (runs : List RowRun) (radius width height : Nat) : Option (List RowRun) :=
  (dilate (complement runs width height) radius width height).map fun grown =>
    (complement grown width height).filterMap fun run =>
      if run.row < radius ∨ height ≤ run.row + radius ∨ width ≤ 2 * radius then none
      else
        let first := max run.first radius
        let last := min run.last (width - radius - 1)
        if first ≤ last then some ⟨run.row, first, last⟩ else none

end Mmltk.Annotation
