import Mmltk.Annotation.Mask

namespace Mmltk.Annotation

open Mmltk.Foundation

/-! `MaskRows`: the runs by row, in blocks of rows that are shared until they are written. -/

def rowsPerBlock : Nat := 64

/-- A row that is not there yet is null. -/
abbrev Block := Fin rowsPerBlock → Option (List RowRun)

structure MaskIndex where
  blocks : List (Option Block)
  runCount : Nat

/-- `index_`, null before the first use. -/
abbrev MaskRows := Option MaskIndex

/-- Which of the shared pointers is the only one; a copy has the same content. -/
structure Sharing where
  indexUnique : Bool
  blockUnique : Nat → Bool
  rowUnique : Nat → Fin rowsPerBlock → Bool

def rowPosition (row : Nat) : Fin rowsPerBlock := ⟨row % rowsPerBlock, Nat.mod_lt _ (by decide)⟩

/-- `EnsureBlock`. -/
def ensureBlock (blocks : List (Option Block)) (position : Nat) : List (Option Block) × Block :=
  let blocks := blocks ++ List.replicate (position + 1 - blocks.length) none
  let block := blocks[position]?.join.getD fun _ => none
  (blocks.set position (some block), block)

/-- A row of a block that is there is replaced; a null row counts as empty. -/
def updateRow (blocks : List (Option Block)) (row : Nat) (update : List RowRun → List RowRun) :
    List (Option Block) :=
  let (blocks, block) := ensureBlock blocks (row / rowsPerBlock)
  let updated := update ((block (rowPosition row)).getD [])
  blocks.set (row / rowsPerBlock) (some (Function.update block (rowPosition row) (some updated)))

/-- The runs of one row. -/
def rowRuns (blocks : List (Option Block)) (row : Nat) : List RowRun :=
  ((blocks[row / rowsPerBlock]?.join.getD fun _ => none) (rowPosition row)).getD []

/-- A block of its own keeps its rows, cleared; one that is shared is replaced. -/
def clearBlock (sharing : Sharing) (position : Nat) (block : Block) : Block :=
  if sharing.blockUnique position then fun row =>
    (block row).bind fun _ => if sharing.rowUnique position row then some [] else none
  else fun _ => none

def MaskRows.assign (sharing : Sharing) (object : AnnotationObject) (rows : MaskRows) : MaskRows :=
  let blocks :=
    match rows with
    | some index => if sharing.indexUnique then index.blocks else []
    | none => []
  let cleared := blocks.mapIdx fun position block => block.map (clearBlock sharing position)
  some (object.mask.runs.foldl
    (fun index run =>
      { blocks := updateRow index.blocks run.row fun row => row ++ [run]
        runCount := index.runCount + 1 })
    ⟨cleared, 0⟩)

def blockRuns (block : Block) : List RowRun :=
  (List.ofFn block).flatMap fun row => row.getD []

def materializedRuns (blocks : List (Option Block)) : List RowRun :=
  blocks.flatMap fun block => (block.map blockRuns).getD []

/-- Painting: the next run extends the last one or comes after it. -/
def appendRun (result : List RowRun) (run : RowRun) : List RowRun :=
  match result.getLast? with
  | some back =>
      if run.first ≤ back.last + 1 then
        result.dropLast ++ [{ back with last := max back.last run.last }]
      else result ++ [run]
  | none => [run]

def paintRow (result : List RowRun) : List RowRun → List RowRun → List RowRun
  | [], [] => result
  | run :: existing, [] => paintRow (appendRun result run) existing []
  | [], run :: added => paintRow (appendRun result run) [] added
  | run :: existing, other :: added =>
      if run.first ≤ other.first then paintRow (appendRun result run) existing (other :: added)
      else paintRow (appendRun result other) (run :: existing) added
termination_by existing added => existing.length + added.length

/-- What the stroke leaves of one run from `first` on. -/
def cutRun (run : RowRun) (first : Nat) : List RowRun → List RowRun
  | [] => if first ≤ run.last then [⟨run.row, first, run.last⟩] else []
  | cut :: rest =>
      if cut.first ≤ run.last then
        let kept := if first < cut.first then [⟨run.row, first, cut.first - 1⟩] else []
        let next := max first (cut.last + 1)
        if run.last < next then kept else kept ++ cutRun run next rest
      else if first ≤ run.last then [⟨run.row, first, run.last⟩]
      else []

def eraseRow : List RowRun → List RowRun → List RowRun
  | [], _ => []
  | run :: existing, stroke =>
      let cut := stroke.dropWhile fun other => other.last < run.first
      cutRun run run.first cut ++ eraseRow existing cut

/-- A row with the stroke's runs in it. -/
def strokeRow (erase : Bool) (existing stroke : List RowRun) : List RowRun :=
  if erase then eraseRow existing stroke else paintRow [] existing stroke

/-- Row by row, until there are too many runs; the row that has them is made but not changed. -/
def strokeRows (erase : Bool) (index : MaskIndex) : List RowRun → MaskIndex × Bool
  | [] => (index, true)
  | run :: rest =>
      let stroke := run :: rest.takeWhile fun other => other.row = run.row
      let after := rest.dropWhile fun other => other.row = run.row
      let existing := rowRuns index.blocks run.row
      let result := strokeRow erase existing stroke
      let count := index.runCount - existing.length + result.length
      if maskRunCapacity < count then
        ({ index with blocks := updateRow index.blocks run.row id }, false)
      else
        strokeRows erase
          { blocks := updateRow index.blocks run.row fun _ => result, runCount := count } after
termination_by runs => runs.length
decreasing_by
  exact Nat.lt_succ_of_le (List.dropWhile_suffix _).length_le

/-- `Stroke`, with the runs of each step; whether it came to its end is returned, too. -/
def MaskRows.stroke (erase : Bool) (steps : List (List RowRun)) (rows : MaskRows) :
    MaskRows × Bool :=
  match gather [] steps with
  | none => (rows, false)
  | some [] => (rows, true)
  | some (run :: rest) =>
      let (index, finished) := strokeRows erase (rows.getD ⟨[], 0⟩) (run :: rest)
      (some index, finished)

end Mmltk.Annotation
