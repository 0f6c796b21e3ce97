import Mathlib

namespace Mmltk.Assignment

/-! The rectangular assignment problem, solved by shortest augmenting paths. -/

/-- A double, in exact arithmetic. -/
inductive CostValue where
  | finite (value : ℤ)
  | infinite
  | negativeInfinite
  | nan
  deriving DecidableEq, Inhabited, Repr

namespace CostValue

def negate : CostValue → CostValue
  | .finite value => .finite (-value)
  | .infinite => .negativeInfinite
  | .negativeInfinite => .infinite
  | .nan => .nan

/-- `value != value || value == -infinity` -/
def invalid : CostValue → Bool
  | .negativeInfinite => true
  | .nan => true
  | _ => false

/-- The value of a cost that is not invalid. -/
def extended : CostValue → WithTop ℤ
  | .finite value => value
  | _ => ⊤

end CostValue

inductive LsapStatus where
  | ok
  | infeasible
  | invalid
  deriving DecidableEq, Repr

/-- Vectors by their indices; what `assign` and `resize` leave beyond the size is not read. The
index -1 is `none`. -/
structure LsapWorkspace where
  transposedCost : Nat → CostValue
  rowDuals : Nat → ℤ
  columnDuals : Nat → ℤ
  shortestPathCosts : Nat → WithTop ℤ
  path : Nat → Option Nat
  columnForRow : Nat → Option Nat
  rowForColumn : Nat → Option Nat
  visitedRows : Nat → Bool
  visitedColumns : Nat → Bool
  /-- Up to `num_remaining`. -/
  remainingColumns : List Nat
  deriving Inhabited

namespace LsapWorkspace

/-! One augmenting path. -/

/-- Costs are compared as the machine compares them. -/
instance : DecidableLT (WithTop ℤ) := @WithTop.decidableLT ℤ Int.instLTInt Int.decLt

/-- The scan of the remaining columns from one row. -/
structure Scan where
  shortest : Nat → WithTop ℤ
  path : Nat → Option Nat
  lowest : WithTop ℤ
  index : Option Nat

variable (cost : Nat → Nat → WithTop ℤ)

def reducedCost (workspace : LsapWorkspace) (currentMin : ℤ) (row column : Nat) : WithTop ℤ :=
  (cost row column).map fun value =>
    currentMin + value - workspace.rowDuals row - workspace.columnDuals column

def relax (workspace : LsapWorkspace) (currentMin : ℤ) (row column : Nat) (scan : Scan) : Scan :=
  let reduced := workspace.reducedCost cost currentMin row column
  if reduced < scan.shortest column then
    { scan with
      path := Function.update scan.path column (some row)
      shortest := Function.update scan.shortest column reduced }
  else scan

/-- Of equal costs a column without a row is taken. -/
def choose (workspace : LsapWorkspace) (column index : Nat) (scan : Scan) : Scan :=
  if scan.shortest column < scan.lowest ∨
      (scan.shortest column = scan.lowest ∧ workspace.rowForColumn column = none) then
    { scan with lowest := scan.shortest column, index := some index }
  else scan

def scanColumn (workspace : LsapWorkspace) (currentMin : ℤ) (row : Nat) (scan : Scan)
    (entry : Nat × Nat) : Scan :=
  workspace.choose entry.1 entry.2 (workspace.relax cost currentMin row entry.1 scan)

def scanColumns (workspace : LsapWorkspace) (currentMin : ℤ) (row : Nat) : Scan :=
  workspace.remainingColumns.zipIdx.foldl (workspace.scanColumn cost currentMin row)
    ⟨workspace.shortestPathCosts, workspace.path, ⊤, none⟩

/-- `remaining[index] = remaining[--num_remaining]` -/
def swapRemove (columns : List Nat) (index : Nat) : List Nat :=
  (columns.set index (columns.getLastD 0)).dropLast

inductive SearchOutcome where
  | sink (column : Nat) (minValue : ℤ) (workspace : LsapWorkspace)
  | infeasible
  | unfinished

/-- The workspace once a row is visited and its columns are scanned. -/
def visitRow (workspace : LsapWorkspace) (currentMin : ℤ) (row : Nat) : LsapWorkspace :=
  let visited := { workspace with visitedRows := Function.update workspace.visitedRows row true }
  let scan := visited.scanColumns cost currentMin row
  { visited with shortestPathCosts := scan.shortest, path := scan.path }

def visitColumn (workspace : LsapWorkspace) (index column : Nat) : LsapWorkspace :=
  { workspace with
    visitedColumns := Function.update workspace.visitedColumns column true
    remainingColumns := swapRemove workspace.remainingColumns index }

/-- The loop, which stops at a column without a row. -/
def search : Nat → ℤ → Nat → LsapWorkspace → SearchOutcome
  | 0, _, _, _ => .unfinished
  | fuel + 1, currentMin, row, workspace =>
      let scan := workspace.scanColumns cost currentMin row
      let scanned := workspace.visitRow cost currentMin row
      match scan.lowest, scan.index with
      | some lowest, some index =>
          let column := workspace.remainingColumns.getD index 0
          match workspace.rowForColumn column with
          | none => .sink column lowest (scanned.visitColumn index column)
          | some next => search fuel lowest next (scanned.visitColumn index column)
      | _, _ => .infeasible

def augmentingPath (numCols : Nat) (workspace : LsapWorkspace) (row : Nat) : SearchOutcome :=
  search cost (numCols + 1) 0 row
    { workspace with
      remainingColumns := (List.range numCols).map fun index => numCols - index - 1
      visitedRows := fun _ => false
      visitedColumns := fun _ => false
      shortestPathCosts := fun _ => ⊤ }

/-! The matching along the path. -/

def shortestValue (workspace : LsapWorkspace) (column : Nat) : ℤ :=
  (workspace.shortestPathCosts column).untopD 0

def updateDuals (workspace : LsapWorkspace) (numRows numCols row : Nat) (minValue : ℤ) :
    LsapWorkspace :=
  { workspace with
    rowDuals := fun index =>
      if index = row then workspace.rowDuals index + minValue
      else if index < numRows ∧ workspace.visitedRows index then
        workspace.rowDuals index +
          (minValue - workspace.shortestValue ((workspace.columnForRow index).getD 0))
      else workspace.rowDuals index
    columnDuals := fun index =>
      if index < numCols ∧ workspace.visitedColumns index then
        workspace.columnDuals index - (minValue - workspace.shortestValue index)
      else workspace.columnDuals index }

/-- The loop that swaps the columns along the path. -/
def flip (row : Nat) : Nat → Nat → LsapWorkspace → Option LsapWorkspace
  | 0, _, _ => none
  | fuel + 1, column, workspace => do
      let matchedRow ← workspace.path column
      let flipped : LsapWorkspace :=
        { workspace with
          rowForColumn := Function.update workspace.rowForColumn column (some matchedRow)
          columnForRow := Function.update workspace.columnForRow matchedRow (some column) }
      if matchedRow = row then return flipped
      else flip row fuel (← workspace.columnForRow matchedRow) flipped

/-- The rows one after another; `none` if a loop does not end. -/
def solveRows (numRows numCols : Nat) :
    List Nat → LsapWorkspace → Option (LsapStatus × LsapWorkspace)
  | [], workspace => some (.ok, workspace)
  | row :: rest, workspace =>
      match workspace.augmentingPath cost numCols row with
      | .unfinished => none
      | .infeasible => some (.infeasible, workspace)
      | .sink column minValue found => do
          let flipped ← flip row numRows column (found.updateDuals numRows numCols row minValue)
          solveRows numRows numCols rest flipped

end LsapWorkspace

/-! The whole solver. -/

/-- The matrix with the smaller side as its rows, and negated for a maximum. -/
def orientedCost (numRows numCols : Nat) (cost : Nat → CostValue) (maximize : Bool) :
    Nat → CostValue :=
  let temp :=
    if numCols < numRows then fun index => cost (index % numRows * numCols + index / numRows)
    else cost
  if maximize then fun index => (temp index).negate else temp

/-- `argsort_iter` -/
def argsort (values : Nat → Nat) (count : Nat) : List Nat :=
  (List.range count).mergeSort fun left right => values left ≤ values right

def solveRectangularLinearSumAssignment (numRows numCols : Nat) (cost : Nat → CostValue)
    (maximize : Bool) (workspace : LsapWorkspace) : Option (LsapStatus × List (Nat × Nat)) :=
  if numRows = 0 ∨ numCols = 0 then some (.ok, [])
  else
    let rows := min numRows numCols
    let cols := max numRows numCols
    let oriented := orientedCost numRows numCols cost maximize
    if (List.range (rows * cols)).any fun index => (oriented index).invalid then some (.invalid, [])
    else do
      let (status, solved) ← LsapWorkspace.solveRows
        (fun row column => (oriented (row * cols + column)).extended) rows cols (List.range rows)
        { workspace with
          transposedCost :=
            if numCols < numRows ∨ maximize then oriented else workspace.transposedCost
          rowDuals := fun _ => 0
          columnDuals := fun _ => 0
          path := fun _ => none
          columnForRow := fun _ => none
          rowForColumn := fun _ => none }
      if status ≠ .ok then return (status, [])
      else
        let columnForRow := fun row => (solved.columnForRow row).getD 0
        if numCols < numRows then
          return (.ok, (argsort columnForRow rows).map fun row => (columnForRow row, row))
        else return (.ok, (List.range rows).map fun row => (row, columnForRow row))

end Mmltk.Assignment
