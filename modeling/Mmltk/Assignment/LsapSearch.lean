import Mmltk.Assignment.LsapScan

namespace Mmltk.Assignment

namespace LsapWorkspace

/-! What holds between two augmenting paths, and on the way of one. -/

/-- The first rows are matched, and the duals prove that no matching of them costs less. -/
structure Optimal (cost : Nat → Nat → WithTop ℤ) (numCols count : Nat)
    (workspace : LsapWorkspace) : Prop where
  rowMatched : ∀ row < count, ∃ column < numCols,
    workspace.columnForRow row = some column ∧ workspace.rowForColumn column = some row
  columnMatched : ∀ column row, workspace.rowForColumn column = some row →
    row < count ∧ workspace.columnForRow row = some column
  feasible : ∀ row < count, ∀ column < numCols, ∀ value : ℤ, cost row column = value →
    workspace.rowDuals row + workspace.columnDuals column ≤ value
  tight : ∀ column row, workspace.rowForColumn column = some row →
    cost row column = ((workspace.rowDuals row + workspace.columnDuals column : ℤ) : WithTop ℤ)
  nonpos : ∀ column, workspace.columnDuals column ≤ 0
  free : ∀ column, workspace.rowForColumn column = none → workspace.columnDuals column = 0

/-- The least cost of a path to a row, known once the row's column is visited. -/
def distance (workspace : LsapWorkspace) (current row : Nat) : ℤ :=
  if row = current then 0 else workspace.shortestValue ((workspace.columnForRow row).getD 0)

def visitedCount (workspace : LsapWorkspace) (numCols : Nat) : Nat :=
  ((Finset.range numCols).filter fun column => workspace.visitedColumns column).card

/-- The labels of a search from the current row; `rank` is the order in which it reaches rows. -/
structure Labelled (cost : Nat → Nat → WithTop ℤ) (numCols current : Nat) (rank : Nat → Nat)
    (workspace : LsapWorkspace) : Prop where
  optimal : workspace.Optimal cost numCols current
  nodup : workspace.remainingColumns.Nodup
  remaining : ∀ column, column ∈ workspace.remainingColumns ↔
    column < numCols ∧ workspace.visitedColumns column = false
  visitedIn : ∀ column, workspace.visitedColumns column → column < numCols
  settled : ∀ column, workspace.visitedColumns column →
    workspace.shortestPathCosts column = (workspace.shortestValue column : WithTop ℤ)
  rows : ∀ row, workspace.visitedRows row → row = current ∨
    ∃ column, workspace.rowForColumn column = some row ∧ workspace.visitedColumns column
  relaxed : ∀ row, workspace.visitedRows row → ∀ column < numCols, ∀ value : ℤ,
    cost row column = value → workspace.shortestPathCosts column ≤
      ((workspace.distance current row + value - workspace.rowDuals row -
        workspace.columnDuals column : ℤ) : WithTop ℤ)
  tight : ∀ column < numCols, workspace.shortestPathCosts column ≠ ⊤ →
    ∃ row, ∃ value : ℤ, workspace.path column = some row ∧ workspace.visitedRows row ∧
      cost row column = value ∧ workspace.shortestPathCosts column =
        ((workspace.distance current row + value - workspace.rowDuals row -
          workspace.columnDuals column : ℤ) : WithTop ℤ)
  descends : ∀ column, workspace.visitedColumns column → ∀ row before,
    workspace.rowForColumn column = some row → workspace.path column = some before →
    rank before < rank row

/-- The loop before it visits a row. -/
structure Searching (cost : Nat → Nat → WithTop ℤ) (numCols current : Nat) (rank : Nat → Nat)
    (currentMin : ℤ) (row : Nat) (workspace : LsapWorkspace) : Prop
    extends Labelled cost numCols current rank workspace where
  fresh : workspace.visitedRows row = false
  pending : (row = current ∧ ∀ column, workspace.visitedColumns column = false) ∨
    ∃ column, workspace.rowForColumn column = some row ∧ workspace.visitedColumns column
  matched : ∀ column, workspace.visitedColumns column → ∃ before,
    workspace.rowForColumn column = some before ∧ (workspace.visitedRows before ∨ before = row)
  started : workspace.visitedRows current ∨ current = row
  reached : workspace.distance current row = currentMin
  visitedLe : ∀ column, workspace.visitedColumns column →
    workspace.shortestValue column ≤ currentMin
  remainingGe : ∀ column < numCols, workspace.visitedColumns column = false →
    (currentMin : WithTop ℤ) ≤ workspace.shortestPathCosts column
  ranked : ∀ before, workspace.visitedRows before ∨ before = row →
    rank before ≤ workspace.visitedCount numCols

/-- The loop once it has visited the row. -/
structure Visited (cost : Nat → Nat → WithTop ℤ) (numCols current : Nat) (rank : Nat → Nat)
    (workspace : LsapWorkspace) : Prop
    extends Labelled cost numCols current rank workspace where
  matched : ∀ column, workspace.visitedColumns column → ∃ before,
    workspace.rowForColumn column = some before ∧ workspace.visitedRows before
  started : workspace.visitedRows current
  ordered : ∀ column, workspace.visitedColumns column → ∀ other < numCols,
    workspace.visitedColumns other = false →
    (workspace.shortestValue column : WithTop ℤ) ≤ workspace.shortestPathCosts other
  ranked : ∀ before, workspace.visitedRows before → rank before ≤ workspace.visitedCount numCols

variable {cost : Nat → Nat → WithTop ℤ} {numCols current : Nat} {rank : Nat → Nat}
  {currentMin lowest : ℤ} {row column index : Nat} {workspace : LsapWorkspace}

theorem Optimal.column_unique (h : workspace.Optimal cost numCols current) {other : Nat}
    (hcolumn : workspace.rowForColumn column = some row)
    (hother : workspace.rowForColumn other = some row) : column = other := by
  have hfirst := (h.columnMatched column row hcolumn).2
  rw [(h.columnMatched other row hother).2] at hfirst
  exact (Option.some.inj hfirst).symm

@[simp] theorem distance_current : workspace.distance current current = 0 := if_pos rfl

theorem Optimal.distance (h : workspace.Optimal cost numCols current)
    (hcolumn : workspace.rowForColumn column = some row) :
    workspace.distance current row = workspace.shortestValue column := by
  obtain ⟨hrow, hsome⟩ := h.columnMatched column row hcolumn
  rw [LsapWorkspace.distance, if_neg hrow.ne, hsome, Option.getD_some]

/-! A visit to a row. -/

theorem reducedCost_of_eq {value : ℤ} (hvalue : cost row column = value) :
    workspace.reducedCost cost currentMin row column =
      ((currentMin + value - workspace.rowDuals row - workspace.columnDuals column : ℤ) :
        WithTop ℤ) := by
  rw [reducedCost, hvalue]
  rfl

theorem scanColumns_scanned (hnodup : workspace.remainingColumns.Nodup) :
    Scanned cost workspace currentMin row workspace.remainingColumns 0
      ⟨workspace.shortestPathCosts, workspace.path, ⊤, none⟩
      (workspace.scanColumns cost currentMin row) :=
  scanned workspace.remainingColumns hnodup 0 _

theorem visitRow_shortest (hnodup : workspace.remainingColumns.Nodup) (column : Nat) :
    (workspace.visitRow cost currentMin row).shortestPathCosts column =
      if column ∈ workspace.remainingColumns then
        min (workspace.shortestPathCosts column) (workspace.reducedCost cost currentMin row column)
      else workspace.shortestPathCosts column :=
  (scanColumns_scanned hnodup).shortest column

theorem visitRow_path (hnodup : workspace.remainingColumns.Nodup) (column : Nat) :
    (workspace.visitRow cost currentMin row).path column =
      if column ∈ workspace.remainingColumns ∧
          workspace.reducedCost cost currentMin row column < workspace.shortestPathCosts column then
        some row
      else workspace.path column :=
  (scanColumns_scanned hnodup).path column

theorem visitRow_visitedRows (before : Nat) :
    (workspace.visitRow cost currentMin row).visitedRows before ↔
      before = row ∨ workspace.visitedRows before := by
  change Function.update workspace.visitedRows row true before = true ↔ _
  rw [Function.update_apply]
  split <;> simp [*]

namespace Searching

variable (h : workspace.Searching cost numCols current rank currentMin row)

include h

theorem visitRow_visited (hcolumn : workspace.visitedColumns column) :
    (workspace.visitRow cost currentMin row).shortestPathCosts column =
        workspace.shortestPathCosts column ∧
      (workspace.visitRow cost currentMin row).path column = workspace.path column := by
  have hgone : column ∉ workspace.remainingColumns := fun hmem => by
    rw [h.remaining, hcolumn] at hmem
    exact nomatch hmem.2
  rw [visitRow_shortest h.nodup, visitRow_path h.nodup, if_neg hgone, if_neg fun hboth => hgone hboth.1]
  exact ⟨rfl, rfl⟩

theorem visitRow_shortestValue (hcolumn : workspace.visitedColumns column) :
    (workspace.visitRow cost currentMin row).shortestValue column = workspace.shortestValue column := by
  rw [shortestValue, (h.visitRow_visited hcolumn).1, shortestValue]

theorem visitRow_optimal :
    (workspace.visitRow cost currentMin row).Optimal cost numCols current :=
  ⟨h.optimal.rowMatched, h.optimal.columnMatched, h.optimal.feasible, h.optimal.tight,
    h.optimal.nonpos, h.optimal.free⟩

theorem visitRow_distance {before : Nat} (hbefore : before = current ∨
    ∃ column, workspace.rowForColumn column = some before ∧ workspace.visitedColumns column) :
    (workspace.visitRow cost currentMin row).distance current before =
      workspace.distance current before := by
  obtain rfl | ⟨column, hcolumn, hvisited⟩ := hbefore
  · rw [distance_current, distance_current]
  · rw [h.visitRow_optimal.distance hcolumn, h.optimal.distance hcolumn,
      h.visitRow_shortestValue hvisited]

/-- Once a column is visited, the duals of the row are feasible. -/
theorem feasible {value : ℤ} {other : Nat} (hvisited : workspace.visitedColumns other)
    (hcolumn : column < numCols) (hvalue : cost row column = value) :
    workspace.rowDuals row + workspace.columnDuals column ≤ value := by
  obtain ⟨-, hnone⟩ | ⟨before, hbefore, -⟩ := h.pending
  · rw [hnone] at hvisited
    exact nomatch hvisited
  · exact h.optimal.feasible row (h.optimal.columnMatched before row hbefore).1 column hcolumn
      value hvalue

theorem visitRow_relaxed {before : Nat} {value : ℤ}
    (hbefore : (workspace.visitRow cost currentMin row).visitedRows before)
    (hcolumn : column < numCols) (hvalue : cost before column = value) :
    (workspace.visitRow cost currentMin row).shortestPathCosts column ≤
      ((workspace.distance current before + value - workspace.rowDuals before -
        workspace.columnDuals column : ℤ) : WithTop ℤ) := by
  obtain rfl | hold := (visitRow_visitedRows before).mp hbefore
  · rw [h.reached, visitRow_shortest h.nodup, ← reducedCost_of_eq hvalue]
    split
    next => exact min_le_right _ _
    next hgone =>
      -- a visited column has a label that is not above the feasible reduced cost
      have hvisited : workspace.visitedColumns column := by
        rw [h.remaining] at hgone
        simpa [hcolumn] using hgone
      have hfeasible := h.feasible hvisited hcolumn hvalue
      have hle := h.visitedLe column hvisited
      rw [h.settled column hvisited, reducedCost_of_eq hvalue, WithTop.coe_le_coe]
      omega
  · refine le_trans ?_ (h.relaxed before hold column hcolumn value hvalue)
    rw [visitRow_shortest h.nodup]
    split
    next => exact min_le_left _ _
    next => exact le_refl _

theorem visitRow_tight (hcolumn : column < numCols)
    (hfinite : (workspace.visitRow cost currentMin row).shortestPathCosts column ≠ ⊤) :
    ∃ before, ∃ value : ℤ, (workspace.visitRow cost currentMin row).path column = some before ∧
      (workspace.visitRow cost currentMin row).visitedRows before ∧ cost before column = value ∧
      (workspace.visitRow cost currentMin row).shortestPathCosts column =
        ((workspace.distance current before + value - workspace.rowDuals before -
          workspace.columnDuals column : ℤ) : WithTop ℤ) := by
  rw [visitRow_shortest h.nodup] at hfinite ⊢
  rw [visitRow_path h.nodup]
  by_cases hless : column ∈ workspace.remainingColumns ∧
      workspace.reducedCost cost currentMin row column < workspace.shortestPathCosts column
  · obtain ⟨value, hvalue⟩ : ∃ value : ℤ, cost row column = value := by
      refine Option.ne_none_iff_exists'.mp fun hnone => ?_
      rw [reducedCost, hnone] at hless
      exact not_top_lt hless.2
    rw [if_pos hless, if_pos hless.1, min_eq_right hless.2.le]
    refine ⟨row, value, rfl, (visitRow_visitedRows row).mpr (.inl rfl), hvalue, ?_⟩
    rw [h.reached, reducedCost_of_eq hvalue]
  · have hkept : (if column ∈ workspace.remainingColumns then
        min (workspace.shortestPathCosts column) (workspace.reducedCost cost currentMin row column)
        else workspace.shortestPathCosts column) = workspace.shortestPathCosts column := by
      split
      next hmem => exact min_eq_left (not_lt.mp fun hlt => hless ⟨hmem, hlt⟩)
      next => rfl
    rw [hkept] at hfinite ⊢
    rw [if_neg hless]
    obtain ⟨before, value, hpath, hrow, hvalue, hequal⟩ := h.tight column hcolumn hfinite
    exact ⟨before, value, hpath, (visitRow_visitedRows before).mpr (.inr hrow), hvalue, hequal⟩

theorem visitRow_rows {before : Nat}
    (hbefore : (workspace.visitRow cost currentMin row).visitedRows before) :
    before = current ∨
      ∃ column, workspace.rowForColumn column = some before ∧ workspace.visitedColumns column := by
  obtain rfl | hold := (visitRow_visitedRows before).mp hbefore
  · exact h.pending.imp And.left id
  · exact h.rows before hold

theorem visitRow_ordered (hvisited : workspace.visitedColumns column) {other : Nat}
    (hother : other < numCols) (hunvisited : workspace.visitedColumns other = false) :
    (workspace.shortestValue column : WithTop ℤ) ≤
      (workspace.visitRow cost currentMin row).shortestPathCosts other := by
  have hmem := (h.remaining other).mpr ⟨hother, hunvisited⟩
  have hle : (workspace.shortestValue column : WithTop ℤ) ≤ currentMin :=
    WithTop.coe_le_coe.mpr (h.visitedLe column hvisited)
  rw [visitRow_shortest h.nodup, if_pos hmem]
  refine le_min (hle.trans (h.remainingGe other hother hunvisited)) (hle.trans ?_)
  cases hcost : cost row other with
  | top =>
      rw [reducedCost, hcost]
      exact le_top
  | coe value =>
      have hfeasible := h.feasible hvisited hother hcost
      rw [reducedCost_of_eq hcost, WithTop.coe_le_coe]
      omega

theorem visitRow : (workspace.visitRow cost currentMin row).Visited cost numCols current rank where
  optimal := h.visitRow_optimal
  nodup := h.nodup
  remaining := h.remaining
  visitedIn := h.visitedIn
  settled := by
    intro column hvisited
    rw [(h.visitRow_visited hvisited).1, h.visitRow_shortestValue hvisited]
    exact h.settled column hvisited
  rows := fun _ hbefore => h.visitRow_rows hbefore
  relaxed := by
    intro before hbefore column hcolumn value hvalue
    rw [h.visitRow_distance (h.visitRow_rows hbefore)]
    exact h.visitRow_relaxed hbefore hcolumn hvalue
  tight := by
    intro column hcolumn hfinite
    obtain ⟨before, value, hpath, hbefore, hvalue, hequal⟩ := h.visitRow_tight hcolumn hfinite
    refine ⟨before, value, hpath, hbefore, hvalue, ?_⟩
    rw [h.visitRow_distance (h.visitRow_rows hbefore)]
    exact hequal
  descends := by
    intro column hvisited next before hnext hbefore
    rw [(h.visitRow_visited hvisited).2] at hbefore
    exact h.descends column hvisited next before hnext hbefore
  matched := by
    intro column hvisited
    obtain ⟨before, hbefore, hdone⟩ := h.matched column hvisited
    exact ⟨before, hbefore, (visitRow_visitedRows before).mpr hdone.symm⟩
  started := (visitRow_visitedRows current).mpr h.started.symm
  ordered := by
    intro column hvisited other hother hunvisited
    rw [h.visitRow_shortestValue hvisited]
    exact h.visitRow_ordered hvisited hother hunvisited
  ranked := fun before hbefore =>
    h.ranked before ((visitRow_visitedRows before).mp hbefore).symm

end Searching

end LsapWorkspace

end Mmltk.Assignment
