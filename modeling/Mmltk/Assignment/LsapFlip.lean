import Mmltk.Assignment.LsapPath

namespace Mmltk.Assignment

namespace LsapWorkspace

variable {cost : Nat → Nat → WithTop ℤ} {numRows numCols current bound sink : Nat}
  {rank : Nat → Nat} {minValue : ℤ} {row column : Nat} {workspace : LsapWorkspace}

/-! The duals after a search. -/

namespace Found

variable (h : workspace.Found cost numCols current rank sink minValue)

include h

theorem row_le (hrow : workspace.visitedRows row) : row ≤ current := by
  obtain rfl | ⟨column, hcolumn, -⟩ := h.rows row hrow
  · exact le_refl _
  · exact (h.optimal.columnMatched column row hcolumn).1.le

theorem updateDuals_row (hcurrent : current < numRows) (row : Nat) :
    (workspace.updateDuals numRows numCols current minValue).rowDuals row =
      if workspace.visitedRows row then
        workspace.rowDuals row + (minValue - workspace.distance current row)
      else workspace.rowDuals row := by
  simp only [updateDuals, distance]
  split
  next hrow =>
    subst hrow
    rw [if_pos h.started, sub_zero]
  next hrow =>
    by_cases hvisited : workspace.visitedRows row
    · rw [if_pos ⟨(h.row_le hvisited).trans_lt hcurrent, hvisited⟩, if_pos hvisited]
    · rw [if_neg fun hboth => hvisited hboth.2, if_neg hvisited]

theorem updateDuals_column (column : Nat) :
    (workspace.updateDuals numRows numCols current minValue).columnDuals column =
      if workspace.visitedColumns column then
        workspace.columnDuals column - (minValue - workspace.shortestValue column)
      else workspace.columnDuals column := by
  simp only [updateDuals]
  by_cases hvisited : workspace.visitedColumns column
  · rw [if_pos ⟨h.visitedIn column hvisited, hvisited⟩, if_pos hvisited]
  · rw [if_neg fun hboth => hvisited hboth.2, if_neg hvisited]

theorem updateDuals_column_le (numRows column : Nat) :
    (workspace.updateDuals numRows numCols current minValue).columnDuals column ≤
      workspace.columnDuals column := by
  rw [h.updateDuals_column]
  split
  next hvisited =>
    have hle := h.visitedLe column hvisited
    omega
  next => exact le_refl _

theorem updateDuals_feasible {value : ℤ} (hcurrent : current < numRows) (hrow : row ≤ current)
    (hcolumn : column < numCols) (hvalue : cost row column = value) :
    (workspace.updateDuals numRows numCols current minValue).rowDuals row +
      (workspace.updateDuals numRows numCols current minValue).columnDuals column ≤ value := by
  have hcolumnLe := h.updateDuals_column_le numRows column
  rw [h.updateDuals_row hcurrent]
  split
  next hvisited =>
    have hrelaxed := h.relaxed row hvisited column hcolumn value hvalue
    rw [h.updateDuals_column]
    split
    next hdone =>
      rw [h.settled column hdone, WithTop.coe_le_coe] at hrelaxed
      omega
    next hleft =>
      have hge := (h.remainingGe column hcolumn (by simpa using hleft)).trans hrelaxed
      rw [WithTop.coe_le_coe] at hge
      omega
  next hunvisited =>
    have hless : row < current := hrow.lt_of_ne fun hsame => hunvisited (hsame ▸ h.started)
    have hfeasible := h.optimal.feasible row hless column hcolumn value hvalue
    omega

/-- The path is tight. -/
theorem updateDuals_path (hcurrent : current < numRows) (hcolumn : workspace.visitedColumns column) :
    ∃ before, workspace.path column = some before ∧ workspace.visitedRows before ∧
      cost before column =
        (((workspace.updateDuals numRows numCols current minValue).rowDuals before +
          (workspace.updateDuals numRows numCols current minValue).columnDuals column : ℤ) :
          WithTop ℤ) := by
  have hsettled := h.settled column hcolumn
  obtain ⟨before, value, hpath, hvisited, hvalue, hlabel⟩ := h.tight column
    (h.visitedIn column hcolumn) (hsettled ▸ WithTop.coe_ne_top)
  refine ⟨before, hpath, hvisited, ?_⟩
  rw [hsettled, WithTop.coe_inj] at hlabel
  rw [h.updateDuals_row hcurrent, h.updateDuals_column, if_pos hvisited, if_pos hcolumn, hvalue,
    WithTop.coe_inj]
  omega

theorem updateDuals_tight (hcurrent : current < numRows)
    (hcolumn : workspace.rowForColumn column = some row) :
    cost row column =
      (((workspace.updateDuals numRows numCols current minValue).rowDuals row +
        (workspace.updateDuals numRows numCols current minValue).columnDuals column : ℤ) :
        WithTop ℤ) := by
  rw [h.optimal.tight column row hcolumn, h.updateDuals_row hcurrent, h.updateDuals_column,
    WithTop.coe_inj, h.optimal.distance hcolumn]
  by_cases hvisited : workspace.visitedColumns column
  · obtain rfl | ⟨before, hbefore, hdone⟩ := h.matched column hvisited
    · rw [h.sinkFree] at hcolumn
      exact nomatch hcolumn
    · obtain rfl : before = row := Option.some.inj (hbefore.symm.trans hcolumn)
      rw [if_pos hvisited, if_pos hdone]
      omega
  · have hrow : ¬ workspace.visitedRows row := fun hdone => by
      obtain hsame | ⟨other, hother, hin⟩ := h.rows row hdone
      · exact (h.optimal.columnMatched column row hcolumn).1.ne hsame
      · exact hvisited (h.optimal.column_unique hother hcolumn ▸ hin)
    rw [if_neg hvisited, if_neg hrow]

end Found

/-! The loop that swaps the columns along the path. -/

/-- The matching without the row of one column, which the path leads on from. -/
structure Flipping (cost : Nat → Nat → WithTop ℤ) (numCols current : Nat) (rank : Nat → Nat)
    (bound column : Nat) (workspace : LsapWorkspace) : Prop where
  columnIn : column < numCols
  rowMatched : ∀ row < current, ∃ other < numCols, other ≠ column ∧
    workspace.columnForRow row = some other ∧ workspace.rowForColumn other = some row
  columnMatched : ∀ other ≠ column, ∀ row, workspace.rowForColumn other = some row →
    row < current ∧ workspace.columnForRow row = some other
  feasible : ∀ row ≤ current, ∀ other < numCols, ∀ value : ℤ, cost row other = value →
    workspace.rowDuals row + workspace.columnDuals other ≤ value
  tight : ∀ other ≠ column, ∀ row, workspace.rowForColumn other = some row →
    cost row other = ((workspace.rowDuals row + workspace.columnDuals other : ℤ) : WithTop ℤ)
  nonpos : ∀ other, workspace.columnDuals other ≤ 0
  free : ∀ other ≠ column, workspace.rowForColumn other = none → workspace.columnDuals other = 0
  onPath : workspace.visitedColumns column
  path : ∀ other, workspace.visitedColumns other → ∃ before, workspace.path other = some before ∧
    workspace.visitedRows before ∧ cost before other =
      ((workspace.rowDuals before + workspace.columnDuals other : ℤ) : WithTop ℤ)
  rows : ∀ before, workspace.visitedRows before → before = current ∨
    before < current ∧ ∃ other, workspace.columnForRow before = some other ∧
      workspace.visitedColumns other
  descends : ∀ row < current, workspace.visitedRows row → rank row < bound → ∀ other before,
    workspace.columnForRow row = some other → workspace.path other = some before →
    rank before < rank row
  below : ∀ before, workspace.path column = some before → rank before < bound

theorem Found.flipping (h : workspace.Found cost numCols current rank sink minValue)
    (hcurrent : current < numRows) :
    (workspace.updateDuals numRows numCols current minValue).Flipping cost numCols current rank
      (current + 1) sink where
  columnIn := h.visitedIn sink h.sinkVisited
  rowMatched := by
    intro row hrow
    obtain ⟨other, hother, hcolumn, hmatched⟩ := h.optimal.rowMatched row hrow
    refine ⟨other, hother, fun hsame => ?_, hcolumn, hmatched⟩
    rw [hsame, h.sinkFree] at hmatched
    exact nomatch hmatched
  columnMatched := fun other _ => h.optimal.columnMatched other
  feasible := fun row hrow other hother value hvalue =>
    h.updateDuals_feasible hcurrent hrow hother hvalue
  tight := fun other _ row hrow => h.updateDuals_tight hcurrent hrow
  nonpos := fun other => (h.updateDuals_column_le numRows other).trans (h.optimal.nonpos other)
  free := by
    intro other hother hnone
    rw [h.updateDuals_column]
    split
    next hvisited =>
      obtain hsame | ⟨before, hbefore, -⟩ := h.matched other hvisited
      · exact absurd hsame hother
      · exact nomatch hnone.symm.trans hbefore
    next => exact h.optimal.free other hnone
  onPath := h.sinkVisited
  path := fun other hother => h.updateDuals_path hcurrent hother
  rows := by
    intro before hbefore
    refine (h.rows before hbefore).imp id fun ⟨other, hother, hvisited⟩ => ?_
    obtain ⟨hless, hcolumn⟩ := h.optimal.columnMatched other before hother
    exact ⟨hless, other, hcolumn, hvisited⟩
  descends := by
    intro row hrow hvisited _ other before hother hpath
    obtain hsame | ⟨same, hsame, hin⟩ := h.rows row hvisited
    · exact absurd hsame hrow.ne
    · have hcolumn := (h.optimal.columnMatched same row hsame).2
      obtain rfl : same = other := Option.some.inj (hcolumn.symm.trans hother)
      exact h.descends same hin row before hsame hpath
  below := by
    intro before hbefore
    obtain ⟨found, hfound, hvisited, -⟩ := h.updateDuals_path hcurrent h.sinkVisited
    obtain rfl : found = before := Option.some.inj (hfound.symm.trans hbefore)
    exact Nat.lt_succ_of_le (h.ranked found hvisited)

theorem update_some_cases {map : Nat → Option Nat} {other before : Nat}
    (h : Function.update map column (some row) other = some before) :
    other = column ∧ row = before ∨ other ≠ column ∧ map other = some before := by
  rw [Function.update_apply] at h
  split at h
  next hsame => exact .inl ⟨hsame, Option.some.inj h⟩
  next hne => exact .inr ⟨hne, h⟩

theorem update_none_cases {map : Nat → Option Nat} {other : Nat}
    (h : Function.update map column (some row) other = none) :
    other ≠ column ∧ map other = none := by
  rw [Function.update_apply] at h
  split at h
  next => exact nomatch h
  next hne => exact ⟨hne, h⟩

namespace Flipping

variable (h : workspace.Flipping cost numCols current rank bound column)
  (hpath : workspace.path column = some row)

include h hpath

theorem path_tight : workspace.visitedRows row ∧
    cost row column =
      ((workspace.rowDuals row + workspace.columnDuals column : ℤ) : WithTop ℤ) := by
  obtain ⟨before, hbefore, hvisited, htight⟩ := h.path column h.onPath
  obtain rfl : before = row := Option.some.inj (hbefore.symm.trans hpath)
  exact ⟨hvisited, htight⟩

/-- The row of the path takes the column. -/
theorem flipped_tight (other before : Nat)
    (hother : Function.update workspace.rowForColumn column (some row) other = some before)
    (hkept : other ≠ column → workspace.rowForColumn other = some before →
      cost before other =
        ((workspace.rowDuals before + workspace.columnDuals other : ℤ) : WithTop ℤ)) :
    cost before other =
      ((workspace.rowDuals before + workspace.columnDuals other : ℤ) : WithTop ℤ) := by
  obtain ⟨rfl, rfl⟩ | ⟨hne, hold⟩ := update_some_cases hother
  · exact (h.path_tight hpath).2
  · exact hkept hne hold

/-- The row of the search ends the path. -/
theorem finish (hrow : row = current) :
    Optimal cost numCols (current + 1)
      { workspace with
        rowForColumn := Function.update workspace.rowForColumn column (some row)
        columnForRow := Function.update workspace.columnForRow row (some column) } where
  rowMatched := by
    intro before hbefore
    by_cases hsame : before = row
    · subst hsame
      exact ⟨column, h.columnIn, Function.update_self .., Function.update_self ..⟩
    · obtain ⟨other, hother, hne, hcolumn, hmatched⟩ := h.rowMatched before (by omega)
      refine ⟨other, hother, ?_, ?_⟩
      · exact (Function.update_of_ne hsame _ _).trans hcolumn
      · exact (Function.update_of_ne hne _ _).trans hmatched
  columnMatched := by
    intro other before hbefore
    obtain ⟨rfl, rfl⟩ | ⟨hne, hold⟩ := update_some_cases hbefore
    · exact ⟨by omega, Function.update_self ..⟩
    · obtain ⟨hless, hcolumn⟩ := h.columnMatched other hne before hold
      exact ⟨by omega, (Function.update_of_ne (by omega) _ _).trans hcolumn⟩
  feasible := fun before hbefore => h.feasible before (Nat.le_of_lt_succ hbefore)
  tight := fun other before hbefore => h.flipped_tight hpath other before hbefore
    fun hne => h.tight other hne before
  nonpos := h.nonpos
  free := by
    intro other hnone
    obtain ⟨hne, hold⟩ := update_none_cases hnone
    exact h.free other hne hold

/-- Any other row leaves its column to the rest of the path. -/
theorem next (hrow : row ≠ current) : ∃ other, workspace.columnForRow row = some other ∧
    Flipping cost numCols current rank (rank row) other
      { workspace with
        rowForColumn := Function.update workspace.rowForColumn column (some row)
        columnForRow := Function.update workspace.columnForRow row (some column) } := by
  obtain ⟨hvisited, htight⟩ := h.path_tight hpath
  obtain ⟨hless, other, hother, honPath⟩ := (h.rows row hvisited).resolve_left hrow
  obtain ⟨same, hin, hne, hsame, hmatched⟩ := h.rowMatched row hless
  obtain rfl : same = other := Option.some.inj (hsame.symm.trans hother)
  refine ⟨same, hother, hin, fun before hbefore => ?_, fun taken htaken before hbefore => ?_,
    h.feasible, fun taken htaken before hbefore => h.flipped_tight hpath taken before hbefore
      fun hne => h.tight taken hne before,
    h.nonpos, fun taken htaken hnone => ?_, honPath, h.path, fun before hbefore => ?_,
    fun before hbefore hdone hrank taken found htaken hfound => ?_, fun before hbefore => ?_⟩
  · by_cases hequal : before = row
    · subst hequal
      exact ⟨column, h.columnIn, hne.symm, Function.update_self .., Function.update_self ..⟩
    · obtain ⟨taken, htaken, hout, hcolumn, hkept⟩ := h.rowMatched before hbefore
      refine ⟨taken, htaken, fun hclash => ?_, ?_, ?_⟩
      · subst hclash
        exact hequal (Option.some.inj (hkept.symm.trans hmatched))
      · exact (Function.update_of_ne hequal _ _).trans hcolumn
      · exact (Function.update_of_ne hout _ _).trans hkept
  · obtain ⟨rfl, rfl⟩ | ⟨hequal, hold⟩ := update_some_cases hbefore
    · exact ⟨hless, Function.update_self ..⟩
    · obtain ⟨hlt, hcolumn⟩ := h.columnMatched taken hequal before hold
      refine ⟨hlt, (Function.update_of_ne (fun hclash => ?_) _ _).trans hcolumn⟩
      subst hclash
      exact htaken (Option.some.inj (hcolumn.symm.trans hother))
  · obtain ⟨hequal, hold⟩ := update_none_cases hnone
    exact h.free taken hequal hold
  · by_cases hequal : before = row
    · subst hequal
      exact .inr ⟨hless, column, Function.update_self .., h.onPath⟩
    · refine (h.rows before hbefore).imp id fun ⟨hlt, taken, htaken, hin⟩ => ?_
      exact ⟨hlt, taken, (Function.update_of_ne hequal _ _).trans htaken, hin⟩
  · have hequal : before ≠ row := fun hclash => by
      rw [hclash] at hrank
      exact lt_irrefl _ hrank
    exact h.descends before hbefore hdone (hrank.trans (h.below row hpath)) taken found
      ((Function.update_of_ne hequal _ _).symm.trans htaken) hfound
  · exact h.descends row hless hvisited (h.below row hpath) same before hother hbefore

end Flipping

theorem flip_spec (fuel : Nat) (h : workspace.Flipping cost numCols current rank bound column)
    (hbound : bound ≤ fuel) :
    ∃ flipped, flip current fuel column workspace = some flipped ∧
      flipped.Optimal cost numCols (current + 1) := by
  obtain ⟨row, hpath, -⟩ := h.path column h.onPath
  induction fuel generalizing bound column row workspace with
  | zero => exact absurd (h.below row hpath) (by omega)
  | succ fuel ih =>
      by_cases hrow : row = current
      · refine ⟨_, ?_, h.finish hpath hrow⟩
        simp [flip, hpath, hrow]
      · obtain ⟨other, hother, hnext⟩ := h.next hpath hrow
        obtain ⟨found, hfound, -⟩ := hnext.path other hnext.onPath
        obtain ⟨flipped, hflipped, hoptimal⟩ := ih hnext
          (Nat.le_of_lt_succ ((h.below row hpath).trans_le hbound)) found hfound
        refine ⟨flipped, ?_, hoptimal⟩
        simpa [flip, hpath, hrow, hother] using hflipped

end LsapWorkspace

end Mmltk.Assignment
