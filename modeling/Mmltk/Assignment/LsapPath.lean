import Mmltk.Assignment.LsapSearch
import Mmltk.Foundation.Assignment

namespace Mmltk.Assignment

namespace LsapWorkspace

open Mmltk.Foundation

variable {cost : Nat → Nat → WithTop ℤ} {numRows numCols current : Nat} {rank : Nat → Nat}
  {currentMin lowest : ℤ} {row column index next : Nat} {workspace : LsapWorkspace}

/-! The column that is visited next. -/

def visitedSet (workspace : LsapWorkspace) (numCols : Nat) : Finset Nat :=
  (Finset.range numCols).filter fun column => workspace.visitedColumns column

/-- The row of a visited column. -/
def rowOf (workspace : LsapWorkspace) (column : Nat) : Nat := (workspace.rowForColumn column).getD 0

theorem Visited.rowOf_injOn (h : workspace.Visited cost numCols current rank) :
    Set.InjOn workspace.rowOf (workspace.visitedSet numCols) := by
  intro column hcolumn other hother hsame
  obtain ⟨row, hrow, -⟩ := h.matched column (Finset.mem_filter.mp hcolumn).2
  obtain ⟨before, hbefore, -⟩ := h.matched other (Finset.mem_filter.mp hother).2
  rw [rowOf, rowOf, hrow, hbefore, Option.getD_some, Option.getD_some] at hsame
  exact h.optimal.column_unique hrow (hsame ▸ hbefore)

theorem Visited.visitedCount_le (h : workspace.Visited cost numCols current rank) :
    workspace.visitedCount numCols ≤ current := by
  rw [← Finset.card_range current]
  refine Finset.card_le_card_of_injOn workspace.rowOf (fun column hcolumn => ?_) h.rowOf_injOn
  obtain ⟨row, hrow, -⟩ := h.matched column (Finset.mem_filter.mp hcolumn).2
  rw [rowOf, hrow]
  exact Finset.mem_coe.mpr (Finset.mem_range.mpr (h.optimal.columnMatched column row hrow).1)

/-- Without a finite label left, the visited rows have finite costs in visited columns only, of
which there are fewer. -/
theorem Visited.blocked (h : workspace.Visited cost numCols current rank) (hcurrent : current < numRows)
    (hle : numRows ≤ numCols)
    (hnone : ∀ column ∈ workspace.remainingColumns, workspace.shortestPathCosts column = ⊤)
    {pairs : List (Nat × Nat)} (hpairs : IsAssignment numRows numCols pairs) :
    ¬ Allows (fun row column => cost row column ≠ ⊤) pairs := by
  intro hallowed
  have hrows : ∀ row ∈ insert current ((workspace.visitedSet numCols).image workspace.rowOf),
      row ≤ current ∧ workspace.visitedRows row := fun row hrow => by
    obtain rfl | himage := Finset.mem_insert.mp hrow
    · exact ⟨le_refl _, h.started⟩
    · obtain ⟨column, hcolumn, rfl⟩ := Finset.mem_image.mp himage
      obtain ⟨before, hbefore, hvisited⟩ := h.matched column (Finset.mem_filter.mp hcolumn).2
      rw [rowOf, hbefore]
      exact ⟨(h.optimal.columnMatched column before hbefore).1.le, hvisited⟩
  have hfresh : current ∉ (workspace.visitedSet numCols).image workspace.rowOf := fun himage => by
    obtain ⟨column, hcolumn, hequal⟩ := Finset.mem_image.mp himage
    obtain ⟨before, hbefore, -⟩ := h.matched column (Finset.mem_filter.mp hcolumn).2
    rw [rowOf, hbefore] at hequal
    exact (h.optimal.columnMatched column before hbefore).1.ne hequal
  have hcolumns : ∀ row ∈ insert current ((workspace.visitedSet numCols).image workspace.rowOf),
      ∀ column < numCols, cost row column ≠ ⊤ → column ∈ workspace.visitedSet numCols := by
    intro row hrow column hcolumn hfinite
    refine Finset.mem_filter.mpr ⟨Finset.mem_range.mpr hcolumn, ?_⟩
    by_contra hunvisited
    obtain ⟨value, hvalue⟩ := WithTop.ne_top_iff_exists.mp hfinite
    have hrelaxed := h.relaxed row (hrows row hrow).2 column hcolumn value hvalue.symm
    rw [hnone column ((h.remaining column).mpr ⟨hcolumn, by simpa using hunvisited⟩)] at hrelaxed
    exact absurd hrelaxed (WithTop.not_top_le_coe _)
  have hcard := hpairs.blocked hle hallowed (fun row hrow => (hrows row hrow).1.trans_lt hcurrent)
    hcolumns
  rw [Finset.card_insert_of_notMem hfresh, Finset.card_image_of_injOn h.rowOf_injOn] at hcard
  omega

theorem visitColumn_visited (other : Nat) :
    (workspace.visitColumn index column).visitedColumns other ↔
      other = column ∨ workspace.visitedColumns other := by
  change Function.update workspace.visitedColumns column true other = true ↔ _
  rw [Function.update_apply]
  split <;> simp [*]

/-- A remaining column of the least label. -/
structure Least (workspace : LsapWorkspace) (index column : Nat) (lowest : ℤ) : Prop where
  place : workspace.remainingColumns[index]? = some column
  label : workspace.shortestPathCosts column = lowest
  least : ∀ other ∈ workspace.remainingColumns,
    (lowest : WithTop ℤ) ≤ workspace.shortestPathCosts other

theorem Least.shortestValue (h : workspace.Least index column lowest) :
    workspace.shortestValue column = lowest := by
  rw [LsapWorkspace.shortestValue, h.label]
  rfl

namespace Visited

variable (h : workspace.Visited cost numCols current rank)
  (hleast : workspace.Least index column lowest)

include h hleast

theorem column_remaining : column < numCols ∧ workspace.visitedColumns column = false :=
  (h.remaining column).mp (List.mem_of_getElem? hleast.place)

theorem visitColumn_remaining (other : Nat) :
    other ∈ (workspace.visitColumn index column).remainingColumns ↔
      other ∈ workspace.remainingColumns ∧ other ≠ column := by
  have hperm := swapRemove_perm hleast.place
  have hnodup := hperm.nodup_iff.mpr h.nodup
  rw [← hperm.mem_iff, List.mem_cons]
  change other ∈ swapRemove workspace.remainingColumns index ↔ _
  refine ⟨fun hmem => ⟨.inr hmem, ?_⟩, fun hmem => hmem.1.resolve_left hmem.2⟩
  rintro rfl
  exact (List.nodup_cons.mp hnodup).1 hmem

theorem visitColumn_count :
    (workspace.visitColumn index column).visitedCount numCols =
      workspace.visitedCount numCols + 1 := by
  obtain ⟨hcolumn, hunvisited⟩ := h.column_remaining hleast
  have hinsert : (Finset.range numCols).filter
      (fun other => (workspace.visitColumn index column).visitedColumns other) =
      insert column (workspace.visitedSet numCols) := by
    ext other
    rw [Finset.mem_filter, Finset.mem_insert, visitColumn_visited, visitedSet, Finset.mem_filter,
      Finset.mem_range]
    refine ⟨fun ⟨hother, hvisited⟩ => hvisited.imp id fun hold => ⟨hother, hold⟩, ?_⟩
    rintro (rfl | ⟨hother, hold⟩)
    · exact ⟨hcolumn, .inl rfl⟩
    · exact ⟨hother, .inr hold⟩
  rw [visitedCount, hinsert, Finset.card_insert_of_notMem fun hmem => ?_]
  · rfl
  · have hvisited := (Finset.mem_filter.mp hmem).2
    rw [hunvisited] at hvisited
    exact nomatch hvisited

theorem visitColumn_labelled {ranked : Nat → Nat}
    (hranked : ∀ before, workspace.visitedRows before → ranked before = rank before)
    (hnext : ∀ next, workspace.rowForColumn column = some next →
      ∀ before, workspace.visitedRows before → ranked before < ranked next) :
    (workspace.visitColumn index column).Labelled cost numCols current ranked where
  optimal := ⟨h.optimal.rowMatched, h.optimal.columnMatched, h.optimal.feasible, h.optimal.tight,
    h.optimal.nonpos, h.optimal.free⟩
  nodup := (List.nodup_cons.mp ((swapRemove_perm hleast.place).nodup_iff.mpr h.nodup)).2
  remaining := by
    intro other
    rw [h.visitColumn_remaining hleast, h.remaining, ← Bool.not_eq_true, ← Bool.not_eq_true,
      visitColumn_visited]
    tauto
  visitedIn := by
    intro other hother
    obtain rfl | hold := (visitColumn_visited other).mp hother
    · exact (h.column_remaining hleast).1
    · exact h.visitedIn other hold
  settled := by
    intro other hother
    obtain rfl | hold := (visitColumn_visited other).mp hother
    · exact hleast.label.trans (congrArg _ hleast.shortestValue.symm)
    · exact h.settled other hold
  rows := by
    intro before hbefore
    refine (h.rows before hbefore).imp id fun ⟨other, hother, hvisited⟩ => ?_
    exact ⟨other, hother, (visitColumn_visited other).mpr (.inr hvisited)⟩
  relaxed := h.relaxed
  tight := h.tight
  descends := by
    intro other hother row before hrow hpath
    have hlabel : other < numCols ∧ workspace.shortestPathCosts other ≠ ⊤ := by
      obtain rfl | hold := (visitColumn_visited other).mp hother
      · exact ⟨(h.column_remaining hleast).1, hleast.label ▸ WithTop.coe_ne_top⟩
      · exact ⟨h.visitedIn other hold, h.settled other hold ▸ WithTop.coe_ne_top⟩
    obtain ⟨found, value, hfound, hvisited, -⟩ := h.tight other hlabel.1 hlabel.2
    obtain rfl : found = before := Option.some.inj (hfound.symm.trans hpath)
    obtain rfl | hold := (visitColumn_visited other).mp hother
    · exact hnext row hrow found hvisited
    · obtain ⟨same, hsame, hdone⟩ := h.matched other hold
      obtain rfl : same = row := Option.some.inj (hsame.symm.trans hrow)
      rw [hranked found hvisited, hranked same hdone]
      exact h.descends other hold same found hsame hpath

theorem visitColumn (hnext : workspace.rowForColumn column = some next) :
    (workspace.visitColumn index column).Searching cost numCols current
      (Function.update rank next (workspace.visitedCount numCols + 1)) lowest next := by
  obtain ⟨hcolumn, hunvisited⟩ := h.column_remaining hleast
  have hfresh : workspace.visitedRows next = false := by
    by_contra hvisited
    obtain hcurrent | ⟨other, hother, hdone⟩ := h.rows next (by simpa using hvisited)
    · exact (h.optimal.columnMatched column next hnext).1.ne hcurrent
    · rw [h.optimal.column_unique hother hnext, hunvisited] at hdone
      exact nomatch hdone
  have hranked : ∀ before, workspace.visitedRows before →
      Function.update rank next (workspace.visitedCount numCols + 1) before = rank before :=
    fun before hbefore => Function.update_of_ne (fun hsame => by
      rw [hsame, hfresh] at hbefore
      exact nomatch hbefore) _ _
  have hlabelled := h.visitColumn_labelled hleast hranked fun other hother before hbefore => by
    obtain rfl : next = other := Option.some.inj (hnext.symm.trans hother)
    rw [hranked before hbefore, Function.update_self]
    exact Nat.lt_succ_of_le (h.ranked before hbefore)
  refine ⟨hlabelled, hfresh, .inr ⟨column, hnext, (visitColumn_visited column).mpr (.inl rfl)⟩,
    fun other hother => ?_, .inl h.started, ?_, fun other hother => ?_, fun other hother hremaining => ?_,
    fun before hbefore => ?_⟩
  · obtain rfl | hold := (visitColumn_visited other).mp hother
    · exact ⟨next, hnext, .inr rfl⟩
    · obtain ⟨before, hbefore, hvisited⟩ := h.matched other hold
      exact ⟨before, hbefore, .inl hvisited⟩
  · exact (h.optimal.distance hnext).trans hleast.shortestValue
  · obtain rfl | hold := (visitColumn_visited other).mp hother
    · exact hleast.shortestValue.le
    · have hordered := h.ordered other hold column hcolumn hunvisited
      rw [hleast.label] at hordered
      exact WithTop.coe_le_coe.mp hordered
  · have hmem := (hlabelled.remaining other).mpr ⟨hother, hremaining⟩
    exact hleast.least other ((h.visitColumn_remaining hleast other).mp hmem).1
  · rw [h.visitColumn_count hleast]
    obtain hold | rfl := hbefore
    · rw [hranked before hold]
      exact Nat.le_succ_of_le (h.ranked before hold)
    · rw [Function.update_self]

end Visited

/-- The end of a search, at a column without a row. -/
structure Found (cost : Nat → Nat → WithTop ℤ) (numCols current : Nat) (rank : Nat → Nat)
    (sink : Nat) (minValue : ℤ) (workspace : LsapWorkspace) : Prop
    extends Labelled cost numCols current rank workspace where
  sinkVisited : workspace.visitedColumns sink
  sinkFree : workspace.rowForColumn sink = none
  sinkLabel : workspace.shortestValue sink = minValue
  matched : ∀ column, workspace.visitedColumns column → column = sink ∨ ∃ before,
    workspace.rowForColumn column = some before ∧ workspace.visitedRows before
  started : workspace.visitedRows current
  visitedLe : ∀ column, workspace.visitedColumns column → workspace.shortestValue column ≤ minValue
  remainingGe : ∀ column < numCols, workspace.visitedColumns column = false →
    (minValue : WithTop ℤ) ≤ workspace.shortestPathCosts column
  ranked : ∀ before, workspace.visitedRows before → rank before ≤ current

theorem Visited.visitSink (h : workspace.Visited cost numCols current rank)
    (hleast : workspace.Least index column lowest)
    (hfree : workspace.rowForColumn column = none) :
    (workspace.visitColumn index column).Found cost numCols current rank column lowest := by
  obtain ⟨hcolumn, hunvisited⟩ := h.column_remaining hleast
  have hlabelled := h.visitColumn_labelled hleast (fun _ _ => rfl) fun next hnext => by
    rw [hfree] at hnext
    exact nomatch hnext
  refine ⟨hlabelled, (visitColumn_visited column).mpr (.inl rfl), hfree, hleast.shortestValue,
    fun other hother => ?_, h.started, fun other hother => ?_, fun other hother hremaining => ?_,
    fun before hbefore => (h.ranked before hbefore).trans h.visitedCount_le⟩
  · exact ((visitColumn_visited other).mp hother).imp id (h.matched other)
  · obtain rfl | hold := (visitColumn_visited other).mp hother
    · exact hleast.shortestValue.le
    · have hordered := h.ordered other hold column hcolumn hunvisited
      rw [hleast.label] at hordered
      exact WithTop.coe_le_coe.mp hordered
  · have hmem := (hlabelled.remaining other).mpr ⟨hother, hremaining⟩
    exact hleast.least other ((h.visitColumn_remaining hleast other).mp hmem).1

/-! The whole search. -/

/-- The scan ends with a least label, or without a finite one. -/
theorem scanColumns_cases (cost : Nat → Nat → WithTop ℤ) (currentMin : ℤ) (row : Nat)
    (hnodup : workspace.remainingColumns.Nodup) :
    (∃ lowest : ℤ, ∃ index column,
      (workspace.scanColumns cost currentMin row).lowest = (lowest : WithTop ℤ) ∧
      (workspace.scanColumns cost currentMin row).index = some index ∧
      (workspace.visitRow cost currentMin row).Least index column lowest) ∨
    ((workspace.scanColumns cost currentMin row).lowest = ⊤ ∧
      ∀ column ∈ workspace.remainingColumns,
        (workspace.visitRow cost currentMin row).shortestPathCosts column = ⊤) := by
  have hscan : Scanned cost workspace currentMin row workspace.remainingColumns 0
      ⟨workspace.shortestPathCosts, workspace.path, ⊤, none⟩
      (workspace.scanColumns cost currentMin row) := scanColumns_scanned hnodup
  cases hlowest : (workspace.scanColumns cost currentMin row).lowest with
  | top =>
      refine .inr ⟨rfl, fun column hcolumn => ?_⟩
      exact top_le_iff.mp (hlowest ▸ hscan.lowest.2 column hcolumn)
  | coe lowest =>
      obtain ⟨hnone, -⟩ | ⟨place, column, hplace, hindex, hlabel⟩ := hscan.index
      · rw [hlowest] at hnone
        exact absurd hnone WithTop.coe_ne_top
      · refine .inl ⟨lowest, 0 + place, column, rfl, hindex, ?_, hlabel.trans hlowest,
          fun other hother => hlowest ▸ hscan.lowest.2 other hother⟩
        rw [Nat.zero_add]
        exact hplace

/-- What a search that is given enough steps ends with. -/
inductive SearchSpec (cost : Nat → Nat → WithTop ℤ) (numRows numCols current : Nat) :
    SearchOutcome → Prop where
  | sink (rank : Nat → Nat) (column : Nat) (minValue : ℤ) (workspace : LsapWorkspace)
      (found : workspace.Found cost numCols current rank column minValue) :
      SearchSpec cost numRows numCols current (.sink column minValue workspace)
  | infeasible (blocked : ∀ pairs, IsAssignment numRows numCols pairs →
      ¬ Allows (fun row column => cost row column ≠ ⊤) pairs) :
      SearchSpec cost numRows numCols current .infeasible

theorem search_spec (hcurrent : current < numRows) (hle : numRows ≤ numCols) (fuel : Nat)
    (h : workspace.Searching cost numCols current rank currentMin row)
    (hfuel : workspace.remainingColumns.length < fuel) :
    SearchSpec cost numRows numCols current (search cost fuel currentMin row workspace) := by
  induction fuel generalizing rank currentMin row workspace with
  | zero => exact absurd hfuel (Nat.not_lt_zero _)
  | succ fuel ih =>
      rw [search]
      obtain ⟨lowest, index, column, hlowest, hindex, hleast⟩ | ⟨hlowest, hnone⟩ :=
        scanColumns_cases cost currentMin row h.nodup
      · have hplace : workspace.remainingColumns.getD index 0 = column := by
          have hsome : workspace.remainingColumns[index]? = some column := hleast.place
          rw [List.getD_eq_getElem?_getD, hsome]
          rfl
        have hscanned := h.visitRow
        simp only [hlowest, hindex, hplace]
        cases hmatched : workspace.rowForColumn column with
        | none => exact .sink rank column lowest _ (hscanned.visitSink hleast hmatched)
        | some next =>
            refine ih (hscanned.visitColumn hleast hmatched) ?_
            have hlength := (swapRemove_perm hleast.place).length_eq
            change (swapRemove workspace.remainingColumns index).length < fuel
            change (swapRemove workspace.remainingColumns index).length + 1 =
              workspace.remainingColumns.length at hlength
            omega
      · simp only [hlowest]
        exact .infeasible fun pairs hpairs => h.visitRow.blocked hcurrent hle hnone hpairs

theorem augmentingPath_spec (h : workspace.Optimal cost numCols current)
    (hcurrent : current < numRows) (hle : numRows ≤ numCols) :
    SearchSpec cost numRows numCols current (workspace.augmentingPath cost numCols current) := by
  have hmem : ∀ column, column ∈ (List.range numCols).map (fun index => numCols - index - 1) ↔
      column < numCols := fun column => by
    simp only [List.mem_map, List.mem_range]
    exact ⟨fun ⟨index, hindex, hequal⟩ => by omega, fun hcolumn =>
      ⟨numCols - column - 1, by omega, by omega⟩⟩
  refine @search_spec cost numRows numCols current (fun _ => 0) 0 current _ hcurrent hle
    (numCols + 1) ?_ ?_
  · exact {
      optimal := ⟨h.rowMatched, h.columnMatched, h.feasible, h.tight, h.nonpos, h.free⟩
      nodup := by
        refine List.Nodup.map_on (fun index hindex other hother hsame => ?_) List.nodup_range
        rw [List.mem_range] at hindex hother
        omega
      remaining := fun column => by simpa using hmem column
      visitedIn := nofun
      settled := nofun
      rows := nofun
      relaxed := nofun
      tight := fun column _ hfinite => absurd rfl hfinite
      descends := nofun
      fresh := rfl
      pending := .inl ⟨rfl, fun _ => rfl⟩
      matched := nofun
      started := .inr rfl
      reached := distance_current
      visitedLe := nofun
      remainingGe := fun _ _ _ => le_top
      ranked := fun _ _ => Nat.zero_le _ }
  · simp

end LsapWorkspace

end Mmltk.Assignment
