import Mmltk.Assignment.LsapFlip

namespace Mmltk.Assignment

open Mmltk.Foundation

namespace LsapWorkspace

variable {cost : Nat → Nat → WithTop ℤ} {numRows numCols current : Nat}
  {workspace : LsapWorkspace}

/-! All rows. -/

/-- What the rows end with: a matching that the duals prove best, or no matching at all. -/
inductive RowsSpec (cost : Nat → Nat → WithTop ℤ) (numRows numCols : Nat) :
    LsapStatus × LsapWorkspace → Prop where
  | ok (solved : LsapWorkspace) (optimal : solved.Optimal cost numCols numRows) :
      RowsSpec cost numRows numCols (.ok, solved)
  | infeasible (left : LsapWorkspace) (blocked : ∀ pairs, IsAssignment numRows numCols pairs →
      ¬ Allows (fun row column => cost row column ≠ ⊤) pairs) :
      RowsSpec cost numRows numCols (.infeasible, left)

theorem solveRows_spec (hle : numRows ≤ numCols) (count : Nat)
    (h : workspace.Optimal cost numCols current) (hcount : current + count = numRows) :
    ∃ outcome, solveRows cost numRows numCols (List.range' current count) workspace = some outcome ∧
      RowsSpec cost numRows numCols outcome := by
  induction count generalizing current workspace with
  | zero =>
      obtain rfl : current = numRows := hcount
      exact ⟨_, rfl, .ok workspace h⟩
  | succ count ih =>
      have hcurrent : current < numRows := by omega
      rw [List.range'_succ, solveRows]
      have hspec := augmentingPath_spec h hcurrent hle
      cases hpath : workspace.augmentingPath cost numCols current with
      | unfinished =>
          rw [hpath] at hspec
          exact nomatch hspec
      | infeasible =>
          rw [hpath] at hspec
          cases hspec with
          | infeasible hblocked => exact ⟨_, rfl, .infeasible workspace hblocked⟩
      | sink column minValue found =>
          rw [hpath] at hspec
          cases hspec with
          | sink rank _ _ _ hfound =>
              obtain ⟨flipped, hflipped, hoptimal⟩ :=
                flip_spec numRows (hfound.flipping hcurrent) hcurrent
              obtain ⟨outcome, houtcome, hrows⟩ := ih hoptimal (by omega)
              refine ⟨outcome, ?_, hrows⟩
              simp only [hflipped, Option.bind_eq_bind, Option.bind_some]
              exact houtcome

/-- The pairs of the rows. -/
def pairs (workspace : LsapWorkspace) (numRows : Nat) : List (Nat × Nat) :=
  (List.range numRows).map fun row => (row, (workspace.columnForRow row).getD 0)

namespace Optimal

variable (h : workspace.Optimal cost numCols numRows)

include h

theorem pair_matched {pair : Nat × Nat} (hpair : pair ∈ workspace.pairs numRows) :
    pair.1 < numRows ∧ pair.2 < numCols ∧ workspace.rowForColumn pair.2 = some pair.1 := by
  obtain ⟨row, hrow, rfl⟩ := List.mem_map.mp hpair
  rw [List.mem_range] at hrow
  obtain ⟨column, hcolumn, hsome, hmatched⟩ := h.rowMatched row hrow
  rw [hsome]
  exact ⟨hrow, hcolumn, hmatched⟩

theorem isAssignment (hle : numRows ≤ numCols) :
    IsAssignment numRows numCols (workspace.pairs numRows) where
  rowsIn := fun _ hpair => (h.pair_matched hpair).1
  colsIn := fun _ hpair => (h.pair_matched hpair).2.1
  rowsOnce := by
    rw [pairs, List.map_map]
    exact (List.map_id _).symm ▸ List.nodup_range
  colsOnce := by
    rw [pairs, List.map_map]
    refine List.Nodup.map_on (fun row hrow other hother hsame => ?_) List.nodup_range
    have hfirst := (h.pair_matched (List.mem_map.mpr ⟨row, hrow, rfl⟩)).2.2
    have hsecond := (h.pair_matched (List.mem_map.mpr ⟨other, hother, rfl⟩)).2.2
    exact Option.some.inj (hfirst.symm.trans ((congrArg workspace.rowForColumn hsame).trans hsecond))
  full := by rw [pairs, List.length_map, List.length_range, Nat.min_eq_left hle]

theorem allows : Allows (fun row column => cost row column ≠ ⊤) (workspace.pairs numRows) :=
  fun pair hpair => by
    change cost pair.1 pair.2 ≠ ⊤
    rw [h.tight pair.2 pair.1 (h.pair_matched hpair).2.2]
    exact WithTop.coe_ne_top

/-- Weak duality. -/
theorem total_le (hle : numRows ≤ numCols) {other : List (Nat × Nat)}
    (hother : IsAssignment numRows numCols other)
    (hallowed : Allows (fun row column => cost row column ≠ ⊤) other) :
    total (fun row column => (cost row column).untopD 0) (workspace.pairs numRows) ≤
      total (fun row column => (cost row column).untopD 0) other := by
  have hequal : total (fun row column => (cost row column).untopD 0) (workspace.pairs numRows) =
      ((List.range numRows).map workspace.rowDuals).sum +
        ((List.range numCols).map workspace.columnDuals).sum := by
    refine (h.isAssignment hle).duals_eq hle (fun pair hpair => ?_) fun column hcolumn hunused => ?_
    · rw [h.tight pair.2 pair.1 (h.pair_matched hpair).2.2]
      rfl
    · refine h.free column ?_
      by_contra hsome
      obtain ⟨row, hrow⟩ := Option.ne_none_iff_exists'.mp hsome
      obtain ⟨hless, hcolumnOf⟩ := h.columnMatched column row hrow
      refine hunused (List.mem_map.mpr ⟨(row, column), List.mem_map.mpr ⟨row, ?_, ?_⟩, rfl⟩)
      · exact List.mem_range.mpr hless
      · rw [hcolumnOf]
        rfl
  rw [hequal]
  refine hother.duals_le hle hallowed (fun row hrow column hcolumn hfinite => ?_) fun column _ =>
    h.nonpos column
  obtain ⟨value, hvalue⟩ := WithTop.ne_top_iff_exists.mp hfinite
  rw [← hvalue]
  exact h.feasible row hrow column hcolumn value hvalue.symm

end Optimal

end LsapWorkspace

end Mmltk.Assignment
