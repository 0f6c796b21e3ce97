import Mathlib.Algebra.Order.BigOperators.Group.List
import Mathlib.Algebra.Order.Group.Defs
import Mathlib.Data.Finset.Card
import Mathlib.Tactic.Abel

namespace Mmltk.Foundation

/-! Assignments of rows to columns, and the duals that bound their totals. -/

structure IsAssignment (rows cols : Nat) (pairs : List (Nat × Nat)) : Prop where
  rowsIn : ∀ pair ∈ pairs, pair.1 < rows
  colsIn : ∀ pair ∈ pairs, pair.2 < cols
  rowsOnce : (pairs.map Prod.fst).Nodup
  colsOnce : (pairs.map Prod.snd).Nodup
  full : pairs.length = min rows cols

def Allows (allowed : Nat → Nat → Prop) (pairs : List (Nat × Nat)) : Prop :=
  ∀ pair ∈ pairs, allowed pair.1 pair.2

variable {G : Type} [AddCommGroup G] [LinearOrder G] [IsOrderedAddMonoid G]

def total (value : Nat → Nat → G) (pairs : List (Nat × Nat)) : G :=
  (pairs.map fun pair => value pair.1 pair.2).sum

variable {rows cols : Nat} {pairs other : List (Nat × Nat)} {allowed : Nat → Nat → Prop}
  {value : Nat → Nat → G} {u v : Nat → G}

namespace IsAssignment

theorem swap (h : IsAssignment rows cols pairs) : IsAssignment cols rows (pairs.map Prod.swap) where
  rowsIn := by
    intro pair hpair
    obtain ⟨before, hbefore, rfl⟩ := List.mem_map.mp hpair
    exact h.colsIn before hbefore
  colsIn := by
    intro pair hpair
    obtain ⟨before, hbefore, rfl⟩ := List.mem_map.mp hpair
    exact h.rowsIn before hbefore
  rowsOnce := by
    rw [List.map_map]
    exact h.colsOnce
  colsOnce := by
    rw [List.map_map]
    exact h.rowsOnce
  full := by rw [List.length_map, h.full, Nat.min_comm]

theorem of_perm (h : IsAssignment rows cols pairs) (hperm : pairs.Perm other) :
    IsAssignment rows cols other where
  rowsIn := fun pair hpair => h.rowsIn pair (hperm.mem_iff.mpr hpair)
  colsIn := fun pair hpair => h.colsIn pair (hperm.mem_iff.mpr hpair)
  rowsOnce := (hperm.map Prod.fst).nodup_iff.mp h.rowsOnce
  colsOnce := (hperm.map Prod.snd).nodup_iff.mp h.colsOnce
  full := hperm.length_eq ▸ h.full

theorem rows_perm (h : IsAssignment rows cols pairs) (hle : rows ≤ cols) :
    (pairs.map Prod.fst).Perm (List.range rows) := by
  have hsub : (pairs.map Prod.fst).Subperm (List.range rows) :=
    List.subperm_of_subset h.rowsOnce fun row hrow => by
      obtain ⟨pair, hpair, rfl⟩ := List.mem_map.mp hrow
      exact List.mem_range.mpr (h.rowsIn pair hpair)
  refine hsub.perm_of_length_le ?_
  rw [List.length_map, List.length_range, h.full, Nat.min_eq_left hle]

theorem cols_perm (h : IsAssignment rows cols pairs) :
    ∃ rest, (List.range cols).Perm (pairs.map Prod.snd ++ rest) ∧
      ∀ column ∈ rest, column < cols ∧ column ∉ pairs.map Prod.snd := by
  have hsub : (pairs.map Prod.snd).Subperm (List.range cols) :=
    List.subperm_of_subset h.colsOnce fun column hcolumn => by
      obtain ⟨pair, hpair, rfl⟩ := List.mem_map.mp hcolumn
      exact List.mem_range.mpr (h.colsIn pair hpair)
  obtain ⟨chosen, hchosen, hsublist⟩ := hsub
  obtain ⟨rest, hrest⟩ := hsublist.exists_perm_append
  have hperm := hrest.trans (hchosen.append_right rest)
  have hnodup : (pairs.map Prod.snd ++ rest).Nodup := hperm.nodup_iff.mp List.nodup_range
  refine ⟨rest, hperm, fun column hcolumn => ⟨?_, fun hused => ?_⟩⟩
  · exact List.mem_range.mp (hperm.mem_iff.mpr (List.mem_append_right _ hcolumn))
  · exact List.disjoint_of_nodup_append hnodup hused hcolumn

omit [LinearOrder G] [IsOrderedAddMonoid G] in
theorem total_duals (pairs : List (Nat × Nat)) (u v : Nat → G) :
    total (fun row column => u row + v column) pairs =
      ((pairs.map Prod.fst).map u).sum + ((pairs.map Prod.snd).map v).sum := by
  induction pairs with
  | nil => simp [total]
  | cons pair rest ih =>
      simp only [total, List.map_cons, List.sum_cons] at ih ⊢
      rw [ih]
      abel

/-- Duals below the costs, those of columns not positive, bound the total of every assignment. -/
theorem duals_le (h : IsAssignment rows cols pairs) (hle : rows ≤ cols)
    (hallowed : Allows allowed pairs)
    (hfeasible : ∀ row < rows, ∀ column < cols, allowed row column →
      u row + v column ≤ value row column)
    (hnonpos : ∀ column < cols, v column ≤ 0) :
    ((List.range rows).map u).sum + ((List.range cols).map v).sum ≤ total value pairs := by
  obtain ⟨rest, hperm, hrest⟩ := h.cols_perm
  have htotal : total (fun row column => u row + v column) pairs ≤ total value pairs :=
    List.sum_le_sum fun pair hpair => hfeasible pair.1 (h.rowsIn pair hpair) pair.2
      (h.colsIn pair hpair) (hallowed pair hpair)
  have hunused : (rest.map v).sum ≤ 0 := by
    have hbound := List.sum_le_card_nsmul (rest.map v) 0 fun dual hdual => by
      obtain ⟨column, hcolumn, rfl⟩ := List.mem_map.mp hdual
      exact hnonpos column (hrest column hcolumn).1
    rwa [nsmul_zero] at hbound
  rw [total_duals] at htotal
  rw [← ((h.rows_perm hle).map u).sum_eq, (hperm.map v).sum_eq, List.map_append, List.sum_append]
  calc _ ≤ ((pairs.map Prod.fst).map u).sum + (((pairs.map Prod.snd).map v).sum + 0) := by gcongr
    _ ≤ total value pairs := by rwa [add_zero]

omit [LinearOrder G] [IsOrderedAddMonoid G] in
/-- An assignment that meets the duals has their sum as its total. -/
theorem duals_eq (h : IsAssignment rows cols pairs) (hle : rows ≤ cols)
    (htight : ∀ pair ∈ pairs, u pair.1 + v pair.2 = value pair.1 pair.2)
    (hunused : ∀ column < cols, column ∉ pairs.map Prod.snd → v column = 0) :
    total value pairs = ((List.range rows).map u).sum + ((List.range cols).map v).sum := by
  obtain ⟨rest, hperm, hrest⟩ := h.cols_perm
  have htotal : total value pairs = total (fun row column => u row + v column) pairs :=
    congrArg List.sum (List.map_congr_left fun pair hpair => (htight pair hpair).symm)
  have hzero : (rest.map v).sum = 0 := by
    refine List.sum_eq_zero fun dual hdual => ?_
    obtain ⟨column, hcolumn, rfl⟩ := List.mem_map.mp hdual
    exact hunused column (hrest column hcolumn).1 (hrest column hcolumn).2
  rw [htotal, total_duals, ← ((h.rows_perm hle).map u).sum_eq, (hperm.map v).sum_eq,
    List.map_append, List.sum_append, hzero, add_zero]

/-- Rows that share fewer columns cannot all be assigned. -/
theorem blocked (h : IsAssignment rows cols pairs) (hle : rows ≤ cols)
    (hallowed : Allows allowed pairs) {rowSet columnSet : Finset Nat}
    (hrows : ∀ row ∈ rowSet, row < rows)
    (hcolumns : ∀ row ∈ rowSet, ∀ column < cols, allowed row column → column ∈ columnSet) :
    rowSet.card ≤ columnSet.card := by
  have hpair : ∀ row ∈ rowSet, ∃ column, (row, column) ∈ pairs := fun row hrow => by
    have hmem := (h.rows_perm hle).mem_iff.mpr (List.mem_range.mpr (hrows row hrow))
    obtain ⟨pair, hpair, rfl⟩ := List.mem_map.mp hmem
    exact ⟨pair.2, hpair⟩
  choose! column hcolumn using hpair
  refine Finset.card_le_card_of_injOn column (fun row hrow => ?_) fun row hrow other hother hsame => ?_
  · exact hcolumns row hrow _ (h.colsIn _ (hcolumn row hrow)) (hallowed _ (hcolumn row hrow))
  · have hequal := List.inj_on_of_nodup_map h.colsOnce (hcolumn row hrow) (hcolumn other hother) hsame
    exact congrArg Prod.fst hequal

end IsAssignment

end Mmltk.Foundation
