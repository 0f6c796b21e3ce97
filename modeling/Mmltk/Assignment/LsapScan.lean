import Mmltk.Assignment.RectangularLsap

namespace Mmltk.Assignment

namespace LsapWorkspace

variable {cost : Nat → Nat → WithTop ℤ} {workspace : LsapWorkspace} {currentMin : ℤ}
  {row column index : Nat} {scan : Scan}

/-! What the scan of the remaining columns finds. -/

@[simp] theorem relax_lowest :
    (workspace.relax cost currentMin row column scan).lowest = scan.lowest := by
  rw [relax]
  split <;> rfl

@[simp] theorem relax_index :
    (workspace.relax cost currentMin row column scan).index = scan.index := by
  rw [relax]
  split <;> rfl

theorem relax_shortest (other : Nat) :
    (workspace.relax cost currentMin row column scan).shortest other =
      if other = column then
        min (scan.shortest column) (workspace.reducedCost cost currentMin row column)
      else scan.shortest other := by
  rw [relax]
  split
  next hless =>
    simp only [Function.update_apply, min_eq_right hless.le]
  next hmore =>
    split
    next hsame => rw [hsame, min_eq_left (not_lt.mp hmore)]
    next => rfl

theorem relax_path (other : Nat) :
    (workspace.relax cost currentMin row column scan).path other =
      if other = column ∧ workspace.reducedCost cost currentMin row column < scan.shortest column then
        some row
      else scan.path other := by
  rw [relax]
  split
  next hless => simp only [Function.update_apply, hless, and_true]
  next hmore => rw [if_neg fun h => hmore h.2]

@[simp] theorem choose_shortest : (workspace.choose column index scan).shortest = scan.shortest := by
  rw [choose]
  split <;> rfl

@[simp] theorem choose_path : (workspace.choose column index scan).path = scan.path := by
  rw [choose]
  split <;> rfl

theorem choose_cases (workspace : LsapWorkspace) (column index : Nat) (scan : Scan) :
    ((workspace.choose column index scan).lowest = scan.shortest column ∧
        (workspace.choose column index scan).index = some index ∧
        scan.shortest column ≤ scan.lowest) ∨
      ((workspace.choose column index scan).lowest = scan.lowest ∧
        (workspace.choose column index scan).index = scan.index ∧
        scan.lowest ≤ scan.shortest column) := by
  rw [choose]
  split
  next hbetter => exact .inl ⟨rfl, rfl, hbetter.elim le_of_lt fun h => h.1.le⟩
  next hworse => exact .inr ⟨rfl, rfl, not_lt.mp fun hless => hworse (.inl hless)⟩

/-- A scan of columns, each of which is relaxed once. -/
structure Scanned (cost : Nat → Nat → WithTop ℤ) (workspace : LsapWorkspace) (currentMin : ℤ)
    (row : Nat) (columns : List Nat) (first : Nat) (before after : Scan) : Prop where
  shortest : ∀ column, after.shortest column =
    if column ∈ columns then
      min (before.shortest column) (workspace.reducedCost cost currentMin row column)
    else before.shortest column
  path : ∀ column, after.path column =
    if column ∈ columns ∧
        workspace.reducedCost cost currentMin row column < before.shortest column then
      some row
    else before.path column
  lowest : after.lowest ≤ before.lowest ∧ ∀ column ∈ columns, after.lowest ≤ after.shortest column
  index : (after.lowest = before.lowest ∧ after.index = before.index) ∨
    ∃ place column, columns[place]? = some column ∧ after.index = some (first + place) ∧
      after.shortest column = after.lowest

theorem scanColumn_shortest (entry : Nat × Nat) (column : Nat) :
    (workspace.scanColumn cost currentMin row scan entry).shortest column =
      if column = entry.1 then
        min (scan.shortest column) (workspace.reducedCost cost currentMin row column)
      else scan.shortest column := by
  rw [scanColumn, choose_shortest, relax_shortest]
  split
  next hsame => rw [hsame]
  next => rfl

theorem scanned (columns : List Nat) (hnodup : columns.Nodup) (first : Nat) (before : Scan) :
    Scanned cost workspace currentMin row columns first before
      ((columns.zipIdx first).foldl (workspace.scanColumn cost currentMin row) before) := by
  induction columns generalizing first before with
  | nil => exact ⟨fun _ => by simp, fun _ => by simp, ⟨le_refl _, nofun⟩, .inl ⟨rfl, rfl⟩⟩
  | cons column rest ih =>
      rw [List.nodup_cons] at hnodup
      rw [List.zipIdx_cons, List.foldl_cons]
      have hrest := ih hnodup.2 (first + 1)
        (workspace.scanColumn cost currentMin row before (column, first))
      have hchosen := choose_cases workspace column first
        (workspace.relax cost currentMin row column before)
      refine ⟨fun other => ?_, fun other => ?_, ⟨?_, fun other hother => ?_⟩, ?_⟩
      · rw [hrest.shortest, scanColumn_shortest]
        by_cases hsame : other = column
        · subst hsame
          simp [hnodup.1]
        · simp [hsame]
      · rw [hrest.path, scanColumn_shortest, scanColumn, choose_path, relax_path]
        by_cases hsame : other = column
        · subst hsame
          simp [hnodup.1]
        · simp [hsame]
      · refine hrest.lowest.1.trans ?_
        rw [scanColumn]
        obtain ⟨hlowest, -, hle⟩ | ⟨hlowest, -, -⟩ := hchosen
        · rw [hlowest]
          simpa using hle
        · simp [hlowest]
      · obtain rfl | hother := List.mem_cons.mp hother
        · have hkept : (((rest.zipIdx (first + 1)).foldl (workspace.scanColumn cost currentMin row)
              (workspace.scanColumn cost currentMin row before (other, first))).shortest other) =
              (workspace.relax cost currentMin row other before).shortest other := by
            rw [hrest.shortest, if_neg hnodup.1, scanColumn, choose_shortest]
          refine hrest.lowest.1.trans ?_
          rw [hkept, scanColumn]
          obtain ⟨hlowest, -, -⟩ | ⟨hlowest, -, hle⟩ := hchosen
          · exact hlowest.le
          · exact hlowest.le.trans hle
        · exact hrest.lowest.2 other hother
      · obtain ⟨hlowest, hindex⟩ | ⟨place, found, hplace, hindex, hfound⟩ := hrest.index
        · rw [scanColumn] at hlowest hindex
          obtain ⟨hcolumn, hthis, -⟩ | ⟨hsame, hkeep, -⟩ := hchosen
          · refine .inr ⟨0, column, rfl, hindex.trans hthis, ?_⟩
            rw [hrest.shortest, if_neg hnodup.1, scanColumn, choose_shortest, hlowest, hcolumn]
          · refine .inl ⟨hlowest.trans (hsame.trans ?_), hindex.trans (hkeep.trans ?_)⟩
            · exact relax_lowest
            · exact relax_index
        · refine .inr ⟨place + 1, found, by simpa using hplace, ?_, hfound⟩
          rw [hindex]
          congr 1
          omega

/-- The last column takes the place of the one that is removed. -/
theorem swapRemove_perm {columns : List Nat} {index column : Nat}
    (hindex : columns[index]? = some column) :
    (column :: swapRemove columns index).Perm columns := by
  obtain rfl | ⟨init, last, rfl⟩ := List.eq_nil_or_concat' columns
  case inl => exact nomatch hindex
  case inr =>
      rw [swapRemove, List.getLastD_concat]
      obtain hlt | hge := Nat.lt_or_ge index init.length
      · rw [List.getElem?_append_left hlt] at hindex
        obtain ⟨_, rfl⟩ := List.getElem?_eq_some_iff.mp hindex
        rw [List.set_append_left _ _ hlt, List.dropLast_concat]
        calc (init[index] :: init.set index last).Perm
              (init[index] :: last :: init.eraseIdx index) :=
                (List.set_perm_cons_eraseIdx hlt last).cons _
          _ |>.Perm (last :: init[index] :: init.eraseIdx index) := .swap ..
          _ |>.Perm (last :: init) := (List.getElem_cons_eraseIdx_perm hlt).cons _
          _ |>.Perm (init ++ [last]) := (List.perm_append_singleton last init).symm
      · obtain ⟨hlast, hcolumn⟩ := List.getElem?_eq_some_iff.mp hindex
        have hsame : index = init.length := by
          rw [List.length_append, List.length_singleton] at hlast
          omega
        subst hsame
        rw [List.getElem_concat_length rfl] at hcolumn
        subst hcolumn
        rw [List.set_append_right _ _ (le_refl _), Nat.sub_self, List.set_cons_zero,
          List.dropLast_concat]
        exact (List.perm_append_singleton _ init).symm

end LsapWorkspace

end Mmltk.Assignment
