import Mmltk.Annotation.StrokeRow

namespace Mmltk.Annotation

open Mmltk.Foundation RowRun

/-! Rows in blocks: what is stored, what a stroke does to it, and that the count is right. -/

variable {blocks : List (Option Block)} {row y x : Nat} {run : RowRun} {runs : List RowRun}

theorem rowRuns_updateRow (update : List RowRun → List RowRun) :
    rowRuns (updateRow blocks row update) y =
      if y = row then update (rowRuns blocks row) else rowRuns blocks y := by
  have hpad : ∀ position : Nat, (blocks ++ List.replicate (row / rowsPerBlock + 1 - blocks.length)
      none)[position]?.join = blocks[position]?.join := by
    intro position
    rw [List.getElem?_append]
    split
    · rfl
    next hpast =>
      rw [List.getElem?_replicate, List.getElem?_eq_none (Nat.not_lt.mp hpast)]
      split
      · rfl
      · rfl
  have hlength : row / rowsPerBlock < (blocks ++ List.replicate (row / rowsPerBlock + 1 -
      blocks.length) none).length := by
    rw [List.length_append, List.length_replicate]
    omega
  simp only [updateRow, ensureBlock, rowRuns, List.set_set]
  rw [List.getElem?_set]
  split
  next hblock =>
    rw [Option.join_some, Option.getD_some, hpad]
    split
    next hsame =>
      rw [hsame, Function.update_self, Option.getD_some]
    next hother =>
      have hposition : rowPosition y ≠ rowPosition row := by
        intro hequal
        have hmod := congrArg Fin.val hequal
        simp only [rowPosition, rowsPerBlock] at hmod hblock
        omega
      rw [Function.update_of_ne hposition, hblock]
  next hblock =>
    have hother : y ≠ row := fun hsame => hblock (by rw [hsame])
    rw [hpad, if_neg hother]

theorem rowRuns_cons (block : Option Block) :
    rowRuns (block :: blocks) y =
      if h : y < rowsPerBlock then ((block.getD fun _ => none) ⟨y, h⟩).getD []
      else rowRuns blocks (y - rowsPerBlock) := by
  unfold rowRuns
  split
  next hfirst =>
    have hposition : rowPosition y = ⟨y, hfirst⟩ := Fin.ext (Nat.mod_eq_of_lt hfirst)
    rw [Nat.div_eq_of_lt hfirst, List.getElem?_cons_zero, hposition]
    cases block with
    | none => rfl
    | some block => rfl
  next hlater =>
    have hle : rowsPerBlock ≤ y := Nat.not_lt.mp hlater
    have hposition : rowPosition y = rowPosition (y - rowsPerBlock) :=
      Fin.ext (Nat.mod_eq_sub_mod hle)
    have hdiv : y / rowsPerBlock = (y - rowsPerBlock) / rowsPerBlock + 1 := by
      simp only [rowsPerBlock] at hle ⊢
      omega
    rw [hdiv, List.getElem?_cons_succ, hposition]

theorem materializedRuns_eq (blocks : List (Option Block)) :
    materializedRuns blocks =
      (List.range (rowsPerBlock * blocks.length)).flatMap (rowRuns blocks) := by
  induction blocks with
  | nil => rfl
  | cons block rest ih =>
      have hsplit : rowsPerBlock * (block :: rest).length =
          rowsPerBlock + rowsPerBlock * rest.length := by
        rw [List.length_cons, Nat.mul_succ, Nat.add_comm]
      have hfirst : (block.map blockRuns).getD [] =
          (List.range rowsPerBlock).flatMap (rowRuns (block :: rest)) := by
        rw [← List.map_coe_finRange_eq_range, List.flatMap_map]
        have hrows : ∀ position : Fin rowsPerBlock, rowRuns (block :: rest) position =
            ((block.getD fun _ => none) position).getD [] := by
          intro position
          rw [rowRuns_cons, dif_pos position.isLt]
        simp only [hrows]
        cases block with
        | none =>
            rw [Option.map_none, Option.getD_none]
            exact (List.flatMap_eq_nil_iff.mpr fun _ _ => rfl).symm
        | some block =>
            rw [Option.map_some, Option.getD_some, blockRuns, List.ofFn_eq_map, List.flatMap_map]
            rfl
      have hrest : ∀ position, rowRuns (block :: rest) (rowsPerBlock + position) =
          rowRuns rest position := by
        intro position
        rw [rowRuns_cons, dif_neg (Nat.not_lt.mpr (Nat.le_add_right ..)), Nat.add_sub_cancel_left]
      rw [materializedRuns, List.flatMap_cons, hsplit, List.range_add, List.flatMap_append,
        List.flatMap_map, ← hfirst]
      simp only [hrest]
      rw [← ih, materializedRuns]

theorem rowRuns_past (hpast : rowsPerBlock * blocks.length ≤ y) : rowRuns blocks y = [] := by
  have hblock : blocks.length ≤ y / rowsPerBlock := by
    simp only [rowsPerBlock] at hpast ⊢
    omega
  rw [rowRuns, List.getElem?_eq_none hblock]
  rfl

/-- How many runs are stored, over any range with all the rows. -/
theorem length_materializedRuns {bound : Nat} (hbound : rowsPerBlock * blocks.length ≤ bound) :
    (materializedRuns blocks).length = ∑ y ∈ Finset.range bound, (rowRuns blocks y).length := by
  obtain ⟨more, rfl⟩ := Nat.exists_eq_add_of_le hbound
  rw [Finset.sum_range_add, Finset.sum_eq_zero (s := Finset.range more) fun y _ => by
    rw [rowRuns_past (Nat.le_add_right ..), List.length_nil], Nat.add_zero, materializedRuns_eq,
    List.length_flatMap]
  exact (Multiset.sum_coe _).symm

variable (blocks row) in
theorem length_updateRow (update : List RowRun → List RowRun) :
    (materializedRuns (updateRow blocks row update)).length + (rowRuns blocks row).length =
      (materializedRuns blocks).length + (update (rowRuns blocks row)).length := by
  obtain ⟨bound, hupdated, hblocks, hrow⟩ : ∃ bound,
      rowsPerBlock * (updateRow blocks row update).length ≤ bound ∧
        rowsPerBlock * blocks.length ≤ bound ∧ row < bound :=
    ⟨rowsPerBlock * (updateRow blocks row update).length + rowsPerBlock * blocks.length + row + 1,
      by omega, by omega, by omega⟩
  have hmem := Finset.mem_range.mpr hrow
  rw [length_materializedRuns hupdated, length_materializedRuns hblocks,
    ← Finset.add_sum_erase _ _ hmem, ← Finset.add_sum_erase _ (fun y => (rowRuns blocks y).length) hmem]
  have hothers : ∀ y ∈ (Finset.range bound).erase row,
      (rowRuns (updateRow blocks row update) y).length = (rowRuns blocks y).length := by
    intro y hy
    rw [rowRuns_updateRow, if_neg (Finset.ne_of_mem_erase hy)]
  rw [Finset.sum_congr rfl hothers, rowRuns_updateRow, if_pos rfl]
  omega

/-! The rows as they should be. -/

/-- The count is that of the stored runs. -/
def Counted (index : MaskIndex) : Prop := index.runCount = (materializedRuns index.blocks).length

/-- Every row holds its own runs, canonically. -/
def RowsKept (blocks : List (Option Block)) : Prop :=
  ∀ y, Canonical (rowRuns blocks y) ∧ ∀ run ∈ rowRuns blocks y, run.row = y

theorem RowsKept.materialized (h : RowsKept blocks) :
    Canonical (materializedRuns blocks) ∧
      ∀ row x, Holds (materializedRuns blocks) row x ↔ Holds (rowRuns blocks row) row x := by
  rw [materializedRuns_eq]
  have hrange : ∀ bound, Canonical ((List.range bound).flatMap (rowRuns blocks)) ∧
      (∀ run ∈ (List.range bound).flatMap (rowRuns blocks), run.row < bound) := by
    intro bound
    induction bound with
    | zero => exact ⟨canonical_nil, fun _ hmem => absurd hmem List.not_mem_nil⟩
    | succ bound ih =>
        obtain ⟨hcanonical, hrows⟩ := ih
        rw [List.range_succ, List.flatMap_append, List.flatMap_singleton]
        refine ⟨canonical_append hcanonical (h bound).1 fun run hrun other hother => .inl ?_,
          fun run hrun => ?_⟩
        · rw [(h bound).2 other hother]
          exact hrows run hrun
        · cases List.mem_append.mp hrun with
          | inl hbefore => exact Nat.lt_succ_of_lt (hrows run hbefore)
          | inr hlast =>
              rw [(h bound).2 run hlast]
              exact Nat.lt_succ_self bound
  refine ⟨(hrange _).1, fun row x => ⟨?_, ?_⟩⟩
  · intro ⟨run, hrun, hcovers⟩
    obtain ⟨y, -, hmem⟩ := List.mem_flatMap.mp hrun
    obtain rfl : y = row := ((h y).2 run hmem).symm.trans hcovers.1
    exact ⟨run, hmem, hcovers⟩
  · intro ⟨run, hrun, hcovers⟩
    refine ⟨run, List.mem_flatMap.mpr ⟨row, List.mem_range.mpr ?_, hrun⟩, hcovers⟩
    by_contra hpast
    rw [rowRuns_past (Nat.not_lt.mp hpast)] at hrun
    exact List.not_mem_nil hrun

/-! A stroke, row by row. -/

variable {index after : MaskIndex} {erase finished : Bool}

theorem length_rowRuns_le (h : Counted index) : (rowRuns index.blocks y).length ≤ index.runCount := by
  have hupdate := length_updateRow index.blocks y fun _ => []
  rw [h]
  simp only [List.length_nil] at hupdate
  omega

variable (erase runs) in
/-- The count is right after every row, also after the one that is too much. -/
theorem strokeRows_counted (h : Counted index) :
    Counted (strokeRows erase index runs).1 := by
  induction index, runs using strokeRows.induct erase with
  | case1 index =>
      rw [strokeRows]
      exact h
  | case2 index run rest stroke existing result count hfull =>
      rw [strokeRows, if_pos hfull]
      have hlength := length_updateRow index.blocks run.row id
      rw [Counted] at h ⊢
      simp only [id_eq] at hlength
      dsimp only
      omega
  | case3 index run rest stroke after existing result count hroom ih =>
      rw [strokeRows, if_neg hroom]
      refine ih ?_
      have hlength := length_updateRow index.blocks run.row fun _ => result
      have hle := length_rowRuns_le (y := run.row) h
      rw [Counted] at h ⊢
      dsimp only [count, existing]
      omega

/-- The pixels of the rows. -/
def rowPixels (blocks : List (Option Block)) : Pixels := fun row x =>
  Holds (rowRuns blocks row) row x

/-- The runs of the first row, and those of later rows. -/
theorem canonical_firstRow {rest : List RowRun} (hruns : Canonical (run :: rest)) :
    let stroke := run :: rest.takeWhile fun other => other.row = run.row
    let after := rest.dropWhile fun other => other.row = run.row
    Canonical stroke ∧ InRow run.row stroke ∧ Canonical after ∧
      (∀ x, ¬ Holds after run.row x) ∧
      ∀ row x, Holds (run :: rest) row x ↔ Holds stroke row x ∨ Holds after row x := by
  obtain ⟨-, hbefore, hrest⟩ := canonical_cons.mp hruns
  have hlow : ∀ other ∈ rest, run.row ≤ other.row := by
    intro other hother
    have hordered := hbefore other hother
    unfold Before at hordered
    omega
  obtain ⟨hlater, -⟩ := dropWhile_rows hrest hlow
  refine ⟨hruns.sublist ((List.takeWhile_sublist _).cons_cons _), fun other hother => ?_,
    hrest.sublist (List.dropWhile_sublist _), fun x hheld => ?_, fun row x => ?_⟩
  · cases List.mem_cons.mp hother with
    | inl hsame => rw [hsame]
    | inr htaken => simpa using List.mem_takeWhile_imp htaken
  · obtain ⟨other, hother, hcovers⟩ := hheld
    have hrow := hlater other hother
    have hsame := hcovers.1
    omega
  · rw [← holds_append, List.cons_append, List.takeWhile_append_dropWhile]

variable (erase) in
/-- A stroke that comes to its end is in every row; one that does not leaves the rows canonical. -/
theorem strokeRows_spec (h : RowsKept index.blocks) (hruns : Canonical runs) :
    RowsKept (strokeRows erase index runs).1.blocks ∧
      ((strokeRows erase index runs).2 = true →
        ∀ row x, rowPixels (strokeRows erase index runs).1.blocks row x ↔
          Stroked erase (Holds runs) (rowPixels index.blocks) row x) := by
  induction index, runs using strokeRows.induct erase with
  | case1 index =>
      rw [strokeRows]
      refine ⟨h, fun _ row x => ?_⟩
      cases erase with
      | true => simp [Stroked]
      | false => simp [Stroked]
  | case2 index run rest stroke existing result count hfull =>
      rw [strokeRows, if_pos hfull]
      refine ⟨fun y => ?_, fun hfinished => absurd hfinished Bool.false_ne_true⟩
      rw [rowRuns_updateRow]
      split
      next hsame => exact hsame ▸ h y
      · exact h y
  | case3 index run rest stroke after existing result count hroom ih =>
      obtain ⟨hstroke, hstrokeRow, hafter, hnone, hsplit⟩ := canonical_firstRow hruns
      obtain ⟨hresult, hresultRow, hresultHolds⟩ :=
        strokeRow_spec erase (h run.row).1 (h run.row).2 hstroke hstrokeRow
      rw [strokeRows, if_neg hroom]
      have hkept : RowsKept (updateRow index.blocks run.row fun _ => result) := by
        intro y
        rw [rowRuns_updateRow]
        split
        next hsame => exact hsame ▸ ⟨hresult, hresultRow⟩
        · exact h y
      obtain ⟨hfinal, hpixels⟩ := ih hkept hafter
      refine ⟨hfinal, fun hfinished row x => (hpixels hfinished row x).trans ?_⟩
      have hrowPixels : rowPixels (updateRow index.blocks run.row fun _ => result) row x ↔
          if row = run.row then Stroked erase (Holds stroke) (rowPixels index.blocks) row x
          else rowPixels index.blocks row x := by
        rw [rowPixels, rowRuns_updateRow]
        split
        next hsame =>
          subst hsame
          exact hresultHolds run.row x
        · rfl
      have hinRow : Holds stroke row x → row = run.row := by
        rintro ⟨other, hother, hcovers⟩
        exact hcovers.1.symm.trans (hstrokeRow other hother)
      have hother : row = run.row → ¬ Holds after row x := fun hsame => hsame ▸ hnone x
      have hboth : Holds (run :: rest) row x ↔ Holds stroke row x ∨ Holds after row x :=
        hsplit row x
      unfold Stroked at hrowPixels ⊢
      rw [hrowPixels, hboth]
      generalize Holds stroke row x = inFirst at hinRow ⊢
      generalize Holds after row x = inLater at hother ⊢
      rcases eq_or_ne row run.row with hsame | hne
      · have habsent := hother hsame
        cases erase with
        | true => simp [hsame, habsent]
        | false => simp [hsame, habsent]
      · have habsent : ¬ inFirst := fun hheld => hne (hinRow hheld)
        simp [hne, habsent]

/-! All operations. -/

/-- Nothing is stored in cleared blocks, whoever else holds them. -/
theorem rowRuns_cleared (sharing : Sharing) :
    rowRuns (blocks.mapIdx fun position block => block.map (clearBlock sharing position)) y = [] := by
  rw [rowRuns, List.getElem?_mapIdx]
  cases blocks[y / rowsPerBlock]? with
  | none => rfl
  | some block =>
      cases block with
      | none => rfl
      | some block =>
          rw [Option.map_some, Option.map_some, Option.join_some, Option.getD_some, clearBlock]
          split
          · dsimp only
            cases block (rowPosition y) with
            | none => rfl
            | some row =>
                rw [Option.bind_some]
                split
                · rfl
                · rfl
          · rfl

theorem pushRuns_spec (h : Counted index) (runs : List RowRun) :
    let pushed := runs.foldl (fun index run =>
      { blocks := updateRow index.blocks run.row fun row => row ++ [run]
        runCount := index.runCount + 1 }) index
    Counted pushed ∧ ∀ y, rowRuns pushed.blocks y =
      rowRuns index.blocks y ++ runs.filter fun run => run.row = y := by
  induction runs generalizing index with
  | nil => exact ⟨h, fun y => (List.append_nil _).symm⟩
  | cons run rest ih =>
      have hcounted : Counted ⟨updateRow index.blocks run.row fun row => row ++ [run],
          index.runCount + 1⟩ := by
        have hlength := length_updateRow index.blocks run.row
          fun row => row ++ [run]
        rw [Counted] at h ⊢
        rw [List.length_append, List.length_singleton] at hlength
        dsimp only
        omega
      obtain ⟨hpushed, hrows⟩ := ih hcounted
      refine ⟨hpushed, fun y => (hrows y).trans ?_⟩
      rw [rowRuns_updateRow]
      split
      next hsame =>
        rw [hsame, List.filter_cons_of_pos (by simp), List.append_assoc]
        rfl
      next hother => rw [List.filter_cons_of_neg (by simpa using Ne.symm hother)]

theorem assign_spec (sharing : Sharing) (object : AnnotationObject) (rows : MaskRows) :
    ∃ index, rows.assign sharing object = some index ∧ Counted index ∧
      ∀ y, rowRuns index.blocks y = object.mask.runs.filter fun run => run.row = y := by
  have hcleared : ∀ blocks : List (Option Block), Counted
      ⟨blocks.mapIdx fun position block => block.map (clearBlock sharing position), 0⟩ := by
    intro blocks
    rw [Counted, length_materializedRuns (Nat.le_refl _)]
    refine (Finset.sum_eq_zero fun y _ => ?_).symm
    rw [rowRuns_cleared, List.length_nil]
  refine ⟨_, rfl, ?_⟩
  obtain ⟨hcounted, hrows⟩ := pushRuns_spec (hcleared _) object.mask.runs
  refine ⟨hcounted, fun y => (hrows y).trans ?_⟩
  rw [rowRuns_cleared, List.nil_append]

/-- A canonical mask is in its rows as it is, and nothing else. -/
theorem assign_canonical (sharing : Sharing) {object : AnnotationObject} (rows : MaskRows)
    (h : Canonical object.mask.runs) :
    ∃ index, rows.assign sharing object = some index ∧ Counted index ∧ RowsKept index.blocks ∧
      materializedRuns index.blocks = object.mask.runs := by
  obtain ⟨index, hindex, hcounted, hrows⟩ := assign_spec sharing object rows
  have hkept : RowsKept index.blocks := by
    intro y
    rw [hrows]
    exact ⟨h.sublist List.filter_sublist, fun run hrun =>
      of_decide_eq_true (List.mem_filter.mp hrun).2⟩
  obtain ⟨hcanonical, hholds⟩ := hkept.materialized
  refine ⟨index, hindex, hcounted, hkept, canonical_ext hcanonical h fun row x => ?_⟩
  rw [hholds, hrows]
  constructor
  · intro ⟨run, hrun, hcovers⟩
    exact ⟨run, (List.mem_filter.mp hrun).1, hcovers⟩
  · intro ⟨run, hrun, hcovers⟩
    exact ⟨run, List.mem_filter.mpr ⟨hrun, decide_eq_true hcovers.1⟩, hcovers⟩

/-- What holds of the rows after any operations on canonical masks, also after one that threw. -/
def MaskRows.Kept (rows : MaskRows) : Prop :=
  ∀ index, rows = some index → Counted index ∧ RowsKept index.blocks

/-- The pixels that `materialize` would give. -/
def MaskRows.pixels (rows : MaskRows) : Pixels :=
  Holds ((rows.map fun index => materializedRuns index.blocks).getD [])

variable (erase) in
theorem stroke_spec {rows : MaskRows} {steps : List (List RowRun)} (h : rows.Kept)
    (hsteps : ∀ step ∈ steps, Valid step) :
    (rows.stroke erase steps).1.Kept ∧ ((rows.stroke erase steps).2 = true →
      (rows.stroke erase steps).1.pixels = Stroked erase (Holds steps.flatten) rows.pixels) := by
  cases hgather : gather [] steps with
  | none =>
      rw [MaskRows.stroke, hgather]
      exact ⟨h, fun hfinished => absurd hfinished Bool.false_ne_true⟩
  | some stroke =>
      obtain ⟨hcanonical, hholds⟩ :=
        gather_spec (fun _ hmem => absurd hmem List.not_mem_nil) hsteps hgather
      have hpixels : Holds stroke = Holds steps.flatten := by
        refine pixels_ext fun row x => ((hholds row x).trans (or_iff_right holds_nil)).trans ?_
        simp only [Holds, List.mem_flatten]
        constructor
        · rintro ⟨step, hstep, run, hrun, hcovers⟩
          exact ⟨run, ⟨step, hstep, hrun⟩, hcovers⟩
        · rintro ⟨run, ⟨step, hstep, hrun⟩, hcovers⟩
          exact ⟨step, hstep, run, hrun, hcovers⟩
      rw [← hpixels]
      cases stroke with
      | nil =>
          rw [MaskRows.stroke, hgather]
          refine ⟨h, fun _ => pixels_ext fun row x => ?_⟩
          cases erase with
          | true => simp [Stroked]
          | false => simp [Stroked]
      | cons run rest =>
          have hempty : Counted ⟨[], 0⟩ ∧ RowsKept [] :=
            ⟨rfl, fun _ => ⟨canonical_nil, fun _ hmem => absurd hmem List.not_mem_nil⟩⟩
          obtain ⟨hcounted, hkept⟩ : Counted (rows.getD ⟨[], 0⟩) ∧
              RowsKept (rows.getD ⟨[], 0⟩).blocks := by
            cases rows with
            | none => exact hempty
            | some index => exact h index rfl
          have hold : rows.pixels = rowPixels (rows.getD ⟨[], 0⟩).blocks := by
            cases rows with
            | none => exact pixels_ext fun row x => Iff.rfl
            | some index => exact pixels_ext (h index rfl).2.materialized.2
          obtain ⟨hstroked, hfinal⟩ := strokeRows_spec erase hkept hcanonical
          have hcount := strokeRows_counted (run :: rest) erase hcounted
          rw [MaskRows.stroke, hgather]
          refine ⟨fun index hindex => ?_, fun hfinished => pixels_ext fun row x => ?_⟩
          · obtain rfl := Option.some.inj hindex
            exact ⟨hcount, hstroked⟩
          · rw [hold]
            exact (hstroked.materialized.2 row x).trans (hfinal hfinished row x)

/-- States of a gesture's rows: canonical masks are assigned, strokes end or throw. -/
inductive MaskRows.Reached : MaskRows → Prop
  | null : Reached none
  | assign {rows : MaskRows} (h : Reached rows) (sharing : Sharing) (object : AnnotationObject)
      (hcanonical : Canonical object.mask.runs) : Reached (rows.assign sharing object)
  | stroke {rows : MaskRows} (h : Reached rows) (erase : Bool) (steps : List (List RowRun))
      (hsteps : ∀ step ∈ steps, Valid step) : Reached (rows.stroke erase steps).1

theorem MaskRows.Reached.kept {rows : MaskRows} (h : rows.Reached) : rows.Kept := by
  induction h with
  | null => exact fun index hindex => nomatch hindex
  | @assign rows _ sharing object hcanonical _ =>
      obtain ⟨index, hindex, hcounted, hkept, -⟩ := assign_canonical sharing rows hcanonical
      intro other hother
      obtain rfl := Option.some.inj (hindex.symm.trans hother)
      exact ⟨hcounted, hkept⟩
  | stroke _ erase steps hsteps ih => exact (stroke_spec _ ih hsteps).1

end Mmltk.Annotation
