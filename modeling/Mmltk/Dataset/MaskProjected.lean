import Mmltk.Dataset.MaskPending

namespace Mmltk.Dataset

open Mmltk.Foundation MaskRunEmitter

namespace RowMajorMaskProjection

variable {input : MaskProjectionInput} {target : MaskDimensions} {existing : List RLEPair}
  {maximum position row first last : Nat} {processed : Nat → Prop}
  {projection next : RowMajorMaskProjection}

/-! A part of a row. -/

namespace Resting

variable (h : Resting input target existing maximum processed position projection)

include h

theorem take (haccepted : Accepted input target) (hpending : row = projection.pendingRow)
    (hposition : position ≤ row * input.sourceDimensions.width + first) (hlt : first < last)
    (hlast : last ≤ input.sourceDimensions.width) :
    ∃ taken, projection.partialRow input row first last = (true, taken) ∧
      SameWork projection taken ∧
      Resting input target existing maximum
        (fun index => processed index ∨ row * input.sourceDimensions.width + first ≤ index ∧
          index < row * input.sourceDimensions.width + last)
        (row * input.sourceDimensions.width + last) taken := by
  subst hpending
  have hmono : ∀ {bound other}, bound ≤ other →
      inverseColumn input bound + input.geometry.offsetX ≤
        inverseColumn input other + input.geometry.offsetX := fun hle =>
    Nat.add_le_add_right (inverseMaskCoordinate_mono haccepted.sourceWidth hle) _
  have hright : inverseColumn input last + input.geometry.offsetX ≤ target.width :=
    (Nat.add_le_add_right inverseMaskCoordinate_le _).trans haccepted.columns
  have hbefore : ∀ interval ∈ projection.intervals,
      interval.2 ≤ inverseColumn input first + input.geometry.offsetX := h.ends first hposition
  obtain ⟨own, covered, limit, hemitted, hsame, hlimit⟩ := h.emitted
  have hpart : ∀ pixel, SlabPixels target.width
      (inverseRow input projection.pendingRow + input.geometry.offsetY)
      (inverseRow input (projection.pendingRow + 1) + input.geometry.offsetY)
      [(inverseColumn input first + input.geometry.offsetX,
        inverseColumn input last + input.geometry.offsetX)] pixel ↔
      Projected input target (fun index =>
        projection.pendingRow * input.sourceDimensions.width + first ≤ index ∧
          index < projection.pendingRow * input.sourceDimensions.width + last) pixel := by
    intro pixel
    refine (slabPixels_sampled haccepted.sourceWidth haccepted.sourceHeight ..).trans ?_
    exact sampled_congr fun index => (rowPart_iff haccepted.sourceWidth hlast).symm
  have hrowPosition : position / input.sourceDimensions.width ≤ projection.pendingRow := by
    refine Nat.lt_succ_iff.mp ((Nat.div_lt_iff_lt_mul haccepted.sourceWidth).mpr ?_)
    rw [Nat.succ_mul]
    omega
  refine ⟨_, if_neg (not_not.mpr rfl), ⟨rfl, rfl, rfl, rfl, rfl, rfl, rfl, rfl⟩, h.unfinished,
    h.inactive, ⟨own, covered, limit, hemitted, fun pixel => ?_, hlimit.trans ?_⟩, ?_,
    fun _ => by dsimp only; omega, fun column hcolumn interval hmem => ?_⟩
  · rw [Projected, sampled_or, ← Projected, ← hsame, ← Projected, ← hpart, or_assoc]
    refine or_congr_right ?_
    rw [Pending, Pending]
    dsimp only
    split
    next hdiffer => exact slabPixels_addInterval h.inWidth (hmono hlt.le)
    next hequal =>
      -- no target column has its nearest source column in the part
      rw [not_not] at hequal
      refine (or_iff_left ?_).symm
      rintro ⟨row, -, -, hpixel⟩
      obtain ⟨hge, hless⟩ := (rowPixels_cons.mp hpixel).resolve_right not_rowPixels_nil
      dsimp only at hge hless
      omega
  · refine Nat.mul_le_mul_right _ (Nat.add_le_add_right ?_ _)
    refine inverseMaskCoordinate_mono haccepted.sourceHeight ?_
    have hlater : projection.pendingRow ≤
        (projection.pendingRow * input.sourceDimensions.width + last) /
          input.sourceDimensions.width :=
      (Nat.le_div_iff_mul_le haccepted.sourceWidth).mpr (Nat.le_add_right ..)
    have heither : ∀ (condition : Prop) [Decidable condition], projection.pendingRow ≤
        if condition then (projection.pendingRow * input.sourceDimensions.width + last) /
          input.sourceDimensions.width else projection.pendingRow := fun condition _ => by
      split
      · exact hlater
      · exact le_refl _
    refine le_trans (b := projection.pendingRow) ?_ (heither _)
    split
    · exact hrowPosition
    · exact le_refl _
  · dsimp only
    split
    next => exact inWidth_addInterval h.inWidth (hmono hlt.le) hright hbefore
    next => exact h.inWidth
  · dsimp only at hcolumn hmem
    have hcolumnLast : last ≤ column := by omega
    split at hmem
    next =>
      obtain hold | hnew := mem_addInterval hmem
      · exact h.ends column (by omega) interval hold
      · rw [hnew]
        exact hmono hcolumnLast
    next => exact h.ends column (by omega) interval hmem

/-- The pending row is flushed before a later one is taken. -/
theorem turn (haccepted : Accepted input target) (hpending : row ≠ projection.pendingRow)
    (hposition : position ≤ row * input.sourceDimensions.width + first)
    (hfirst : first < input.sourceDimensions.width) :
    ∃ waiting turned, projection.partialRow input row first last = (false, waiting) ∧
      Reaches input waiting turned ∧ SameWork projection turned ∧ turned.pendingRow = row ∧
      Resting input target existing maximum processed
        (row * input.sourceDimensions.width + first) turned := by
  have hwidth : 0 < target.width := by
    have hcolumns := haccepted.columns
    have hresized := haccepted.resizedWidth
    omega
  have hrow : if projection.intervals = [] then position / input.sourceDimensions.width ≤ row
      else projection.pendingRow + 1 ≤ row := by
    split
    next =>
      refine Nat.lt_succ_iff.mp ((Nat.div_lt_iff_lt_mul haccepted.sourceWidth).mpr ?_)
      rw [Nat.succ_mul]
      omega
    next hsome =>
      have hstarted := h.started hsome
      have hless : projection.pendingRow * input.sourceDimensions.width <
          (row + 1) * input.sourceDimensions.width := by
        rw [Nat.succ_mul]
        omega
      have hle := Nat.lt_of_mul_lt_mul_right hless
      omega
  have hwaiting : ({ projection.flush input with pendingRow := row } :
      RowMajorMaskProjection).emitter = projection.emitter := rfl
  obtain ⟨emitter, slab, own, hreaches, hemitted⟩ :=
    h.flush haccepted hwidth hrow hwaiting rfl rfl rfl h.unfinished
  refine ⟨_, _, if_pos hpending, hreaches, ⟨rfl, rfl, rfl, rfl, rfl, rfl, rfl, rfl⟩, rfl,
    h.unfinished, rfl, ⟨own, _, _, hemitted, fun pixel => or_iff_left not_slabPixels_nil, ?_⟩,
    ⟨nofun, .nil⟩, fun hsome => absurd rfl hsome, fun _ _ => nofun⟩
  refine Nat.mul_le_mul_right _ (Nat.add_le_add_right ?_ _)
  rw [if_pos rfl, Nat.add_comm, Nat.add_mul_div_right _ _ haccepted.sourceWidth,
    Nat.div_eq_of_lt hfirst, Nat.zero_add]

end Resting

theorem SameWork.trans {middle : RowMajorMaskProjection} (h : SameWork projection middle)
    (hnext : SameWork middle next) : SameWork projection next where
  cursor := hnext.cursor.trans h.cursor
  source := hnext.source.trans h.source
  previousEnd := hnext.previousEnd.trans h.previousEnd
  remaining := hnext.remaining.trans h.remaining
  row := hnext.row.trans h.row
  x := hnext.x.trans h.x
  rows := hnext.rows.trans h.rows
  stage := hnext.stage.trans h.stage

/-- A stage that takes a part of a row, after at most one flush. -/
theorem Resting.part (h : Resting input target existing maximum processed position projection)
    (haccepted : Accepted input target) (row first last : Nat)
    (goOn : RowMajorMaskProjection → RowMajorMaskProjection)
    (hadvance : ∀ state, SameWork projection state → state.slabActive = false →
      state.advance input = .ok (if (state.partialRow input row first last).1 then
        goOn (state.partialRow input row first last).2
        else (state.partialRow input row first last).2))
    (hposition : position ≤ row * input.sourceDimensions.width + first) (hlt : first < last)
    (hlast : last ≤ input.sourceDimensions.width) :
    ∃ taken, Reaches input projection (goOn taken) ∧ SameWork projection taken ∧
      Resting input target existing maximum
        (fun index => processed index ∨ row * input.sourceDimensions.width + first ≤ index ∧
          index < row * input.sourceDimensions.width + last)
        (row * input.sourceDimensions.width + last) taken := by
  have hself : SameWork projection projection := ⟨rfl, rfl, rfl, rfl, rfl, rfl, rfl, rfl⟩
  by_cases hpending : row = projection.pendingRow
  · obtain ⟨taken, htaken, hsame, hresting⟩ := h.take haccepted hpending hposition hlt hlast
    refine ⟨taken, .advance h.unfinished ?_, hsame, hresting⟩
    rw [hadvance projection hself h.inactive, htaken]
    rfl
  · obtain ⟨waiting, turned, hwaiting, hreaches, hsame, hturned, hresting⟩ :=
      h.turn haccepted hpending hposition (hlt.trans_le hlast)
    obtain ⟨taken, htaken, hsameTaken, hfinal⟩ :=
      hresting.take haccepted hturned.symm (le_refl _) hlt hlast
    have hfirst : Reaches input projection waiting := by
      refine .advance h.unfinished ?_
      rw [hadvance projection hself h.inactive, hwaiting]
      rfl
    have hsecond : Reaches input turned (goOn taken) := by
      refine .advance hresting.unfinished ?_
      rw [hadvance turned hsame hresting.inactive, htaken]
      rfl
    exact ⟨taken, (hfirst.trans hreaches).trans hsecond, hsame.trans hsameTaken, hfinal⟩

/-! The stages of a run. -/

section Stages

variable (hinactive : projection.slabActive = false)

include hinactive

theorem advance_source (hstage : projection.stage = .source) :
    projection.advance input = projection.advanceSource input := by
  simp only [advance, hinactive, hstage, Bool.false_eq_true, if_false]

theorem advance_head (hstage : projection.stage = .head) :
    projection.advance input = .ok (projection.advanceHead input) := by
  simp only [advance, hinactive, hstage, Bool.false_eq_true, if_false]

theorem advance_full (hstage : projection.stage = .full) :
    projection.advance input = .ok (projection.advanceFull input) := by
  simp only [advance, hinactive, hstage, Bool.false_eq_true, if_false]

theorem advance_fullSlab (hstage : projection.stage = .fullSlab) :
    projection.advance input = .ok (projection.advanceFullSlab input) := by
  simp only [advance, hinactive, hstage, Bool.false_eq_true, if_false]

theorem advance_tail (hstage : projection.stage = .tail) :
    projection.advance input = .ok (projection.advanceTail input) := by
  simp only [advance, hinactive, hstage, Bool.false_eq_true, if_false]

end Stages

/-- Between two runs. -/
structure BetweenRuns (input : MaskProjectionInput) (target : MaskDimensions)
    (existing : List RLEPair) (maximum cursor : Nat) (processed : Nat → Prop)
    (projection : RowMajorMaskProjection) : Prop where
  resting : Resting input target existing maximum processed projection.previousEnd projection
  stage : projection.stage = .source
  cursorEq : projection.cursor = cursor
  source : TightBounds input.sourceDimensions.width processed projection.source

/-- Inside a run, of which the rest starts a row. -/
structure WithinRun (input : MaskProjectionInput) (target : MaskDimensions)
    (existing : List RLEPair) (maximum : Nat) (stage : Stage) (processed : Nat → Prop)
    (start position : Nat) (projection : RowMajorMaskProjection) : Prop where
  resting : Resting input target existing maximum
    (fun index => processed index ∨ start ≤ index ∧ index < position) position projection
  stageEq : projection.stage = stage
  started : start ≤ position
  ends : position + projection.remaining = projection.previousEnd
  aligned : projection.remaining ≠ 0 →
    position = projection.row * input.sourceDimensions.width

/-- The run is the same. -/
structure SameRun (projection next : RowMajorMaskProjection) : Prop where
  cursor : next.cursor = projection.cursor
  source : next.source = projection.source
  previousEnd : next.previousEnd = projection.previousEnd

theorem SameRun.trans {middle : RowMajorMaskProjection} (h : SameRun projection middle)
    (hnext : SameRun middle next) : SameRun projection next :=
  ⟨hnext.cursor.trans h.cursor, hnext.source.trans h.source,
    hnext.previousEnd.trans h.previousEnd⟩

/-- The part of the first row, unless the run starts it. -/
theorem reaches_head {start : Nat} (haccepted : Accepted input target)
    (h : Resting input target existing maximum processed start projection)
    (hstage : projection.stage = .head)
    (hrow : projection.row = start / input.sourceDimensions.width)
    (hx : projection.x = start % input.sourceDimensions.width)
    (hends : start + projection.remaining = projection.previousEnd)
    (hlength : projection.remaining ≠ 0) :
    ∃ next position, Reaches input projection next ∧ SameRun projection next ∧
      WithinRun input target existing maximum .full processed start position next := by
  have hparts := Nat.div_add_mod' start input.sourceDimensions.width
  rw [← hrow, ← hx] at hparts
  have hmod := Nat.mod_lt start haccepted.sourceWidth
  rw [← hx] at hmod
  by_cases hzero : projection.x = 0
  · refine ⟨{ projection with stage := .full }, start, .advance h.unfinished ?_, ⟨rfl, rfl, rfl⟩,
      (h.congr fun index => ?_).of_same rfl rfl rfl h.unfinished h.inactive, rfl, le_refl _, hends,
      fun _ => ?_⟩
    · rw [advance_head h.inactive hstage, advanceHead, if_pos hzero]
    · exact (or_iff_left (by omega)).symm
    · dsimp only
      omega
  · obtain ⟨taken, hreaches, hsame, hresting⟩ := h.part haccepted projection.row projection.x
      (projection.x + min projection.remaining (input.sourceDimensions.width - projection.x))
      (fun next => { next with
        remaining := next.remaining - min projection.remaining
          (input.sourceDimensions.width - projection.x)
        row := next.row + 1
        stage := .full })
      (fun state hsame hinactive => by
        rw [advance_head hinactive (hsame.stage.trans hstage), advanceHead, hsame.x, if_neg hzero,
          hsame.remaining, hsame.row])
      (by omega) (by omega) (by omega)
    refine ⟨_, start + min projection.remaining (input.sourceDimensions.width - projection.x),
      hreaches, ⟨hsame.cursor, hsame.source, hsame.previousEnd⟩, ?_, rfl, Nat.le_add_right ..,
      ?_, fun hleft => ?_⟩
    · have hposition : projection.row * input.sourceDimensions.width + (projection.x +
          min projection.remaining (input.sourceDimensions.width - projection.x)) =
          start + min projection.remaining (input.sourceDimensions.width - projection.x) := by
        omega
      rw [hparts, hposition] at hresting
      exact hresting.of_same rfl rfl rfl hresting.unfinished hresting.inactive
    · dsimp only
      rw [hsame.remaining, hsame.previousEnd]
      omega
    · dsimp only at hleft ⊢
      rw [hsame.remaining] at hleft
      rw [hsame.row, Nat.succ_mul]
      omega

/-- The full rows come as one slab, of the whole content width. -/
theorem reaches_fullSlab {before : RowMajorMaskProjection} {emitter : MaskRunEmitter}
    {own : List RLEPair} {rows remaining : Nat} (haccepted : Accepted input target)
    (hbefore : Reaches input before projection) (hsame : SameRun before projection) (hinactive : projection.slabActive = false)
    (hfinished : projection.finished = false) (hstage : projection.stage = .fullSlab)
    (hintervals : projection.intervals = []) (hrows : projection.rows = rows)
    (hrow : projection.row = row) (hremaining : projection.remaining = remaining)
    (hemitter : projection.emitter = emitter)
    (h : Emitted existing target.width maximum own (Projected input target processed)
      ((inverseRow input row + input.geometry.offsetY) * target.width) emitter) :
    ∃ next, Reaches input before next ∧ SameRun before next ∧ next.stage = .tail ∧
      next.row = row + rows ∧
      next.remaining = remaining % input.sourceDimensions.width ∧
      Resting input target existing maximum
        (fun index => processed index ∨ row * input.sourceDimensions.width ≤ index ∧
          index < (row + rows) * input.sourceDimensions.width)
        ((row + rows) * input.sourceDimensions.width) next := by
  subst hrows hrow hremaining hemitter
  have hcolumns := haccepted.columns
  have hwidth : 0 < target.width := by
    have hresized := haccepted.resizedWidth
    omega
  have hlater : inverseRow input projection.row + input.geometry.offsetY ≤
      inverseRow input (projection.row + projection.rows) + input.geometry.offsetY :=
    Nat.add_le_add_right
      (inverseMaskCoordinate_mono haccepted.sourceHeight (Nat.le_add_right ..)) _
  have hstop : inverseRow input (projection.row + projection.rows) + input.geometry.offsetY ≤
      target.height :=
    (Nat.add_le_add_right inverseMaskCoordinate_le _).trans haccepted.rows
  have hready : SlabReady target.width
      ((inverseRow input projection.row + input.geometry.offsetY) * target.width)
      ((inverseRow input (projection.row + projection.rows) + input.geometry.offsetY) *
        target.width) (projection.advanceFullSlab input).slab := by
    refine ⟨⟨fun interval hmem => ?_, List.pairwise_singleton ..⟩, hlater, fun _ => Nat.one_pos,
      fun _ interval hinterval => Nat.le_add_right .., Nat.mul_le_mul_right _ hlater,
      fun _ _ => le_refl _, fun _ _ => ?_⟩
    · rw [List.mem_singleton.mp hmem, haccepted.full]
      dsimp only
      omega
    · exact (Nat.mul_le_mul_right _ hstop).trans_lt (Nat.mul_comm .. ▸ haccepted.count)
  have hstart : (projection.advanceFullSlab input).slabActive = true := rfl
  obtain ⟨emitter, slab, final, hreaches, hfinal⟩ := reaches_slab hstart hfinished h hwidth
    target.widthFits hready
  have hadvance : Reaches input projection (projection.advanceFullSlab input) :=
    .advance hfinished (advance_fullSlab hinactive hstage)
  refine ⟨_, (hbefore.trans hadvance).trans hreaches,
    hsame.trans ⟨rfl, rfl, rfl⟩, rfl, rfl, rfl,
    hfinished, rfl, ⟨final, _, _, hfinal, fun pixel => ?_, ?_⟩, ?_, fun hsome => absurd hintervals hsome, fun _ _ interval hmem => ?_⟩
  · have hnone : ¬ Pending input target (projection.advanceFullSlab input) pixel := by
      rw [Pending]
      change ¬ SlabPixels _ _ _ projection.intervals pixel
      rw [hintervals]
      exact not_slabPixels_nil
    have hfull : input.full =
        (inverseMaskCoordinate 0 input.sourceDimensions.width input.geometry.resizedWidth +
          input.geometry.offsetX,
        inverseMaskCoordinate input.sourceDimensions.width input.sourceDimensions.width
          input.geometry.resizedWidth + input.geometry.offsetX) := by
      rw [haccepted.full, inverseMaskCoordinate_zero,
        inverseMaskCoordinate_full haccepted.sourceWidth (le_refl _), Nat.zero_add, Nat.add_comm]
    refine (or_iff_left hnone).trans ?_
    rw [Projected, Projected, sampled_or]
    refine or_congr_right (slabRest_start.trans ?_)
    rw [hfull]
    refine (slabPixels_sampled haccepted.sourceWidth haccepted.sourceHeight ..).trans ?_
    refine sampled_congr fun index => ?_
    have hmod := Nat.mod_lt index haccepted.sourceWidth
    rw [and_iff_left ⟨Nat.zero_le _, hmod⟩, Nat.le_div_iff_mul_le haccepted.sourceWidth,
      Nat.div_lt_iff_lt_mul haccepted.sourceWidth]
  · refine Nat.mul_le_mul_right _ (Nat.add_le_add_right ?_ _)
    refine inverseMaskCoordinate_mono haccepted.sourceHeight ?_
    change _ ≤ if projection.intervals = [] then _ else _
    rw [if_pos hintervals, Nat.mul_div_cancel _ haccepted.sourceWidth]
  · change InWidth target.width projection.intervals
    rw [hintervals]
    exact ⟨(by intros; contradiction), .nil⟩
  · change interval ∈ projection.intervals at hmem
    rw [hintervals] at hmem
    cases hmem

theorem reaches_full {start position : Nat} (haccepted : Accepted input target)
    (h : WithinRun input target existing maximum .full processed start position projection) :
    ∃ next position, Reaches input projection next ∧ SameRun projection next ∧
      WithinRun input target existing maximum .tail processed start position next ∧
      next.remaining < input.sourceDimensions.width := by
  have hresting := h.resting
  have hmod := Nat.mod_lt projection.remaining haccepted.sourceWidth
  have hparts := Nat.div_add_mod' projection.remaining input.sourceDimensions.width
  by_cases hrows : projection.remaining / input.sourceDimensions.width = 0
  · refine ⟨{ projection with
      rows := projection.remaining / input.sourceDimensions.width
      stage := .tail }, position, .advance hresting.unfinished ?_, ⟨rfl, rfl, rfl⟩,
      ⟨hresting.of_same rfl rfl rfl hresting.unfinished hresting.inactive, rfl, h.started, h.ends,
        h.aligned⟩, ?_⟩
    · rw [advance_full hresting.inactive h.stageEq, advanceFull, if_neg (not_not.mpr hrows)]
    · rw [hrows] at hparts
      dsimp only
      omega
  · have hposition : position = projection.row * input.sourceDimensions.width :=
      h.aligned fun hzero => hrows (by rw [hzero, Nat.zero_div])
    have hflush : if projection.intervals = [] then
        position / input.sourceDimensions.width ≤ projection.row
        else projection.pendingRow + 1 ≤ projection.row := by
      split
      next => rw [hposition, Nat.mul_div_cancel _ haccepted.sourceWidth]
      next hsome =>
        have hstarted := hresting.started hsome
        rw [hposition] at hstarted
        exact Nat.lt_of_mul_lt_mul_right hstarted
    have hwidth : 0 < target.width := by
      have hcolumns := haccepted.columns
      have hresized := haccepted.resizedWidth
      omega
    have hwaiting : ({ ({ projection with
        rows := projection.remaining / input.sourceDimensions.width } :
          RowMajorMaskProjection).flush input with stage := .fullSlab } :
        RowMajorMaskProjection).emitter = projection.emitter := rfl
    obtain ⟨emitter, slab, own, hflushed, hemitted⟩ := hresting.flush haccepted hwidth hflush
      hwaiting rfl rfl rfl hresting.unfinished
    have hfirst : Reaches input projection (projection.advanceFull input) :=
      .advance hresting.unfinished (advance_full hresting.inactive h.stageEq)
    rw [advanceFull, if_pos hrows] at hfirst
    obtain ⟨next, hreaches, hsame, hstage, hrow, hremaining, hfinal⟩ :=
      reaches_fullSlab haccepted (hfirst.trans hflushed) ⟨rfl, rfl, rfl⟩ rfl hresting.unfinished
        rfl rfl (show _ = projection.remaining / input.sourceDimensions.width from rfl)
        (show _ = projection.row from rfl) (show _ = projection.remaining from rfl) rfl hemitted
    refine ⟨next, _, hreaches, hsame, ⟨hfinal.congr fun index => ?_, hstage, ?_, ?_, fun _ => ?_⟩, ?_⟩
    · rw [or_assoc, ← hposition]
      refine or_congr_right ?_
      have hstarted := h.started
      rw [Nat.add_mul, ← hposition]
      omega
    · have hstarted := h.started
      rw [Nat.add_mul, ← hposition]
      omega
    · have hends := h.ends
      rw [hremaining, hsame.previousEnd, Nat.add_mul, ← hposition]
      omega
    · rw [hrow]
    · rw [hremaining]
      exact hmod

theorem reaches_tail {start position : Nat} (haccepted : Accepted input target)
    (h : WithinRun input target existing maximum .tail processed start position projection)
    (hshort : projection.remaining < input.sourceDimensions.width) :
    ∃ next, Reaches input projection next ∧ SameRun projection next ∧ next.stage = .source ∧
      Resting input target existing maximum
        (fun index => processed index ∨ start ≤ index ∧ index < projection.previousEnd)
        projection.previousEnd next := by
  have hresting := h.resting
  have hends := h.ends
  by_cases hzero : projection.remaining = 0
  · refine ⟨{ projection with stage := .source }, .advance hresting.unfinished ?_, ⟨rfl, rfl, rfl⟩,
      rfl, ?_⟩
    · rw [advance_tail hresting.inactive h.stageEq, advanceTail, if_pos hzero]
    · have hposition : position = projection.previousEnd := by omega
      rw [hposition] at hresting
      exact hresting.of_same rfl rfl rfl hresting.unfinished hresting.inactive
  · have hposition := h.aligned hzero
    obtain ⟨taken, hreaches, hsame, hfinal⟩ := hresting.part haccepted projection.row 0
      projection.remaining (fun next => { next with stage := .source })
      (fun state hsame hinactive => by
        rw [advance_tail hinactive (hsame.stage.trans h.stageEq), advanceTail, hsame.remaining,
          if_neg hzero, hsame.row])
      (by omega) (by omega) hshort.le
    refine ⟨_, hreaches, ⟨hsame.cursor, hsame.source, hsame.previousEnd⟩, rfl, ?_⟩
    have hstop : projection.row * input.sourceDimensions.width + projection.remaining =
        projection.previousEnd := by omega
    rw [hstop] at hfinal
    refine (hfinal.congr fun index => ?_).of_same rfl rfl rfl hfinal.unfinished hfinal.inactive
    have hstarted := h.started
    rw [or_assoc]
    refine or_congr_right ?_
    omega

theorem includes_source {run : RLEPair} {bounds : RowMajorMaskBounds}
    (haccepted : Accepted input target)
    (h : TightBounds input.sourceDimensions.width processed bounds) (hlength : run.length ≠ 0)
    (hstop : run.start + run.length ≤ input.pixels) :
    ∃ joined, includeRowMajorMaskRun bounds run.start (run.start + run.length)
        input.sourceDimensions.width = .ok joined ∧
      TightBounds input.sourceDimensions.width
        (fun index => processed index ∨ run.start ≤ index ∧ index < run.start + run.length)
        joined := by
  have hlt : run.start < run.start + run.length := by omega
  have hrows : (run.start + run.length - 1) / input.sourceDimensions.width < 2 ^ 32 := by
    rw [haccepted.pixels] at hstop
    have hdiv : (run.start + run.length - 1) / input.sourceDimensions.width <
        input.sourceDimensions.height := Nat.div_lt_of_lt_mul (by omega)
    exact hdiv.trans input.sourceDimensions.heightFits
  exact ⟨_, includeRowMajorMaskRun_ok h haccepted.sourceWidth input.sourceDimensions.widthFits hlt
    hrows, h.join (runBox_tight haccepted.sourceWidth hlt) rfl⟩

/-- The run that is taken up next. -/
def takeRun (input : MaskProjectionInput) (projection : RowMajorMaskProjection) (run : RLEPair)
    (bounds : RowMajorMaskBounds) : RowMajorMaskProjection :=
  { projection with
    cursor := projection.cursor + 1
    previousEnd := run.start + run.length
    source := bounds
    row := run.start / input.sourceDimensions.width
    x := run.start % input.sourceDimensions.width
    remaining := run.length
    stage := .head }

/-- A run that comes after the ones before it is projected whole. -/
theorem reaches_run {cursor : Nat} {run : RLEPair} (haccepted : Accepted input target)
    (hidentity : input.identity = false)
    (h : BetweenRuns input target existing maximum cursor processed projection)
    (hrun : input.pairs[cursor]? = some run) (hlength : run.length ≠ 0)
    (hstart : projection.previousEnd ≤ run.start) (hstop : run.start + run.length ≤ input.pixels) :
    ∃ next, Reaches input projection next ∧
      next.previousEnd = run.start + run.length ∧
      BetweenRuns input target existing maximum (cursor + 1)
        (fun index => processed index ∨ run.start ≤ index ∧ index < run.start + run.length) next := by
  have hresting := h.resting
  obtain ⟨joined, hjoined, htight⟩ := includes_source haccepted h.source hlength hstop
  have htaken : projection.advance input = .ok (takeRun input projection run joined) := by
    rw [advance_source hresting.inactive h.stage, advanceSource, h.cursorEq, hrun]
    dsimp only
    rw [if_neg (by omega), hjoined, hidentity]
    rw [← h.cursorEq]
    rfl
  have hhead : Resting input target existing maximum processed run.start
      (takeRun input projection run joined) :=
    (hresting.mono haccepted hstart).of_same rfl rfl rfl hresting.unfinished hresting.inactive
  obtain ⟨full, first, hreachesFull, hsameFull, hfull⟩ :=
    reaches_head haccepted hhead rfl rfl rfl rfl hlength
  obtain ⟨tail, second, hreachesTail, hsameTail, htail, hshort⟩ := reaches_full haccepted hfull
  obtain ⟨next, hreachesNext, hsameNext, hstage, hnext⟩ := reaches_tail haccepted htail hshort
  have hsame := (hsameFull.trans hsameTail).trans hsameNext
  have hend : tail.previousEnd = run.start + run.length :=
    (hsameFull.trans hsameTail).previousEnd
  rw [hend] at hnext
  refine ⟨next, (((Reaches.advance hresting.unfinished htaken).trans hreachesFull).trans
    hreachesTail).trans hreachesNext, hsame.previousEnd, ?_, hstage,
    hsame.cursor.trans (congrArg (· + 1) h.cursorEq), ?_⟩
  · rw [hsame.previousEnd]
    exact hnext
  · rw [hsame.source]
    exact htight

end RowMajorMaskProjection

end Mmltk.Dataset
