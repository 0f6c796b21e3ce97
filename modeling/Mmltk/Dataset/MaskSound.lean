import Mmltk.Dataset.MaskProjected

namespace Mmltk.Dataset

open Mmltk.Foundation MaskRunEmitter

/-- Runs of a canvas: positive, in order and inside it. -/
structure ValidRuns (pixels : Nat) (pairs : List RLEPair) : Prop where
  positive : ∀ run ∈ pairs, run.length ≠ 0
  inside : ∀ run ∈ pairs, run.start + run.length ≤ pixels
  ordered : pairs.Pairwise fun earlier later => earlier.start + earlier.length ≤ later.start

/-- The pixels of the runs. -/
abbrev Foreground (pairs : List RLEPair) : Nat → Prop := Covered (pairs.map RLEPair.interval)

namespace RowMajorMaskProjection

variable {input : MaskProjectionInput} {source target : MaskDimensions}
  {geometry : ImageResizeGeometry} {existing pairs : List RLEPair} {maximum : Nat}
  {processed : Nat → Prop} {projection start next : RowMajorMaskProjection}

/-! All runs. -/

theorem foreground_cons {run : RLEPair} {rest : List RLEPair} {index : Nat} :
    Foreground (run :: rest) index ↔
      (run.start ≤ index ∧ index < run.start + run.length) ∨ Foreground rest index := by
  rw [Foreground, List.map_cons, covered_cons]
  rfl

theorem reaches_runs (Between : Nat → (Nat → Prop) → RowMajorMaskProjection → Prop)
    (hstep : ∀ {cursor processed projection run}, Between cursor processed projection →
      input.pairs[cursor]? = some run → run.length ≠ 0 → projection.previousEnd ≤ run.start →
      run.start + run.length ≤ input.pixels →
      ∃ next, Reaches input projection next ∧ next.previousEnd = run.start + run.length ∧
        Between (cursor + 1)
          (fun index => processed index ∨ run.start ≤ index ∧ index < run.start + run.length) next)
    (taken rest : List RLEPair) (hpairs : input.pairs = taken ++ rest)
    (hvalid : ValidRuns input.pixels rest)
    (hlater : ∀ run ∈ rest, projection.previousEnd ≤ run.start)
    (h : Between taken.length processed projection) :
    ∃ next, Reaches input projection next ∧
      Between input.pairs.length (fun index => processed index ∨ Foreground rest index) next := by
  induction rest generalizing taken processed projection with
  | nil =>
      rw [List.append_nil] at hpairs
      have hnothing : (fun index => processed index ∨ Foreground [] index) = processed :=
        funext fun index => propext (or_iff_left covered_nil)
      rw [hpairs, hnothing]
      exact ⟨projection, .refl projection, h⟩
  | cons run rest ih =>
      have hrun : input.pairs[taken.length]? = some run := by
        rw [hpairs, List.getElem?_append_right (le_refl _), Nat.sub_self]
        rfl
      obtain ⟨hfirst, hordered⟩ := List.pairwise_cons.mp hvalid.ordered
      obtain ⟨middle, hreaches, hend, hmiddle⟩ := hstep h hrun
        (hvalid.positive run List.mem_cons_self) (hlater run List.mem_cons_self)
        (hvalid.inside run List.mem_cons_self)
      have hlength : (taken ++ [run]).length = taken.length + 1 := by
        rw [List.length_append, List.length_singleton]
      obtain ⟨next, hrest, hfinal⟩ := ih (taken ++ [run])
        (hpairs.trans (List.append_cons taken run rest))
        ⟨fun other hother => hvalid.positive other (List.mem_cons_of_mem _ hother),
          fun other hother => hvalid.inside other (List.mem_cons_of_mem _ hother), hordered⟩
        (fun other hother => hend ▸ hfirst other hother) (hlength ▸ hmiddle)
      have hjoin : (fun index => processed index ∨ Foreground (run :: rest) index) = fun index =>
          (processed index ∨ run.start ≤ index ∧ index < run.start + run.length) ∨
            Foreground rest index :=
        funext fun index => propext (by rw [foreground_cons, or_assoc])
      rw [hjoin]
      exact ⟨next, hreaches.trans hrest, hfinal⟩

/-- All that is left is the check of the capacity. -/
structure Ending (input : MaskProjectionInput) (target : MaskDimensions) (existing : List RLEPair)
    (maximum : Nat) (own : List RLEPair) (projection : RowMajorMaskProjection) : Prop where
  unfinished : projection.finished = false
  inactive : projection.slabActive = false
  stage : projection.stage = .finish
  emitted : ∃ limit, Emitted existing target.width maximum own
    (Projected input target (Foreground input.pairs)) limit projection.emitter
  source : TightBounds input.sourceDimensions.width (Foreground input.pairs) projection.source

theorem reaches_ending (haccepted : Accepted input target) (hidentity : input.identity = false)
    (h : BetweenRuns input target existing maximum input.pairs.length (Foreground input.pairs)
      projection) :
    ∃ next own, Reaches input projection next ∧ Ending input target existing maximum own next := by
  have hresting := h.resting
  have hwidth : 0 < target.width := by
    have hcolumns := haccepted.columns
    have hresized := haccepted.resizedWidth
    omega
  have hflushing : Reaches input projection { projection with stage := .finalFlush } := by
    refine .advance hresting.unfinished ?_
    rw [advance_source hresting.inactive h.stage, advanceSource, h.cursorEq,
      List.getElem?_eq_none (le_refl _)]
  have hflush : Reaches input { projection with stage := .finalFlush }
      { projection.flush input with stage := .finish } := by
    refine .advance hresting.unfinished ?_
    simp only [advance, hresting.inactive, Bool.false_eq_true, if_false, hidentity]
    rfl
  have hrow : if projection.intervals = [] then
      projection.previousEnd / input.sourceDimensions.width ≤
        max (projection.previousEnd / input.sourceDimensions.width) (projection.pendingRow + 1)
      else projection.pendingRow + 1 ≤
        max (projection.previousEnd / input.sourceDimensions.width) (projection.pendingRow + 1) := by
    split
    · exact Nat.le_max_left ..
    · exact Nat.le_max_right ..
  have hwaiting : ({ projection.flush input with stage := .finish } :
      RowMajorMaskProjection).emitter = projection.emitter := rfl
  obtain ⟨emitter, slab, own, hreaches, hemitted⟩ := hresting.flush haccepted hwidth hrow hwaiting
    rfl rfl rfl hresting.unfinished
  exact ⟨_, own, (hflushing.trans hflush).trans hreaches, hresting.unfinished, rfl, rfl,
    ⟨_, hemitted⟩, h.source⟩

/-! The identity, which copies the runs. -/

/-- The target is the source. -/
structure IsIdentity (input : MaskProjectionInput) (target : MaskDimensions) : Prop where
  width : target.width = input.sourceDimensions.width
  height : target.height = input.sourceDimensions.height
  resizedWidth : input.geometry.resizedWidth = input.sourceDimensions.width
  resizedHeight : input.geometry.resizedHeight = input.sourceDimensions.height
  offsetX : input.geometry.offsetX = 0
  offsetY : input.geometry.offsetY = 0

structure Copying (input : MaskProjectionInput) (target : MaskDimensions) (existing : List RLEPair)
    (maximum cursor : Nat) (processed : Nat → Prop) (projection : RowMajorMaskProjection) :
    Prop where
  unfinished : projection.finished = false
  inactive : projection.slabActive = false
  stage : projection.stage = .source
  cursorEq : projection.cursor = cursor
  source : TightBounds input.sourceDimensions.width processed projection.source
  emitted : ∃ own, Emitted existing target.width maximum own processed projection.previousEnd
    projection.emitter

theorem reaches_copy {cursor : Nat} {run : RLEPair} (haccepted : Accepted input target)
    (hidentity : input.identity = true) (hsame : IsIdentity input target)
    (h : Copying input target existing maximum cursor processed projection)
    (hrun : input.pairs[cursor]? = some run) (hlength : run.length ≠ 0)
    (hstart : projection.previousEnd ≤ run.start) (hstop : run.start + run.length ≤ input.pixels) :
    ∃ next, Reaches input projection next ∧ next.previousEnd = run.start + run.length ∧
      Copying input target existing maximum (cursor + 1)
        (fun index => processed index ∨ run.start ≤ index ∧ index < run.start + run.length) next := by
  obtain ⟨joined, hjoined, htight⟩ := includes_source haccepted h.source hlength hstop
  obtain ⟨own, hemitted⟩ := h.emitted
  have hcount := haccepted.count
  rw [hsame.width, hsame.height, ← haccepted.pixels] at hcount
  obtain ⟨more, emitter, hemitter, hfinal⟩ := hemitted.run (hsame.width ▸ haccepted.sourceWidth)
    target.widthFits hstart (Nat.le_add_right ..) (hstop.trans_lt hcount)
  refine ⟨{ projection with
      cursor := projection.cursor + 1
      previousEnd := run.start + run.length
      source := joined
      emitter := emitter }, .advance h.unfinished ?_, rfl, h.unfinished, h.inactive, h.stage,
    congrArg (· + 1) h.cursorEq, htight, more, hfinal⟩
  rw [advance_source h.inactive h.stage, advanceSource, h.cursorEq, hrun]
  dsimp only
  rw [if_neg (by omega), hjoined, hidentity, ← h.cursorEq]
  simp only [bind, Except.bind, hemitter, if_true]
  rfl

theorem nearestSource_self {index extent : Nat} (hindex : index < extent) :
    nearestSource index extent extent = index := by
  rw [nearestSource, Nat.mul_div_mul_right _ _ (by omega)]
  omega

theorem projected_identity (haccepted : Accepted input target) (hsame : IsIdentity input target)
    (hinside : ∀ index, processed index → index < input.pixels) {pixel : Nat} :
    Projected input target processed pixel ↔ processed pixel := by
  have hnearest : ∀ column row, column < input.sourceDimensions.width →
      row < input.sourceDimensions.height →
      nearestSource row input.sourceDimensions.height input.geometry.resizedHeight *
          input.sourceDimensions.width +
        nearestSource column input.sourceDimensions.width input.geometry.resizedWidth =
        row * input.sourceDimensions.width + column := fun column row hcolumn hrow => by
    rw [hsame.resizedWidth, hsame.resizedHeight, nearestSource_self hcolumn,
      nearestSource_self hrow]
  constructor
  · rintro ⟨column, row, hcolumn, hrow, rfl, hprocessed⟩
    rw [hsame.resizedWidth] at hcolumn
    rw [hsame.resizedHeight] at hrow
    rw [hnearest column row hcolumn hrow] at hprocessed
    rwa [hsame.offsetX, hsame.offsetY, hsame.width]
  · intro hprocessed
    have hpixel := hinside pixel hprocessed
    rw [haccepted.pixels] at hpixel
    have hcolumn := Nat.mod_lt pixel haccepted.sourceWidth
    have hrow : pixel / input.sourceDimensions.width < input.sourceDimensions.height :=
      Nat.div_lt_of_lt_mul hpixel
    have hparts := Nat.div_add_mod' pixel input.sourceDimensions.width
    refine ⟨pixel % input.sourceDimensions.width, pixel / input.sourceDimensions.width,
      hsame.resizedWidth ▸ hcolumn, hsame.resizedHeight ▸ hrow, ?_, ?_⟩
    · rw [hsame.offsetX, hsame.offsetY, hsame.width]
      exact hparts.symm
    · rwa [hnearest _ _ hcolumn hrow, hparts]

theorem foreground_inside {pixels : Nat} (hvalid : ValidRuns pixels pairs) {index : Nat}
    (h : Foreground pairs index) : index < pixels := by
  obtain ⟨interval, hmem, hin⟩ := h
  obtain ⟨run, hrun, rfl⟩ := List.mem_map.mp hmem
  exact hin.2.trans_le (hvalid.inside run hrun)

theorem reaches_copied (haccepted : Accepted input target) (hidentity : input.identity = true)
    (hsame : IsIdentity input target) (hvalid : ValidRuns input.pixels input.pairs)
    (h : Copying input target existing maximum input.pairs.length (Foreground input.pairs)
      projection) :
    ∃ next own, Reaches input projection next ∧ Ending input target existing maximum own next := by
  have hlast : Reaches input projection { projection with stage := .finalFlush } := by
    refine .advance h.unfinished ?_
    rw [advance_source h.inactive h.stage, advanceSource, h.cursorEq,
      List.getElem?_eq_none (le_refl _)]
  have hfinish : Reaches input { projection with stage := .finalFlush }
      { projection with stage := .finish } := by
    refine .advance h.unfinished ?_
    simp only [advance, h.inactive, Bool.false_eq_true, if_false, hidentity, if_true]
  obtain ⟨own, hemitted⟩ := h.emitted
  exact ⟨_, own, hlast.trans hfinish, h.unfinished, h.inactive, rfl,
    ⟨_, hemitted.congr fun pixel => (projected_identity haccepted hsame
      fun index => foreground_inside hvalid).symm⟩, h.source⟩

/-! From the start to the end. -/

/-- What the constructor starts from, for a mask with runs. -/
structure Fresh (target : MaskDimensions) (existing : List RLEPair) (maximum : Nat)
    (projection : RowMajorMaskProjection) : Prop where
  unfinished : projection.finished = false
  inactive : projection.slabActive = false
  failed : projection.failed = false
  stage : projection.stage = .source
  cursorEq : projection.cursor = 0
  previousEnd : projection.previousEnd = 0
  intervals : projection.intervals = []
  source : projection.source = {}
  emitter : projection.emitter = .create existing existing.length target.width
    "mask run start overflow" "mask run length overflow" maximum

theorem reaches_end (haccepted : Accepted input target) (hvalid : ValidRuns input.pixels input.pairs)
    (hidentity : input.identity = true → IsIdentity input target)
    (h : Fresh target existing maximum start) :
    ∃ next own, Reaches input start next ∧ Ending input target existing maximum own next := by
  have hemitted : Emitted existing target.width maximum [] (fun _ => False) 0 start.emitter :=
    h.emitter ▸ create_emitted ..
  have hbounds : TightBounds input.sourceDimensions.width (fun _ => False) start.source :=
    h.source ▸ .nothing
  have hlater : ∀ run ∈ input.pairs, start.previousEnd ≤ run.start := fun run _ =>
    h.previousEnd ▸ Nat.zero_le _
  have hall : (fun index => False ∨ Foreground input.pairs index) = Foreground input.pairs :=
    funext fun index => propext (or_iff_right not_false)
  cases hmode : input.identity with
  | false =>
      have hbetween : BetweenRuns input target existing maximum 0 (fun _ => False) start := by
        refine ⟨⟨h.unfinished, h.inactive, ⟨[], _, 0, hemitted, fun pixel => ?_, Nat.zero_le _⟩,
          ?_, fun hsome => absurd h.intervals hsome, fun _ _ interval hmem => ?_⟩, h.stage,
          h.cursorEq, hbounds⟩
        · rw [Pending, h.intervals]
          refine iff_of_false (fun hor => hor.elim id not_slabPixels_nil) ?_
          rintro ⟨column, row, -, -, -, hfalse⟩
          exact hfalse
        · rw [h.intervals]
          exact ⟨(by intros; contradiction), .nil⟩
        · rw [h.intervals] at hmem
          cases hmem
      obtain ⟨middle, hreaches, hmiddle⟩ := reaches_runs
        (BetweenRuns input target existing maximum)
        (fun hbetween hrun => reaches_run haccepted hmode hbetween hrun) [] input.pairs rfl hvalid
        hlater hbetween
      rw [hall] at hmiddle
      obtain ⟨next, own, hrest, hending⟩ := reaches_ending haccepted hmode hmiddle
      exact ⟨next, own, hreaches.trans hrest, hending⟩
  | true =>
      have hcopying : Copying input target existing maximum 0 (fun _ => False) start :=
        ⟨h.unfinished, h.inactive, h.stage, h.cursorEq, hbounds, [], h.previousEnd ▸ hemitted⟩
      obtain ⟨middle, hreaches, hmiddle⟩ := reaches_runs (Copying input target existing maximum)
        (fun hcopying hrun => reaches_copy haccepted hmode (hidentity hmode) hcopying hrun) []
        input.pairs rfl hvalid hlater hcopying
      rw [hall] at hmiddle
      obtain ⟨next, own, hrest, hending⟩ :=
        reaches_copied haccepted hmode (hidentity hmode) hvalid hmiddle
      exact ⟨next, own, hreaches.trans hrest, hending⟩

end RowMajorMaskProjection

end Mmltk.Dataset
