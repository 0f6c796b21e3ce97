import Mmltk.Dataset.MaskSampling

namespace Mmltk.Dataset

open Mmltk.Foundation MaskRunEmitter

namespace RowMajorMaskProjection

variable {input : MaskProjectionInput} {projection next middle : RowMajorMaskProjection}

/-! Runs of the state machine. -/

/-- The loop gets from one state to the other. -/
def Reaches (input : MaskProjectionInput) (projection next : RowMajorMaskProjection) : Prop :=
  ∃ count, projection.stepLoop input count = .ok next

theorem stepLoop_add (first second : Nat) (projection : RowMajorMaskProjection) :
    projection.stepLoop input (first + second) =
      (projection.stepLoop input first).bind (stepLoop input second) := by
  induction first generalizing projection with
  | zero =>
      rw [Nat.zero_add]
      rfl
  | succ first ih =>
      rw [Nat.succ_add, stepLoop, stepLoop]
      split
      next hfinished =>
        cases second with
        | zero => rfl
        | succ second =>
            change _ = stepLoop input (second + 1) projection
            rw [stepLoop, if_pos hfinished]
      next =>
        split
        · exact ih _
        · rfl

theorem Reaches.refl (projection : RowMajorMaskProjection) : Reaches input projection projection :=
  ⟨0, rfl⟩

theorem Reaches.trans (h : Reaches input projection middle) (hnext : Reaches input middle next) :
    Reaches input projection next := by
  obtain ⟨first, hfirst⟩ := h
  obtain ⟨second, hsecond⟩ := hnext
  refine ⟨first + second, ?_⟩
  rw [stepLoop_add, hfirst]
  exact hsecond

theorem Reaches.advance (hfinished : projection.finished = false)
    (h : projection.advance input = .ok next) : Reaches input projection next := by
  refine ⟨1, ?_⟩
  rw [stepLoop, if_neg (by simp [hfinished]), h]
  rfl

/-! The slab that is under way. -/

variable {existing own : List RLEPair} {width maximum limit bound : Nat} {pixels : Nat → Prop}

theorem reaches_slab (hactive : projection.slabActive = true)
    (hfinished : projection.finished = false)
    (h : Emitted existing width maximum own pixels limit projection.emitter) (hwidth : 0 < width)
    (hfits : width < 2 ^ 32) (hready : SlabReady width limit bound projection.slab) :
    ∃ emitter slab own, Reaches input projection
        { projection with
          emitter := emitter
          slab := slab
          slabActive := false
          intervals := if projection.clearIntervals then [] else projection.intervals } ∧
      Emitted existing width maximum own
        (fun pixel => pixels pixel ∨ SlabRest width projection.slab pixel) bound emitter := by
  induction hleft : projection.slab.left using Nat.strong_induction_on
    generalizing projection own pixels limit with
  | _ left ih =>
      obtain ⟨done, emitted, slab, more, after, hstep, hnext, hdone, hmore, others, hemitted, hsame⟩ :=
        h.stepSlab hwidth hfits hready
      have hadvance : projection.advance input = .ok (if done then
          { projection with
            emitter := emitted
            slab := slab
            slabActive := false
            intervals := if projection.clearIntervals then [] else projection.intervals }
          else { projection with emitter := emitted, slab := slab }) := by
        rw [RowMajorMaskProjection.advance, if_pos hactive, advanceSlab, hstep]
        rfl
      cases done with
      | true =>
          refine ⟨emitted, slab, more, .advance hfinished hadvance, ?_⟩
          refine (hemitted.mono hnext.limitLe).congr fun pixel => ?_
          rw [← hsame, or_iff_left (hdone rfl pixel)]
      | false =>
          have hstepped : ({ projection with emitter := emitted, slab := slab } :
              RowMajorMaskProjection).slabActive = true := hactive
          obtain ⟨emitter, last, final, hreaches, hfinal⟩ :=
            ih slab.left (hleft ▸ hmore rfl) hstepped hfinished hemitted hnext rfl
          exact ⟨emitter, last, final, (Reaches.advance hfinished hadvance).trans hreaches,
            hfinal.congr hsame⟩

/-! The row that is pending. -/

/-- What the constructor accepts, for a source and a target with pixels. -/
structure Accepted (input : MaskProjectionInput) (target : MaskDimensions) : Prop where
  sourceWidth : 0 < input.sourceDimensions.width
  sourceHeight : 0 < input.sourceDimensions.height
  pixels : input.pixels = input.sourceDimensions.width * input.sourceDimensions.height
  resizedWidth : 0 < input.geometry.resizedWidth
  columns : input.geometry.resizedWidth + input.geometry.offsetX ≤ target.width
  rows : input.geometry.resizedHeight + input.geometry.offsetY ≤ target.height
  count : target.width * target.height < 2 ^ 32
  full : input.full =
    (input.geometry.offsetX, input.geometry.offsetX + input.geometry.resizedWidth)

/-- The target pixels of source pixels. -/
abbrev Projected (input : MaskProjectionInput) (target : MaskDimensions)
    (foreground : Nat → Prop) : Nat → Prop :=
  Sampled input.sourceDimensions input.geometry target.width foreground

/-- The pixels of the row that is pending. -/
def Pending (input : MaskProjectionInput) (target : MaskDimensions)
    (projection : RowMajorMaskProjection) : Nat → Prop :=
  SlabPixels target.width (inverseRow input projection.pendingRow + input.geometry.offsetY)
    (inverseRow input (projection.pendingRow + 1) + input.geometry.offsetY) projection.intervals

/-- Up to a source position everything is emitted, or pending. -/
structure Resting (input : MaskProjectionInput) (target : MaskDimensions) (existing : List RLEPair)
    (maximum : Nat) (processed : Nat → Prop) (position : Nat) (projection : RowMajorMaskProjection) :
    Prop where
  unfinished : projection.finished = false
  inactive : projection.slabActive = false
  emitted : ∃ own covered limit,
    Emitted existing target.width maximum own covered limit projection.emitter ∧
    (∀ pixel, covered pixel ∨ Pending input target projection pixel ↔
      Projected input target processed pixel) ∧
    limit ≤ (inverseRow input (if projection.intervals = [] then
        position / input.sourceDimensions.width else projection.pendingRow) +
      input.geometry.offsetY) * target.width
  inWidth : InWidth target.width projection.intervals
  started : projection.intervals ≠ [] →
    projection.pendingRow * input.sourceDimensions.width < position
  ends : ∀ column, position ≤ projection.pendingRow * input.sourceDimensions.width + column →
    ∀ interval ∈ projection.intervals,
      interval.2 ≤ inverseColumn input column + input.geometry.offsetX

/-- A state that differs in what the slab and the pending row are. -/
structure SameWork (projection next : RowMajorMaskProjection) : Prop where
  cursor : next.cursor = projection.cursor
  source : next.source = projection.source
  previousEnd : next.previousEnd = projection.previousEnd
  remaining : next.remaining = projection.remaining
  row : next.row = projection.row
  x : next.x = projection.x
  rows : next.rows = projection.rows
  stage : next.stage = projection.stage

variable {target : MaskDimensions} {processed : Nat → Prop} {position : Nat}

namespace Resting

variable (h : Resting input target existing maximum processed position projection)

include h

theorem congr {others : Nat → Prop} (hsame : ∀ index, processed index ↔ others index) :
    Resting input target existing maximum others position projection := by
  obtain rfl : processed = others := funext fun index => propext (hsame index)
  exact h

theorem mono (haccepted : Accepted input target) {more : Nat} (hle : position ≤ more) :
    Resting input target existing maximum processed more projection := by
  obtain ⟨own, covered, limit, hemitted, hsame, hlimit⟩ := h.emitted
  refine ⟨h.unfinished, h.inactive, ⟨own, covered, limit, hemitted, hsame, hlimit.trans ?_⟩,
    h.inWidth, fun hsome => (h.started hsome).trans_le hle,
    fun column hcolumn => h.ends column (hle.trans hcolumn)⟩
  refine Nat.mul_le_mul_right _ (Nat.add_le_add_right ?_ _)
  split
  next => exact inverseMaskCoordinate_mono haccepted.sourceHeight (Nat.div_le_div_right hle)
  next => exact le_refl _

theorem of_same (hemitter : next.emitter = projection.emitter)
    (hintervals : next.intervals = projection.intervals)
    (hpending : next.pendingRow = projection.pendingRow) (hfinished : next.finished = false)
    (hinactive : next.slabActive = false) :
    Resting input target existing maximum processed position next := by
  obtain ⟨own, covered, limit, hemitted, hsame, hlimit⟩ := h.emitted
  refine ⟨hfinished, hinactive, ⟨own, covered, limit, hemitter ▸ hemitted, ?_, ?_⟩, ?_, ?_, ?_⟩
  · rw [Pending, hintervals, hpending]
    exact hsame
  · rw [hintervals, hpending]
    exact hlimit
  · rw [hintervals]
    exact h.inWidth
  · rw [hintervals, hpending]
    exact h.started
  · rw [hintervals, hpending]
    exact h.ends

/-- The pending row is flushed before a row that comes later. -/
theorem flush (haccepted : Accepted input target) (hwidth : 0 < target.width) {row : Nat}
    (hrow : if projection.intervals = [] then position / input.sourceDimensions.width ≤ row
      else projection.pendingRow + 1 ≤ row)
    (hemitter : next.emitter = projection.emitter)
    (hslab : next.slab = (projection.flush input).slab) (hactive : next.slabActive = true)
    (hclear : next.clearIntervals = true) (hfinished : next.finished = false) :
    ∃ emitter slab own, Reaches input next
        { next with emitter := emitter, slab := slab, slabActive := false, intervals := [] } ∧
      Emitted existing target.width maximum own (Projected input target processed)
        ((inverseRow input row + input.geometry.offsetY) * target.width) emitter := by
  obtain ⟨own, covered, limit, hemitted, hsame, hlimit⟩ := h.emitted
  have hmono : ∀ {bound other}, bound ≤ other →
      (inverseRow input bound + input.geometry.offsetY) * target.width ≤
        (inverseRow input other + input.geometry.offsetY) * target.width := fun hle =>
    Nat.mul_le_mul_right _ (Nat.add_le_add_right
      (inverseMaskCoordinate_mono haccepted.sourceHeight hle) _)
  have hready : SlabReady target.width limit
      ((inverseRow input row + input.geometry.offsetY) * target.width) next.slab := by
    rw [hslab]
    refine ⟨h.inWidth, Nat.add_le_add_right (inverseMaskCoordinate_mono haccepted.sourceHeight
      (Nat.le_succ _)) _, List.length_pos_iff.mpr, fun _ interval hinterval => ?_, ?_,
      fun hsome _ => ?_, fun hsome _ => ?_⟩
    · have hsome : projection.intervals ≠ [] := List.ne_nil_of_mem (List.mem_of_getElem? hinterval)
      rw [if_neg hsome] at hlimit
      exact hlimit.trans (Nat.le_add_right ..)
    · refine hlimit.trans (hmono ?_)
      split
      next hnil => rwa [if_pos hnil] at hrow
      next hsome =>
        rw [if_neg hsome] at hrow
        exact (Nat.le_succ _).trans hrow
    · have hsome : projection.intervals ≠ [] := hsome
      rw [if_neg hsome] at hrow
      exact hmono hrow
    · have hle : inverseRow input (projection.pendingRow + 1) ≤ input.geometry.resizedHeight :=
        inverseMaskCoordinate_le
      have hrows := haccepted.rows
      refine lt_of_le_of_lt (Nat.mul_le_mul_right _ ?_) (Nat.mul_comm .. ▸ haccepted.count)
      exact (Nat.add_le_add_right hle _).trans hrows
  obtain ⟨emitter, slab, final, hreaches, hfinal⟩ := reaches_slab hactive hfinished
    (hemitter ▸ hemitted) hwidth target.widthFits hready
  rw [if_pos hclear] at hreaches
  refine ⟨emitter, slab, final, hreaches, hfinal.congr fun pixel => ?_⟩
  rw [← hsame, hslab]
  exact or_congr_right slabRest_start

end Resting

/-! A part of a source row. -/

theorem slabPixels_append {first stop : Nat} {intervals others : List Interval} {pixel : Nat} :
    SlabPixels width first stop (intervals ++ others) pixel ↔
      SlabPixels width first stop intervals pixel ∨ SlabPixels width first stop others pixel := by
  simp only [SlabPixels, RowPixels, List.mem_append, or_and_right, and_or_left, exists_or]

theorem slabPixels_addInterval {first stop left right : Nat} {intervals : List Interval}
    (h : InWidth width intervals) (hle : left ≤ right) {pixel : Nat} :
    SlabPixels width first stop (addInterval intervals left right) pixel ↔
      SlabPixels width first stop intervals pixel ∨
        SlabPixels width first stop [(left, right)] pixel := by
  obtain rfl | ⟨init, previous, rfl⟩ := List.eq_nil_or_concat' intervals
  · rw [addInterval, List.getLast?_nil, or_iff_right not_slabPixels_nil]
  · have hvalid := (h.valid previous (by simp)).1
    rw [addInterval, List.getLast?_concat]
    dsimp only
    split
    next hmeets =>
      subst hmeets
      rw [List.dropLast_concat, slabPixels_append, slabPixels_append, or_assoc]
      refine or_congr_right ?_
      simp only [SlabPixels, RowPixels, List.mem_singleton, exists_eq_left, ← exists_or,
        ← and_or_left]
      refine exists_congr fun row => and_congr_right fun _ => and_congr_right fun _ => ?_
      omega
    next => rw [slabPixels_append]

theorem inWidth_addInterval {left right : Nat} {intervals : List Interval}
    (h : InWidth width intervals) (hle : left ≤ right) (hright : right ≤ width)
    (hbefore : ∀ interval ∈ intervals, interval.2 ≤ left) :
    InWidth width (addInterval intervals left right) := by
  obtain rfl | ⟨init, previous, rfl⟩ := List.eq_nil_or_concat' intervals
  · exact ⟨fun interval hmem => List.mem_singleton.mp hmem ▸ ⟨hle, hright⟩,
      List.pairwise_singleton ..⟩
  · have hvalid := (h.valid previous (by simp)).1
    rw [addInterval, List.getLast?_concat]
    dsimp only
    have hlast : previous.2 ≤ left := hbefore previous (by simp)
    obtain ⟨hinit, -, hcross⟩ := List.pairwise_append.mp h.ordered
    split
    next hmeets =>
      rw [List.dropLast_concat]
      refine ⟨fun interval hmem => ?_, List.pairwise_append.mpr ⟨hinit, List.pairwise_singleton ..,
        fun interval hmem other hother => ?_⟩⟩
      · obtain hold | hnew := List.mem_append.mp hmem
        · exact h.valid interval (List.mem_append_left _ hold)
        · rw [List.mem_singleton.mp hnew]
          exact ⟨by dsimp only; omega, hright⟩
      · rw [List.mem_singleton.mp hother]
        exact hcross interval hmem previous (List.mem_singleton.mpr rfl)
    next =>
      refine ⟨fun interval hmem => ?_, List.pairwise_append.mpr ⟨h.ordered,
        List.pairwise_singleton .., fun interval hmem other hother => ?_⟩⟩
      · obtain hold | hnew := List.mem_append.mp hmem
        · exact h.valid interval hold
        · rw [List.mem_singleton.mp hnew]
          exact ⟨hle, hright⟩
      · rw [List.mem_singleton.mp hother]
        exact hbefore interval hmem

theorem mem_addInterval {left right : Nat} {intervals : List Interval} {interval : Interval}
    (hmem : interval ∈ addInterval intervals left right) :
    interval ∈ intervals ∨ interval.2 = right := by
  rw [addInterval] at hmem
  split at hmem
  · split at hmem
    · obtain hold | hnew := List.mem_append.mp hmem
      · exact .inl (List.mem_of_mem_dropLast hold)
      · exact .inr (by rw [List.mem_singleton.mp hnew])
    · obtain hold | hnew := List.mem_append.mp hmem
      · exact .inl hold
      · exact .inr (by rw [List.mem_singleton.mp hnew])
  · exact .inr (by rw [List.mem_singleton.mp hmem])

/-- The part of a row that a run covers, in source coordinates. -/
theorem rowPart_iff (hwidth : 0 < width) {row first last index : Nat} (hlast : last ≤ width) :
    row * width + first ≤ index ∧ index < row * width + last ↔
      (row ≤ index / width ∧ index / width < row + 1) ∧
        first ≤ index % width ∧ index % width < last := by
  have hparts := Nat.div_add_mod' index width
  have hmod := Nat.mod_lt index hwidth
  constructor
  · rintro ⟨hge, hlt⟩
    have hrow : index / width = row := by
      refine Nat.div_eq_of_lt_le (by omega) ?_
      rw [Nat.succ_mul]
      omega
    rw [hrow] at hparts
    omega
  · rintro ⟨⟨hge, hlt⟩, hfirst, hcolumn⟩
    have hrow : index / width = row := by omega
    rw [hrow] at hparts
    omega

end RowMajorMaskProjection

end Mmltk.Dataset
