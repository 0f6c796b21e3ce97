import Mmltk.Dataset.MaskEmitted

namespace Mmltk.Dataset

open Mmltk.Foundation

namespace MaskRunEmitter

/-! The emission of a slab. -/

/-- The pixels of the intervals in one row. -/
def RowPixels (width row : Nat) (intervals : List Interval) (pixel : Nat) : Prop :=
  ∃ interval ∈ intervals, row * width + interval.1 ≤ pixel ∧ pixel < row * width + interval.2

/-- The pixels of the intervals in the rows of a slab. -/
def SlabPixels (width first stop : Nat) (intervals : List Interval) (pixel : Nat) : Prop :=
  ∃ row, first ≤ row ∧ row < stop ∧ RowPixels width row intervals pixel

/-- What of a slab is not emitted yet. -/
def SlabRest (width : Nat) (slab : Slab) (pixel : Nat) : Prop :=
  (slab.row < slab.stop ∧ RowPixels width slab.row (slab.intervals.drop slab.interval) pixel) ∨
    SlabPixels width (slab.row + 1) slab.stop slab.intervals pixel

/-- Intervals from left to right in a row. -/
structure InWidth (width : Nat) (intervals : List Interval) : Prop where
  valid : ∀ interval ∈ intervals, interval.1 ≤ interval.2 ∧ interval.2 ≤ width
  ordered : intervals.Pairwise fun left right => left.2 ≤ right.1

/-- The slab comes after the limit, and before the bound. -/
structure SlabReady (width limit bound : Nat) (slab : Slab) : Prop where
  inWidth : InWidth width slab.intervals
  rows : slab.row ≤ slab.stop
  index : slab.intervals ≠ [] → slab.interval < slab.intervals.length
  after : slab.row < slab.stop → ∀ interval ∈ slab.intervals[slab.interval]?,
    limit ≤ slab.row * width + interval.1
  limitLe : limit ≤ bound
  stopLe : slab.intervals ≠ [] → slab.row < slab.stop → slab.stop * width ≤ bound
  fits : slab.intervals ≠ [] → slab.row < slab.stop → slab.stop * width < 2 ^ 32

variable {existing own : List RLEPair} {width maximum limit bound row first stop pixel : Nat}
  {pixels : Nat → Prop} {emitter : MaskRunEmitter} {slab : Slab} {interval : Interval}
  {intervals rest : List Interval}

theorem rowPixels_cons :
    RowPixels width row (interval :: rest) pixel ↔
      (row * width + interval.1 ≤ pixel ∧ pixel < row * width + interval.2) ∨
        RowPixels width row rest pixel := by
  simp only [RowPixels, List.mem_cons, or_and_right, exists_or, exists_eq_left]

theorem not_rowPixels_nil : ¬ RowPixels width row [] pixel := by
  rintro ⟨interval, hmem, -⟩
  exact nomatch hmem

theorem slabPixels_succ (hrow : first < stop) :
    SlabPixels width first stop intervals pixel ↔
      RowPixels width first intervals pixel ∨ SlabPixels width (first + 1) stop intervals pixel := by
  constructor
  · rintro ⟨row, hfirst, hstop, hpixel⟩
    obtain rfl | hless := Nat.eq_or_lt_of_le hfirst
    · exact .inl hpixel
    · exact .inr ⟨row, hless, hstop, hpixel⟩
  · rintro (hpixel | ⟨row, hfirst, hstop, hpixel⟩)
    · exact ⟨first, le_refl _, hrow, hpixel⟩
    · exact ⟨row, by omega, hstop, hpixel⟩

theorem not_slabPixels_of_le (hrow : stop ≤ first) :
    ¬ SlabPixels width first stop intervals pixel := by
  rintro ⟨row, hfirst, hstop, -⟩
  omega

theorem not_slabPixels_nil : ¬ SlabPixels width first stop [] pixel := by
  rintro ⟨row, -, -, hpixel⟩
  exact not_rowPixels_nil hpixel

theorem slabRest_start :
    SlabRest width ⟨first, stop, intervals, 0⟩ pixel ↔
      SlabPixels width first stop intervals pixel := by
  rw [SlabRest, List.drop_zero]
  obtain hrow | hrow := Nat.lt_or_ge first stop
  · rw [slabPixels_succ hrow, and_iff_right hrow]
  · exact iff_of_false (by
      rintro (⟨hless, -⟩ | hlater)
      · exact absurd hless (not_lt.mpr hrow)
      · exact not_slabPixels_of_le (Nat.le_succ_of_le hrow) hlater) (not_slabPixels_of_le hrow)

theorem slabPixels_full (hwidth : 0 < width) :
    SlabPixels width first stop [(0, width)] pixel ↔
      first * width ≤ pixel ∧ pixel < stop * width := by
  constructor
  · rintro ⟨row, hfirst, hstop, hpixel⟩
    obtain ⟨hge, hlt⟩ := (rowPixels_cons.mp hpixel).resolve_right not_rowPixels_nil
    have hlow := Nat.mul_le_mul_right width hfirst
    have hhigh := Nat.mul_le_mul_right width (Nat.succ_le_of_lt hstop)
    rw [Nat.succ_mul] at hhigh
    dsimp only at hge hlt
    omega
  · rintro ⟨hge, hlt⟩
    have hparts := Nat.div_add_mod' pixel width
    have hmod := Nat.mod_lt pixel hwidth
    refine ⟨pixel / width, ?_, Nat.div_lt_of_lt_mul (Nat.mul_comm stop width ▸ hlt),
      rowPixels_cons.mpr (.inl ?_)⟩
    · exact (Nat.le_div_iff_mul_le hwidth).mpr hge
    · dsimp only
      omega

/-- The slab after one of its intervals. -/
def Slab.next (slab : Slab) : Slab :=
  if slab.interval + 1 = slab.intervals.length then
    { slab with interval := 0, row := slab.row + 1 }
  else { slab with interval := slab.interval + 1 }

def Slab.left (slab : Slab) : Nat :=
  (slab.stop - slab.row) * slab.intervals.length - slab.interval

theorem slabRest_next (hrow : slab.row < slab.stop)
    (hinterval : slab.intervals[slab.interval]? = some interval) :
    SlabRest width slab pixel ↔
      (slab.row * width + interval.1 ≤ pixel ∧ pixel < slab.row * width + interval.2) ∨
        SlabRest width slab.next pixel := by
  obtain ⟨hindex, hequal⟩ := List.getElem?_eq_some_iff.mp hinterval
  have hdrop : slab.intervals.drop slab.interval =
      interval :: slab.intervals.drop (slab.interval + 1) := by
    rw [← hequal]
    exact List.drop_eq_getElem_cons hindex
  rw [SlabRest, and_iff_right hrow, hdrop, rowPixels_cons, or_assoc]
  refine or_congr_right ?_
  rw [Slab.next]
  split
  next hend =>
    have hnone : slab.intervals.drop (slab.interval + 1) = [] :=
      List.drop_eq_nil_of_le (hend ▸ le_refl _)
    rw [hnone, or_iff_right not_rowPixels_nil]
    exact slabRest_start.symm
  next => rw [SlabRest, and_iff_right hrow]

theorem SlabReady.next (h : SlabReady width limit bound slab) (hrow : slab.row < slab.stop)
    (hinterval : slab.intervals[slab.interval]? = some interval) :
    SlabReady width (slab.row * width + interval.2) bound slab.next ∧
      slab.next.left < slab.left := by
  obtain ⟨hindex, hequal⟩ := List.getElem?_eq_some_iff.mp hinterval
  have hsome : slab.intervals ≠ [] := fun hnil => by
    rw [hnil] at hindex
    exact absurd hindex (Nat.not_lt_zero _)
  have hmem : interval ∈ slab.intervals := hequal ▸ List.getElem_mem hindex
  have hright := (h.inWidth.valid interval hmem).2
  have hrowLe := Nat.mul_le_mul_right width (Nat.succ_le_of_lt hrow)
  rw [Nat.succ_mul] at hrowLe
  have hbound := h.stopLe hsome hrow
  have hfits := h.fits hsome hrow
  have hcount := Nat.mul_le_mul_right slab.intervals.length (Nat.sub_pos_of_lt hrow)
  rw [Nat.succ_mul, Nat.zero_mul, Nat.zero_add] at hcount
  rw [Slab.next]
  split
  next hend =>
    refine ⟨⟨h.inWidth, hrow, fun _ => Nat.pos_of_ne_zero (by simpa using hsome), ?_,
      by omega, fun _ _ => hbound, fun _ _ => hfits⟩, ?_⟩
    · intro _ following _
      change _ ≤ (slab.row + 1) * width + following.1
      rw [Nat.succ_mul]
      omega
    · have hless : slab.stop - (slab.row + 1) + 1 = slab.stop - slab.row := by omega
      unfold Slab.left
      dsimp only
      rw [← hless, Nat.succ_mul] at *
      omega
  next hmore =>
    refine ⟨⟨h.inWidth, h.rows, fun _ => by dsimp only; omega, ?_, by omega, fun _ _ => hbound,
      fun _ _ => hfits⟩, ?_⟩
    · intro _ following hfollowing
      obtain ⟨hlater, hsame⟩ := List.getElem?_eq_some_iff.mp hfollowing
      have hordered := List.pairwise_iff_getElem.mp h.inWidth.ordered slab.interval
        (slab.interval + 1) hindex hlater (Nat.lt_succ_self _)
      rw [hequal, hsame] at hordered
      exact Nat.add_le_add_left hordered _
    · unfold Slab.left
      dsimp only
      omega

/-- A step of a slab emits what it leaves out of the rest. -/
theorem Emitted.stepSlab (h : Emitted existing width maximum own pixels limit emitter)
    (hwidth : 0 < width) (hfits : width < 2 ^ 32) (hready : SlabReady width limit bound slab) :
    ∃ done emitted next own limit, emitter.stepSlab slab = .ok (done, emitted, next) ∧
      SlabReady width limit bound next ∧
      (done = true → ∀ pixel, ¬ SlabRest width next pixel) ∧
      (done = false → next.left < slab.left) ∧
      ∃ others, Emitted existing width maximum own others limit emitted ∧
        ∀ pixel, others pixel ∨ SlabRest width next pixel ↔
          pixels pixel ∨ SlabRest width slab pixel := by
  rw [MaskRunEmitter.stepSlab, h.widthEq]
  by_cases hnothing : slab.row = slab.stop ∨ slab.intervals = []
  · rw [if_pos hnothing]
    refine ⟨true, emitter, slab, own, limit, rfl, hready, fun _ pixel => ?_, nofun, pixels, h,
      fun _ => Iff.rfl⟩
    rintro (⟨hrow, hpixel⟩ | hpixel)
    · obtain hrows | hnil := hnothing
      · omega
      · rw [hnil, List.drop_nil] at hpixel
        exact not_rowPixels_nil hpixel
    · obtain hrows | hnil := hnothing
      · exact not_slabPixels_of_le (by omega) hpixel
      · rw [hnil] at hpixel
        exact not_slabPixels_nil hpixel
  rw [if_neg hnothing]
  obtain ⟨hrows, hsome⟩ := not_or.mp hnothing
  have hrow : slab.row < slab.stop := lt_of_le_of_ne hready.rows hrows
  have hindex := hready.index hsome
  have hafter := hready.after hrow slab.intervals[slab.interval]
    (List.getElem?_eq_getElem hindex)
  have hstop := hready.fits hsome hrow
  by_cases hfull : slab.intervals = [(0, width)]
  · have hzero : slab.interval = 0 := by
      rw [hfull, List.length_singleton] at hindex
      omega
    have hrest : ∀ pixel, SlabRest width slab pixel ↔
        slab.row * width ≤ pixel ∧ pixel < slab.stop * width := fun pixel => by
      rw [← slabPixels_full hwidth, ← hfull, ← slabRest_start, ← hzero]
    have hlimit : limit ≤ slab.row * width := by
      simp only [hfull, hzero, List.getElem_cons_zero, Nat.add_zero] at hafter
      exact hafter
    obtain ⟨more, emitted, hrun, hemitted⟩ := h.run hwidth hfits hlimit
      (Nat.mul_le_mul_right width hrow.le) hstop
    refine ⟨true, emitted, { slab with row := slab.stop }, more, _, ?_,
      ⟨hready.inWidth, le_refl _, hready.index, fun hless => absurd hless (lt_irrefl _),
        hready.stopLe hsome hrow, fun _ hless => absurd hless (lt_irrefl _),
        fun _ hless => absurd hless (lt_irrefl _)⟩, fun _ pixel => ?_, nofun, _, hemitted,
      fun pixel => ?_⟩
    · rw [if_pos hfull, hrun]
      rfl
    · rintro (⟨hless, -⟩ | hlater)
      · exact absurd hless (lt_irrefl _)
      · exact not_slabPixels_of_le (Nat.le_succ _) hlater
    · rw [hrest, or_assoc]
      refine or_congr_right (or_iff_left ?_)
      rintro (⟨hless, -⟩ | hlater)
      · exact absurd hless (lt_irrefl _)
      · exact not_slabPixels_of_le (Nat.le_succ _) hlater
  · obtain ⟨hnext, hless⟩ := hready.next hrow (List.getElem?_eq_getElem hindex)
    have hvalid := hready.inWidth.valid _ (List.getElem_mem hindex)
    have hrowLe := Nat.mul_le_mul_right width (Nat.succ_le_of_lt hrow)
    rw [Nat.succ_mul] at hrowLe
    obtain ⟨more, emitted, hrun, hemitted⟩ := h.run hwidth hfits hafter
      (Nat.add_le_add_left hvalid.1 _) (by omega)
    refine ⟨decide (slab.next.row = slab.next.stop), emitted, slab.next, more, _, ?_, hnext,
      fun hdone pixel => ?_, fun _ => hless, _, hemitted, fun pixel => ?_⟩
    · rw [if_neg hfull, if_neg (not_le.mpr hrow)]
      dsimp only
      rw [List.getD_eq_getElem?_getD, List.getElem?_eq_getElem hindex, Option.getD_some, hrun]
      rfl
    · rintro (⟨hrows, -⟩ | hlater)
      · exact absurd (of_decide_eq_true hdone) hrows.ne
      · exact not_slabPixels_of_le (by rw [of_decide_eq_true hdone]; exact Nat.le_succ _) hlater
    · rw [slabRest_next hrow (List.getElem?_eq_getElem hindex), or_assoc]

end MaskRunEmitter

end Mmltk.Dataset
