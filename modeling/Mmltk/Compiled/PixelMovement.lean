import Mmltk.Compiled.MoverSpec
import Mmltk.Compiled.Placement

namespace Mmltk.Compiled

open Mmltk.Foundation

/-! The staged file while its extents move down: everything `intact` lies below `bound`,
and so does everything placed. -/

structure Holds (original : Nat → UInt8) (bound low : Nat) (intact : Nat → Prop)
    (placed : Nat → Nat → Prop) (file : StagedFile) : Prop where
  relocated : Relocated original file.byte low intact placed
  low_le : low ≤ bound
  intact_lt : ∀ address, intact address → address < bound
  bound_le : bound ≤ file.size

namespace Holds

variable {original : Nat → UInt8} {bound low : Nat} {intact : Nat → Prop}
  {placed : Nat → Nat → Prop} {file : StagedFile}

theorem touch {region : Nat → Prop} {before after : Mover}
    (h : Holds original bound low intact placed before.file) (htouches : before.Touches region after)
    (hregion : ∀ address, region address → low ≤ address ∧ ¬ intact address) :
    Holds original bound low intact placed after.file where
  relocated := by
    apply h.relocated.touch
    · intro address hlow
      apply htouches.byte_eq
      · exact Nat.lt_of_lt_of_le hlow (Nat.le_trans h.low_le h.bound_le)
      · intro hin
        exact absurd hlow (Nat.not_lt.mpr (hregion address hin).1)
    · intro address hintact
      apply htouches.byte_eq
      · exact Nat.lt_of_lt_of_le (h.intact_lt address hintact) h.bound_le
      · intro hin
        exact (hregion address hin).2 hintact
  low_le := h.low_le
  intact_lt := h.intact_lt
  bound_le := Nat.le_trans h.bound_le htouches.size_le

theorem touch_nothing {before after : Mover}
    (h : Holds original bound low intact placed before.file)
    (htouches : before.Touches (fun _ => False) after) :
    Holds original bound low intact placed after.file :=
  h.touch htouches fun _ hin => hin.elim

theorem consequence {higher : Nat} {fewer : Nat → Prop} {part : Nat → Nat → Prop}
    (h : Holds original bound low intact placed file) (hhigher : low ≤ higher)
    (hbound : higher ≤ bound) (hfewer : ∀ address, fewer address → intact address)
    (hpart : ∀ destination source, part destination source → placed destination source) :
    Holds original bound higher fewer part file where
  relocated := h.relocated.consequence hhigher hfewer hpart
  low_le := hbound
  intact_lt address hin := h.intact_lt address (hfewer address hin)
  bound_le := h.bound_le

end Holds

/-- Between two extents, `retained_end` is the page end of what is placed. -/
structure Retains (original : Nat → UInt8) (bound : Nat) (intact : Nat → Prop)
    (placed : Nat → Nat → Prop) (mover : Mover) : Prop where
  holds : Holds original bound mover.retainedLiveEnd intact placed mover.file
  retained_eq : mover.retainedEnd = alignUp mover.retainedLiveEnd pageSize

/-- Punching beyond the retained end keeps everything that is not intact there. -/
theorem Retains.touch {original : Nat → UInt8} {bound : Nat} {intact region : Nat → Prop}
    {placed : Nat → Nat → Prop} {before after : Mover}
    (h : Retains original bound intact placed before) (htouches : before.Touches region after)
    (hregion : ∀ address, region address →
      before.retainedLiveEnd ≤ address ∧ ¬ intact address) :
    Retains original bound intact placed after := by
  refine ⟨?_, ?_⟩
  · rw [htouches.frames.retainedLiveEnd_eq]
    exact h.holds.touch htouches hregion
  · rw [htouches.frames.retainedLiveEnd_eq, htouches.frames.retainedEnd_eq]
    exact h.retained_eq

theorem Retains.consequence {original : Nat → UInt8} {bound : Nat} {intact fewer : Nat → Prop}
    {placed part : Nat → Nat → Prop} {mover : Mover}
    (h : Retains original bound intact placed mover)
    (hfewer : ∀ address, fewer address → intact address)
    (hpart : ∀ destination source, part destination source → placed destination source) :
    Retains original bound fewer part mover :=
  ⟨h.holds.consequence (Nat.le_refl _) h.holds.low_le hfewer hpart, h.retained_eq⟩

theorem Retains.reads {original : Nat → UInt8} {bound : Nat} {intact : Nat → Prop}
    {placed : Nat → Nat → Prop} {before after : Mover}
    (h : Retains original bound intact placed before) (hreads : before.Reads after) :
    Retains original bound intact placed after := by
  refine ⟨?_, ?_⟩
  · rw [hreads.frames.retainedLiveEnd_eq, hreads.file_eq]
    exact h.holds
  · rw [hreads.frames.retainedLiveEnd_eq, hreads.frames.retainedEnd_eq]
    exact h.retained_eq

theorem Retains.live_le {original : Nat → UInt8} {bound : Nat} {intact : Nat → Prop}
    {placed : Nat → Nat → Prop} {mover : Mover} (h : Retains original bound intact placed mover) :
    mover.retainedLiveEnd ≤ mover.retainedEnd := by
  rw [h.retained_eq]
  exact le_alignUp_page _

theorem Holds.retain {original : Nat → UInt8} {bound liveEnd : Nat} {intact : Nat → Prop}
    {placed : Nat → Nat → Prop} {before after : Mover}
    (h : Holds original bound liveEnd intact placed before.file)
    (hretains : before.RetainsUpTo liveEnd after) :
    Retains original bound intact placed after := by
  refine ⟨?_, ?_⟩
  · rw [hretains.retainedLiveEnd_eq, hretains.file_eq]
    exact h
  · rw [hretains.retainedEnd_eq, hretains.retainedLiveEnd_eq]

/-- The window of `size` bytes captured at `start` of the scratch. -/
def Captured (original scratch : Nat → UInt8) (start source size : Nat) : Prop :=
  ∀ index, index < size → scratch (start + index) = original (source + index)

namespace Compaction

variable (run : Compaction) {original : Nat → UInt8} {bound : Nat} {intact : Nat → Prop}
  {placed : Nat → Nat → Prop}

theorem admitPart_safely (admitted : Bool) (destination bytes : Nat) (mover : Mover) :
    Safely (run.admitPart admitted destination bytes mover) (mover.Touches fun _ => False) := by
  apply Meets.branch
  · intro _
    exact Meets.pure (Mover.Touches.refl _ _)
  · intro _
    refine (destinationRange_safely _ _).bind ?_
    intro part _
    exact run.allocate_safely mover [part]

/-! Pixel runs. -/

/-- What is placed once `done` bytes of an extent have moved. -/
def placedUpTo (placed : Nat → Nat → Prop) (source destination done : Nat) :
    Nat → Nat → Prop :=
  fun d s => placed d s ∨ Extent.Moves ⟨source, destination, done⟩ d s

/-- Writing the next captured bytes of an extent over what is free. -/
theorem write_advances {source destination done start count : Nat} {mover : Mover}
    (hholds : Holds original bound (destination + done) intact
      (placedUpTo placed source destination done) mover.file)
    (hcaptured : Captured original mover.scratch start (source + done) count)
    (hfree : ∀ address, intact address → destination + done + count ≤ address)
    (hbound : destination + done + count ≤ bound) :
    Safely (run.write (destination + done) start count mover) (fun after =>
      mover.Touches (fun _ => True) after ∧
        Holds original bound (destination + (done + count)) intact
          (placedUpTo placed source destination (done + count)) after.file) := by
  refine (run.write_safely mover _ _ _).weaken ?_
  rintro after ⟨htouches, hwritten⟩
  have hkept : Holds original bound (destination + done) intact
      (placedUpTo placed source destination done) after.file := by
    apply hholds.touch htouches
    intro address hin
    refine ⟨hin.1, fun hintact => ?_⟩
    have := hfree address hintact
    omega
  refine ⟨htouches.widen fun _ _ => trivial, ?_, by omega, hkept.intact_lt, hkept.bound_le⟩
  apply hkept.relocated.advance
  intro index hindex
  rw [hwritten index hindex, hcaptured index hindex]

theorem commitCount_spec {admitted : Bool} {size committed : Nat}
    (hwindow : admitted = false → 0 < run.priorWindow)
    (hwhole : admitted = true → committed < size → committed = 0) (hlt : committed < size) :
    0 < run.commitCount admitted size committed ∧
      committed + run.commitCount admitted size committed ≤ size ∧
      (admitted = true → run.commitCount admitted size committed = size) := by
  unfold commitCount
  cases admitted with
  | true =>
      have := hwhole rfl hlt
      rw [if_pos rfl]
      exact ⟨by omega, by omega, fun _ => rfl⟩
  | false =>
      have := hwindow rfl
      rw [if_neg (by decide)]
      exact ⟨by omega, by omega, fun h => absurd h (by decide)⟩

theorem commitPixels_safely {source destination offset size : Nat} (admitted : Bool)
    (hwindow : admitted = false → 0 < run.priorWindow) (horder : destination ≤ source)
    (hintact : ∀ address, intact address → source + offset + size ≤ address)
    (hbound : source + offset + size ≤ bound) (fuel committed : Nat) (mover : Mover)
    (hfuel : size ≤ committed + fuel) (hcommitted : committed ≤ size)
    (hwhole : admitted = true → committed < size → committed = 0)
    (hholds : Holds original bound (destination + (offset + committed)) intact
      (placedUpTo placed source destination (offset + committed)) mover.file)
    (hcaptured : Captured original mover.scratch 0 (source + offset) size) :
    Safely (run.commitPixels source destination offset size admitted fuel committed mover)
      (fun after => mover.Touches (fun _ => True) after ∧
        Holds original bound (destination + (offset + size)) intact
          (placedUpTo placed source destination (offset + size)) after.file) := by
  induction fuel generalizing committed mover with
  | zero =>
      obtain rfl : committed = size := by omega
      exact Meets.pure ⟨Mover.Touches.refl _ _, hholds⟩
  | succ fuel ih =>
      unfold commitPixels
      apply Meets.branch
      · intro hlt
        have hcount := run.commitCount_spec hwindow hwhole hlt
        simp only
        generalize run.commitCount admitted size committed = count at hcount ⊢
        refine (run.admitPart_safely admitted _ count mover).bind ?_
        intro granted hgranted
        have hheld := hholds.touch_nothing hgranted
        have hpart : Captured original granted.scratch committed
            (source + (offset + committed)) count := by
          intro index hindex
          rw [hgranted.scratch_eq]
          have := hcaptured (committed + index) (by omega)
          rw [Nat.zero_add] at this
          rw [this]
          congr 1
          omega
        rw [Nat.add_assoc destination offset committed]
        refine (run.write_advances hheld hpart
          (fun address hin => by have := hintact address hin; omega) (by omega)).bind ?_
        rintro written ⟨hwritten, hadvanced⟩
        refine (compiledAlignUp_safely _ _).bind ?_
        rintro _ rfl
        refine (run.reclaimBetween_safely written _ _).bind ?_
        intro freed hfreed
        have hplaced : destination + (offset + committed + count) ≤
            alignUp (destination + (offset + committed + count)) pageSize := le_alignUp_page _
        have hkept := hadvanced.touch hfreed (by
          rintro address ⟨hlow, hhigh⟩
          have halign := le_alignUp_page (max (source + offset + committed)
            (alignUp (destination + (offset + committed + count)) pageSize))
          refine ⟨by omega, fun hin => ?_⟩
          have := hintact address hin
          omega)
        have hsame : mover.Touches (fun _ => True) freed :=
          ((hgranted.widen fun _ h => h.elim).trans hwritten).trans
            (hfreed.widen fun _ _ => trivial)
        rw [Nat.add_assoc offset committed count] at hkept
        refine (ih (committed + count) freed (by omega) (by omega) ?_ hkept ?_).weaken ?_
        · intro hadmitted hmore
          have := hcount.2.2 hadmitted
          omega
        · intro index hindex
          rw [hsame.scratch_eq]
          exact hcaptured index hindex
        · rintro after ⟨hafter, hdone⟩
          exact ⟨hsame.trans hafter, hdone⟩
      · intro hdone
        obtain rfl : committed = size := by omega
        exact Meets.pure ⟨Mover.Touches.refl _ _, hholds⟩

theorem transferPixels_safely {source destination bytes : Nat}
    (hwindow : 0 < run.priorWindow) (hscratch : 0 < run.scratchSize)
    (horder : destination ≤ source)
    (hintact : ∀ address, intact address → source + bytes ≤ address)
    (hbound : source + bytes ≤ bound) (fuel offset : Nat) (mover : Mover)
    (hfuel : bytes ≤ offset + fuel) (hoffset : offset ≤ bytes)
    (hholds : Holds original bound (destination + offset)
      (fun address => source + offset ≤ address ∧ address < source + bytes ∨ intact address)
      (placedUpTo placed source destination offset) mover.file) :
    Safely (run.transferPixels source destination bytes fuel offset mover)
      (fun after => mover.Frames after ∧
        Holds original bound (destination + bytes) intact
          (placedUpTo placed source destination bytes) after.file) := by
  induction fuel generalizing offset mover with
  | zero =>
      obtain rfl : offset = bytes := by omega
      refine Meets.pure ⟨Mover.Frames.refl _, ?_⟩
      exact hholds.consequence (Nat.le_refl _) hholds.low_le (fun _ hin => .inr hin)
        (fun _ _ h => h)
  | succ fuel ih =>
      unfold transferPixels
      apply Meets.branch
      · intro hlt
        simp only
        generalize hsize : min run.scratchSize (bytes - offset) = size
        refine (run.read_safely mover _ _ _).bind ?_
        rintro loaded ⟨hreads, hscratch'⟩
        refine (destinationRange_safely _ _).bind ?_
        intro full _
        refine (run.tryAllocate_safely loaded [full]).bind ?_
        rintro ⟨admitted, granted⟩ hgranted
        refine Meets.guard (fun _ => rfl) (fun _ => ?_)
        have hcaptured : Captured original granted.scratch 0 (source + offset) size := by
          intro index hindex
          rw [hgranted.scratch_eq, hscratch', overwrite_inside _ _ _ hindex]
          exact hholds.relocated.intact_eq _ (.inl (by omega))
        rw [← hreads.file_eq] at hholds
        have hheld := (hholds.touch_nothing hgranted).consequence (Nat.le_refl _) hholds.low_le
          (show ∀ address, source + (offset + size) ≤ address ∧ address < source + bytes ∨
              intact address →
            source + offset ≤ address ∧ address < source + bytes ∨ intact address by
            rintro address (hin | hin)
            · exact .inl (by omega)
            · exact .inr hin)
          (fun _ _ h => h)
        refine (run.commitPixels_safely admitted (fun _ => hwindow) horder ?_ (by omega) size 0
          granted (by omega) (Nat.zero_le _) (fun _ _ => rfl) hheld hcaptured).bind ?_
        · rintro address (hin | hin)
          · omega
          · have := hintact address hin
            omega
        · rintro committed ⟨htouches, hcommitted⟩
          refine (ih (offset + size) committed (by omega) (by omega) hcommitted).weaken ?_
          rintro after ⟨hframes, hdone⟩
          exact ⟨((hreads.frames.trans hgranted.frames).trans htouches.frames).trans hframes, hdone⟩
      · intro hdone
        obtain rfl : offset = bytes := by omega
        refine Meets.pure ⟨Mover.Frames.refl _, ?_⟩
        exact hholds.consequence (Nat.le_refl _) hholds.low_le (fun _ hin => .inr hin)
          (fun _ _ h => h)

/-- Moving one extent past everything placed, out of bytes that are still intact. -/
theorem movePixels_safely {source destination bytes : Nat} {mover : Mover}
    (hready : source = destination ∨ 0 < run.priorWindow ∧ 0 < run.scratchSize)
    (horder : destination ≤ source) (hlive : mover.retainedLiveEnd ≤ destination)
    (hintact : ∀ address, intact address → source + bytes ≤ address)
    (hbound : source + bytes ≤ bound)
    (hretains : Retains original bound
      (fun address => source ≤ address ∧ address < source + bytes ∨ intact address) placed mover) :
    Safely (run.movePixels source destination bytes mover) (fun after =>
      Retains original bound intact (placedUpTo placed source destination bytes) after ∧
        after.retainedLiveEnd = destination + bytes ∧ after.labels = mover.labels ∧
        after.capturedBytes = mover.capturedBytes) := by
  refine (run.checkCancelled_safely mover).bind ?_
  rintro _ ⟨tick, rfl⟩
  refine Meets.branch (fun hwrong => absurd hwrong ?_) (fun _ => ?_)
  · simp only
    omega
  · refine (run.reclaimBetween_safely _ _ _).bind ?_
    intro freed hfreed
    have hheld : Holds original bound mover.retainedLiveEnd
        (fun address => source ≤ address ∧ address < source + bytes ∨ intact address) placed
        freed.file := by
      have hticked : Holds original bound mover.retainedLiveEnd
          (fun address => source ≤ address ∧ address < source + bytes ∨ intact address) placed
          ({ mover with tick } : Mover).file := hretains.holds
      apply hticked.touch hfreed
      rintro address ⟨hlow, hhigh⟩
      have halign := le_alignUp_page mover.retainedEnd
      have hend := hretains.live_le
      refine ⟨Nat.le_trans (Nat.le_trans hend halign) hlow, ?_⟩
      rintro (hin | hin)
      · omega
      · have := hintact address hin
        omega
    have hmoved : Safely
        (if source = destination then .ok freed
        else if run.scratchSize = 0 then
          .error (.logic "compiled compaction scratch was not prepared")
        else run.transferPixels source destination bytes bytes 0 freed)
        (fun after => freed.Frames after ∧ Holds original bound (destination + bytes) intact
          (placedUpTo placed source destination bytes) after.file) := by
      refine Meets.branch (fun hsame => ?_) (fun hmoves => ?_)
      · refine Meets.pure ⟨Mover.Frames.refl _, ?_⟩
        subst hsame
        refine ⟨?_, hbound, fun address hin => hheld.intact_lt address (.inr hin), hheld.bound_le⟩
        refine Relocated.consequence (hheld.relocated.place ⟨source, source, bytes⟩
          hlive ?_) (Nat.le_refl _) (fun _ hin => .inr hin) (fun _ _ h => h)
        intro index hindex
        exact hheld.relocated.intact_eq _ (.inl ⟨Nat.le_add_right _ _, Nat.add_lt_add_left hindex _⟩)
      · obtain ⟨hwindow, hscratch⟩ := hready.resolve_left hmoves
        rw [if_neg (Nat.ne_of_gt hscratch)]
        refine run.transferPixels_safely hwindow hscratch horder hintact hbound bytes 0 freed
          (by omega) (Nat.zero_le _) ?_
        refine hheld.consequence hlive (by omega) (fun _ hin => hin) ?_
        rintro d s (hplaced | ⟨index, hindex, -⟩)
        · exact hplaced
        · exact absurd hindex (Nat.not_lt_zero index)
    refine hmoved.bind ?_
    rintro moved ⟨hframes, hholds⟩
    refine (moved.retain_safely _).weaken fun after hafter => ?_
    have hframed := hfreed.frames.trans hframes
    exact ⟨hholds.retain hafter, hafter.retainedLiveEnd_eq,
      hafter.labels_eq.trans hframed.labels_eq,
      hafter.capturedBytes_eq.trans hframed.capturedBytes_eq⟩

end Compaction

end Mmltk.Compiled
