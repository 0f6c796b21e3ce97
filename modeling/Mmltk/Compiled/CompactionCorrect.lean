import Mmltk.Compiled.LabelQueue

namespace Mmltk.Compiled

open Mmltk.Foundation

/-! What a compaction has to deliver, slot by slot. -/

namespace Compaction

variable (run : Compaction) (entries : List ImageEntry)

def pixelExtent (slot : Nat) : Extent :=
  ⟨run.staging.pixelAt (slot / compiledBlockSlots) (slot % compiledBlockSlots),
    run.compact.pixelAt (slot / compiledBlockSlots) (slot % compiledBlockSlots),
    run.staging.imageStride⟩

def labelExtent (slot bytes : Nat) : Extent :=
  ⟨run.staging.labelAt (slot / compiledBlockSlots) (slot % compiledBlockSlots),
    run.compact.labelAt (slot / compiledBlockSlots) (slot % compiledBlockSlots), bytes⟩

/-- The pixels of the eligible slots from `start` to `stop`. -/
def Pixels (start stop destination source : Nat) : Prop :=
  ∃ slot, start ≤ slot ∧ slot < stop ∧ eligibleAt entries slot = true ∧
    (run.pixelExtent slot).Moves destination source

/-- Their labels. -/
def Labels (start stop destination source : Nat) : Prop :=
  ∃ slot entry, start ≤ slot ∧ slot < stop ∧ entries[slot]? = some entry ∧
    entry.eligible = true ∧ (run.labelExtent slot entry.labelBytes).Moves destination source

/-- What the entry check and the layout computation establish before anything moves. -/
structure Prepared (stride capacity maximum catalogBytes : Nat) : Prop where
  staging : run.staging.Computed entries.length stride capacity catalogBytes
  compact : run.compact.Computed entries.length stride maximum catalogBytes
  maximum_le : maximum ≤ capacity
  labelBytes_le : ∀ (slot : Nat) (entry : ImageEntry), entries[slot]? = some entry → entry.eligible = true →
    entry.labelBytes ≤ maximum
  window : run.compact.labelPitch = run.staging.labelPitch ∨
    0 < run.priorWindow ∧ 0 < run.scratchSize ∧ maximum ≤ run.scratchSize

namespace Prepared

variable {run : Compaction} {entries : List ImageEntry}
  {stride capacity maximum catalogBytes : Nat}
  (h : run.Prepared entries stride capacity maximum catalogBytes)
include h

theorem tightens : run.compact.Tightens run.staging :=
  h.compact.tightens h.staging h.maximum_le

theorem blockBytes_eq (hpitch : run.compact.labelPitch = run.staging.labelPitch) :
    run.compact.blockBytes = run.staging.blockBytes := by
  rw [h.compact.blockBytes_eq, h.staging.blockBytes_eq, h.tightens.pixelPitch_eq, hpitch]

theorem pixels_ready (block index : Nat) :
    run.staging.pixelAt block index = run.compact.pixelAt block index ∨
      0 < run.priorWindow ∧ 0 < run.scratchSize := by
  rcases h.window with hpitch | ⟨hwindow, hscratch, -⟩
  · exact .inl (h.tightens.pixelAt_eq (h.blockBytes_eq hpitch) block index).symm
  · exact .inr ⟨hwindow, hscratch⟩

theorem labels_ready (block index : Nat) :
    run.staging.labelAt block index = run.compact.labelAt block index ∨
      maximum ≤ run.scratchSize := by
  rcases h.window with hpitch | ⟨-, -, hscratch⟩
  · exact .inl (h.tightens.labelAt_eq (h.blockBytes_eq hpitch) hpitch block index).symm
  · exact .inr hscratch

end Prepared

theorem slot_in_block {block slot : Nat} (hlow : block * compiledBlockSlots ≤ slot)
    (hhigh : slot < block * compiledBlockSlots + compiledBlockSlots) :
    slot / compiledBlockSlots = block ∧
      slot % compiledBlockSlots = slot - block * compiledBlockSlots := by
  unfold compiledBlockSlots at *
  omega

theorem eligibleAt_lt {slot : Nat} (h : eligibleAt entries slot = true) :
    slot < entries.length := by
  unfold eligibleAt at h
  split at h
  · next entry hentry => exact (List.getElem?_eq_some_iff.mp hentry).1
  · contradiction

theorem runEnd_spec (stop fuel image : Nat) (hstop : image ≤ stop) :
    image ≤ run.runEnd entries stop fuel image ∧ run.runEnd entries stop fuel image ≤ stop ∧
      (∀ slot, image ≤ slot → slot < run.runEnd entries stop fuel image →
        eligibleAt entries slot = true) ∧
      (image < run.runEnd entries stop fuel image →
        run.staging.pixelPitch = run.staging.imageStride) := by
  induction fuel generalizing image with
  | zero =>
      exact ⟨Nat.le_refl _, hstop, fun slot hlow hhigh => absurd hhigh (Nat.not_lt.mpr hlow),
        fun hlt => absurd hlt (Nat.lt_irrefl _)⟩
  | succ fuel ih =>
      unfold runEnd
      split
      · next hcontinue =>
        obtain ⟨hpitch, hlt, heligible⟩ := hcontinue
        obtain ⟨hlow, hhigh, hslots, -⟩ := ih (image + 1) hlt
        refine ⟨by omega, hhigh, ?_, fun _ => hpitch⟩
        intro slot himage hslot
        by_cases hsame : slot = image
        · rw [hsame]
          exact heligible
        · exact hslots slot (by omega) hslot
      · exact ⟨Nat.le_refl _, hstop, fun slot hlow hhigh => absurd hhigh (Nat.not_lt.mpr hlow),
          fun hlt => absurd hlt (Nat.lt_irrefl _)⟩

variable {run : Compaction} {entries : List ImageEntry}
  {stride capacity maximum catalogBytes : Nat} {original : Nat → UInt8}

theorem Pixels.moves (h : run.Prepared entries stride capacity maximum catalogBytes)
    {block start stop destination source : Nat} (hlow : block * compiledBlockSlots ≤ start)
    (hhigh : stop ≤ block * compiledBlockSlots + compiledBlockSlots)
    (hrun : start + 1 < stop → run.staging.pixelPitch = run.staging.imageStride)
    (hpixels : run.Pixels entries start stop destination source) :
    Extent.Moves
      ⟨run.staging.pixelAt block (start - block * compiledBlockSlots),
        run.compact.pixelAt block (start - block * compiledBlockSlots),
        (stop - start) * run.staging.imageStride⟩ destination source := by
  obtain ⟨slot, hstart, hstop, -, index, hindex, rfl, rfl⟩ := hpixels
  obtain ⟨hblock, hslot⟩ := slot_in_block (Nat.le_trans hlow hstart) (by omega)
  obtain ⟨ahead, rfl⟩ := Nat.exists_eq_add_of_le hstart
  have hlength : (ahead + 1) * run.staging.imageStride ≤
      (stop - start) * run.staging.imageStride := Nat.mul_le_mul_right _ (by omega)
  rw [Nat.add_one_mul] at hlength
  have hindex : index < run.staging.imageStride := hindex
  have hsame : ahead * run.staging.pixelPitch = ahead * run.staging.imageStride := by
    rcases Nat.eq_zero_or_pos ahead with rfl | hpos
    · rw [Nat.zero_mul, Nat.zero_mul]
    · rw [hrun (by omega)]
  refine ⟨ahead * run.staging.imageStride + index, ?_, ?_, ?_⟩
  · show _ < (stop - start) * run.staging.imageStride
    omega
  · simp only [pixelExtent]
    rw [hblock, hslot, Nat.sub_add_comm hlow, FileLayout.pixelAt_add, h.tightens.pixelPitch_eq,
      hsame, Nat.add_assoc]
  · simp only [pixelExtent]
    rw [hblock, hslot, Nat.sub_add_comm hlow, FileLayout.pixelAt_add, hsame, Nat.add_assoc]

/-- The pixels of a block from `image` on are where they were; those before are placed. -/
structure PixelsAhead (run : Compaction) (original : Nat → UInt8) (block image : Nat)
    (placed : Nat → Nat → Prop) (mover : Mover) : Prop where
  retains : Retains original run.staging.indexOffset
    (fun address => run.staging.pixelAt block (image - block * compiledBlockSlots) ≤ address ∧
      address < run.staging.indexOffset) placed mover
  live_le : mover.retainedLiveEnd ≤
    run.compact.pixelAt block (image - block * compiledBlockSlots)
  labels_eq : mover.labels = []
  captured_eq : mover.capturedBytes = 0

theorem PixelsAhead.skip {block image further : Nat} {placed : Nat → Nat → Prop} {mover : Mover}
    (h : PixelsAhead run original block image placed mover) (hle : image ≤ further) :
    PixelsAhead run original block further placed mover where
  retains := by
    refine h.retains.consequence ?_ (fun _ _ hplaced => hplaced)
    rintro address ⟨hlow, hhigh⟩
    exact ⟨Nat.le_trans (FileLayout.pixelAt_mono _ _ (Nat.sub_le_sub_right hle _)) hlow, hhigh⟩
  live_le := Nat.le_trans h.live_le
    (FileLayout.pixelAt_mono _ _ (Nat.sub_le_sub_right hle _))
  labels_eq := h.labels_eq
  captured_eq := h.captured_eq

theorem PixelsAhead.covers {block image : Nat} {placed part : Nat → Nat → Prop} {mover : Mover}
    (h : PixelsAhead run original block image placed mover)
    (hpart : ∀ d s, part d s → placed d s) :
    PixelsAhead run original block image part mover :=
  { h with retains := h.retains.consequence (fun _ hin => hin) hpart }

/-- One run of pixels, from the slot it starts at to the slot after it. -/
theorem movePixels_ahead (h : run.Prepared entries stride capacity maximum catalogBytes)
    {block start stop : Nat} {placed : Nat → Nat → Prop} {mover : Mover}
    (hblock : block < run.staging.blockCount) (hlow : block * compiledBlockSlots ≤ start)
    (hlt : start < stop) (hhigh : stop ≤ block * compiledBlockSlots + compiledBlockSlots)
    (hrun : start + 1 < stop → run.staging.pixelPitch = run.staging.imageStride)
    (hahead : PixelsAhead run original block start placed mover) :
    Safely (run.movePixels (run.staging.pixelAt block (start - block * compiledBlockSlots))
        (run.compact.pixelAt block (start - block * compiledBlockSlots))
        ((stop - start) * run.staging.imageStride) mover)
      (PixelsAhead run original block stop
        (fun d s => placed d s ∨ run.Pixels entries start stop d s)) := by
  have hpitch : run.staging.imageStride ≤ run.staging.pixelPitch := by
    rw [h.staging.stride_eq]
    exact h.staging.stride_le_pitch
  have hspan : ∀ layout : FileLayout, layout.pixelPitch = run.staging.pixelPitch →
      layout.pixelAt block (start - block * compiledBlockSlots) +
        (stop - start) * run.staging.imageStride ≤
      layout.pixelAt block (stop - block * compiledBlockSlots) := by
    intro layout hlayout
    have hsplit : stop - block * compiledBlockSlots =
        start - block * compiledBlockSlots + (stop - start) := by omega
    rw [hsplit, FileLayout.pixelAt_add, hlayout]
    exact Nat.add_le_add_left (Nat.mul_le_mul_left _ hpitch) _
  have hend : run.staging.pixelAt block (stop - block * compiledBlockSlots) ≤
      run.staging.indexOffset := by
    refine Nat.le_trans (h.staging.pixelAt_le_labelAt block (by omega)) ?_
    exact Nat.le_trans (h.staging.labelAt_le_blockAt block (Nat.zero_le _))
      (h.staging.blockAt_le_indexOffset hblock)
  have hsource := hspan run.staging rfl
  have hdestination := hspan run.compact h.tightens.pixelPitch_eq
  have hretains := hahead.retains.consequence
    (show ∀ address, (run.staging.pixelAt block (start - block * compiledBlockSlots) ≤ address ∧
          address < run.staging.pixelAt block (start - block * compiledBlockSlots) +
            (stop - start) * run.staging.imageStride ∨
        run.staging.pixelAt block (stop - block * compiledBlockSlots) ≤ address ∧
          address < run.staging.indexOffset) →
      run.staging.pixelAt block (start - block * compiledBlockSlots) ≤ address ∧
        address < run.staging.indexOffset by
      rintro address (⟨hin, hout⟩ | ⟨hin, hout⟩) <;> exact ⟨by omega, by omega⟩)
    (fun _ _ hplaced => hplaced)
  refine (run.movePixels_safely (h.pixels_ready block _) (h.tightens.pixelAt_le block _)
    hahead.live_le (fun address hin => by omega) (by omega) hretains).weaken ?_
  rintro after ⟨hafter, hlive, hlabels, hcaptured⟩
  refine ⟨hafter.consequence (fun _ hin => hin) ?_, by omega, hlabels.trans hahead.labels_eq,
    hcaptured.trans hahead.captured_eq⟩
  rintro d s (hplaced | hpixels)
  · exact .inl hplaced
  · exact .inr (hpixels.moves h hlow hhigh hrun)

theorem pixelLoop_safely (h : run.Prepared entries stride capacity maximum catalogBytes)
    {block stop : Nat} (hblock : block < run.staging.blockCount)
    (hhigh : stop ≤ block * compiledBlockSlots + compiledBlockSlots)
    (hentries : stop ≤ entries.length) (fuel image : Nat)
    (mover : Mover) {placed : Nat → Nat → Prop} (hfuel : stop ≤ image + fuel)
    (hlow : block * compiledBlockSlots ≤ image) (hstop : image ≤ stop)
    (hahead : PixelsAhead run original block image placed mover) :
    Safely (run.pixelLoop entries stop fuel image mover)
      (PixelsAhead run original block stop
        (fun d s => placed d s ∨ run.Pixels entries image stop d s)) := by
  induction fuel generalizing image mover placed with
  | zero =>
      obtain rfl : image = stop := by omega
      refine Meets.pure (hahead.covers ?_)
      rintro d s (hplaced | ⟨slot, hstart, hend, -⟩)
      · exact hplaced
      · omega
  | succ fuel ih =>
      unfold pixelLoop
      refine Meets.branch (fun hlt => ?_) (fun hdone => ?_)
      · refine Meets.branch (fun hskip => ?_) (fun heligible => ?_)
        · refine (ih (image + 1) mover (by omega) (by omega) hlt
            (hahead.skip (Nat.le_succ image))).weaken fun after hafter => hafter.covers ?_
          rintro d s (hplaced | ⟨slot, hstart, hend, hslot, hmoved⟩)
          · exact .inl hplaced
          · refine .inr ⟨slot, ?_, hend, hslot, hmoved⟩
            by_contra hle
            obtain rfl : slot = image := by omega
            rw [hskip] at hslot
            contradiction
        · simp only
          obtain ⟨hnext, hnextStop, hslots, hpitch⟩ :=
            run.runEnd_spec entries stop (stop - (image + 1)) (image + 1) hlt
          generalize run.runEnd entries stop (stop - (image + 1)) (image + 1) = next at *
          refine (checkedCast_safely _ _ _).bind ?_
          rintro slot ⟨hcast, -⟩
          obtain rfl := hcast.symm
          have hcount := Nat.lt_of_lt_of_le hlt hentries
          obtain ⟨hslotBlock, hslotIndex⟩ := slot_in_block hlow (by omega : image < _)
          rw [h.staging.pixelOffset_eq (by rw [h.staging.numSlots_eq]; exact hcount),
            h.compact.pixelOffset_eq (by rw [h.compact.numSlots_eq]; exact hcount),
            hslotBlock, hslotIndex]
          refine (checkedMultiply_safely _ _ _).bind ?_
          rintro _ rfl
          refine (movePixels_ahead h hblock hlow hnext (Nat.le_trans hnextStop hhigh) hpitch
            hahead).bind ?_
          intro moved hmoved
          refine (ih next moved (by omega) (by omega) hnextStop hmoved).weaken
            fun after hafter => hafter.covers ?_
          rintro d s (hplaced | ⟨slot, hstart, hend, hslot, hcell⟩)
          · exact .inl (.inl hplaced)
          · by_cases hwithin : slot < next
            · exact .inl (.inr ⟨slot, hstart, hwithin, hslot, hcell⟩)
            · exact .inr ⟨slot, Nat.not_lt.mp hwithin, hend, hslot, hcell⟩
      · obtain rfl : image = stop := by omega
        refine Meets.pure (hahead.covers ?_)
        rintro d s (hplaced | ⟨slot, hstart, hend, -⟩)
        · exact hplaced
        · omega

/-! The labels of a block. -/

/-- Up to `image`, every label of the goal is placed or queued. -/
def LabelsAhead (run : Compaction) (original : Nat → UInt8) (block image : Nat)
    (goal : Nat → Nat → Prop) (mover : Mover) : Prop :=
  ∃ placed,
    Queued run original run.staging.indexOffset
      (run.staging.labelAt block (image - block * compiledBlockSlots))
      (run.compact.labelAt block (image - block * compiledBlockSlots)) placed mover ∧
    ∀ d s, goal d s → placed d s ∨ Delivers mover.labels d s

theorem LabelsAhead.covers {block image : Nat} {goal part : Nat → Nat → Prop} {mover : Mover}
    (h : LabelsAhead run original block image goal mover) (hpart : ∀ d s, part d s → goal d s) :
    LabelsAhead run original block image part mover := by
  obtain ⟨placed, hqueued, hgoal⟩ := h
  exact ⟨placed, hqueued, fun d s hin => hgoal d s (hpart d s hin)⟩

theorem queueLabel_safely (h : run.Prepared entries stride capacity maximum catalogBytes)
    {block image bytes : Nat} (hblock : block < run.staging.blockCount)
    (hlow : block * compiledBlockSlots ≤ image)
    (hhigh : image < block * compiledBlockSlots + compiledBlockSlots)
    (hentries : image < entries.length) (hbytes : bytes ≤ maximum)
    {goal : Nat → Nat → Prop} {mover : Mover}
    (hahead : LabelsAhead run original block image goal mover) :
    Safely (run.queueLabel image bytes mover)
      (LabelsAhead run original block (image + 1)
        (fun d s => goal d s ∨ (run.labelExtent image bytes).Moves d s)) := by
  obtain ⟨hslotBlock, hslotIndex⟩ := slot_in_block hlow hhigh
  refine (checkedCast_safely _ _ _).bind ?_
  rintro slot ⟨hcast, -⟩
  obtain rfl := hcast.symm
  rw [h.staging.labelOffset_eq (by rw [h.staging.numSlots_eq]; exact hentries),
    h.compact.labelOffset_eq (by rw [h.compact.numSlots_eq]; exact hentries),
    hslotBlock, hslotIndex]
  unfold LabelsAhead
  have hextent : run.labelExtent image bytes =
      ⟨run.staging.labelAt block (image - block * compiledBlockSlots),
        run.compact.labelAt block (image - block * compiledBlockSlots), bytes⟩ := by
    rw [labelExtent, hslotBlock, hslotIndex]
  rw [Nat.sub_add_comm hlow, FileLayout.labelAt_succ, FileLayout.labelAt_succ, hextent]
  obtain ⟨placed, hqueued, hgoal⟩ := hahead
  have hready := h.labels_ready block (image - block * compiledBlockSlots)
  have horder := h.tightens.labelAt_le block (image - block * compiledBlockSlots)
  have hpage := h.compact.labelAt_dvd block (image - block * compiledBlockSlots + 1)
  have hend := h.staging.labelAt_le_blockAt block
    (show image - block * compiledBlockSlots + 1 ≤ compiledBlockSlots by omega)
  have hindex : run.staging.blockAt (block + 1) ≤ run.staging.indexOffset :=
    h.staging.blockAt_le_indexOffset hblock
  have hcompactPitch := h.compact.capacity_le_pitch
  have hstagingPitch := h.staging.capacity_le_pitch
  have hmaximum := h.maximum_le
  rw [FileLayout.labelAt_succ] at hpage hend
  generalize run.staging.labelAt block (image - block * compiledBlockSlots) = source at *
  generalize run.compact.labelAt block (image - block * compiledBlockSlots) = destination at *
  show Safely (show Except CompiledError Mover from do
    let capture := if source = destination then 0 else bytes
    let mover ←
      (if run.scratchSize - mover.capturedBytes < capture then run.flushLabels source mover
      else .ok mover)
    if run.scratchSize < capture then
      .error (.logic "compiled label capture exceeds scratch")
    else
      .ok { mover with
        labels := mover.labels ++ [⟨source, destination, bytes, mover.capturedBytes⟩]
        capturedBytes := mover.capturedBytes + capture }) _
  have hcapture : (if source = destination then 0 else bytes) ≤ run.scratchSize := by
    split_ifs with hsame
    · exact Nat.zero_le _
    · have := hready.resolve_left hsame
      omega
  have hflushed : Safely
      (if run.scratchSize - mover.capturedBytes < (if source = destination then 0 else bytes) then
        run.flushLabels source mover
      else .ok mover)
      (fun after => after.capturedBytes + (if source = destination then 0 else bytes) ≤
          run.scratchSize ∧
        ∃ placed, Queued run original run.staging.indexOffset source destination placed after ∧
          ∀ d s, goal d s → placed d s ∨ Delivers after.labels d s) := by
    refine Meets.branch (fun _ => ?_) (fun hroom => ?_)
    · refine (run.flushLabels_safely hqueued).weaken ?_
      rintro after ⟨hnone, hafter⟩
      refine ⟨?_, _, hafter, fun d s hin => .inl (hgoal d s hin)⟩
      rw [hafter.idle hnone, Nat.zero_add]
      exact hcapture
    · have := hqueued.captured_le
      exact Meets.pure ⟨by omega, placed, hqueued, hgoal⟩
  refine hflushed.bind ?_
  rintro after ⟨hroom, placed', hafter, hgoal'⟩
  rw [if_neg (Nat.not_lt.mpr hcapture)]
  refine Meets.pure ⟨placed', hafter.push horder (by omega) (by omega) ?_ hroom, ?_⟩
  · exact alignUp_page_le (by omega) hpage
  · rintro d s (hin | hmoved)
    · rcases hgoal' d s hin with hplaced | ⟨label, hmem, hlabel⟩
      · exact .inl hplaced
      · exact .inr ⟨label, List.mem_append_left _ hmem, hlabel⟩
    · exact .inr ⟨_, List.mem_append_right _ (List.mem_singleton_self _), hmoved⟩

theorem labelLoop_safely (h : run.Prepared entries stride capacity maximum catalogBytes)
    {block stop : Nat} (hblock : block < run.staging.blockCount)
    (hhigh : stop ≤ block * compiledBlockSlots + compiledBlockSlots)
    (hentries : stop ≤ entries.length) (fuel image : Nat) (mover : Mover)
    {goal : Nat → Nat → Prop} (hfuel : stop ≤ image + fuel)
    (hlow : block * compiledBlockSlots ≤ image) (hstop : image ≤ stop)
    (hahead : LabelsAhead run original block image goal mover) :
    Safely (run.labelLoop entries stop fuel image mover)
      (LabelsAhead run original block stop
        (fun d s => goal d s ∨ run.Labels entries image stop d s)) := by
  induction fuel generalizing image mover goal with
  | zero =>
      obtain rfl : image = stop := by omega
      refine Meets.pure (hahead.covers ?_)
      rintro d s (hin | ⟨slot, entry, hstart, hend, -⟩)
      · exact hin
      · omega
  | succ fuel ih =>
      unfold labelLoop
      refine Meets.branch (fun hlt => ?_) (fun hdone => ?_)
      · have hentry := List.getElem?_eq_getElem (Nat.lt_of_lt_of_le hlt hentries)
        generalize entries[image] = entry at hentry
        rw [hentry]
        refine Meets.branch (fun hskip => ?_) (fun hqueue => ?_)
        · obtain ⟨placed, hqueued, hgoal⟩ := hahead
          have hnext : LabelsAhead run original block (image + 1) goal mover := by
            refine ⟨placed, ?_, hgoal⟩
            have hindex : image + 1 - block * compiledBlockSlots ≤ compiledBlockSlots := by omega
            refine hqueued.widen (FileLayout.labelAt_mono _ _ (by omega)) ?_
              (FileLayout.labelAt_mono _ _ (by omega))
            exact Nat.le_trans (h.staging.labelAt_le_blockAt block hindex)
              (h.staging.blockAt_le_indexOffset hblock)
          refine (ih (image + 1) mover (by omega) (by omega) hlt hnext).weaken
            fun after hafter => hafter.covers ?_
          rintro d s (hin | ⟨slot, other, hstart, hend, hother, heligible, hmoved⟩)
          · exact .inl hin
          · refine .inr ⟨slot, other, ?_, hend, hother, heligible, hmoved⟩
            by_contra hle
            obtain rfl : slot = image := by omega
            rw [hentry] at hother
            cases hother
            rcases hskip with hskip | hskip
            · rw [hskip] at heligible
              contradiction
            · obtain ⟨index, hindex, -⟩ := hmoved
              have hindex : index < entry.labelBytes := hindex
              omega
        · have heligible : entry.eligible = true := by
            simpa using fun hskip => hqueue (.inl hskip)
          refine (queueLabel_safely h hblock hlow (by omega) (by omega)
            (h.labelBytes_le image entry hentry heligible) hahead).bind ?_
          intro queued hqueued
          refine (ih (image + 1) queued (by omega) (by omega) hlt hqueued).weaken
            fun after hafter => hafter.covers ?_
          rintro d s (hin | ⟨slot, other, hstart, hend, hother, hotherEligible, hmoved⟩)
          · exact .inl (.inl hin)
          · by_cases hsame : slot = image
            · subst hsame
              rw [hentry] at hother
              cases hother
              exact .inl (.inr hmoved)
            · exact .inr ⟨slot, other, by omega, hend, hother, hotherEligible, hmoved⟩
      · obtain rfl : image = stop := by omega
        refine Meets.pure (hahead.covers ?_)
        rintro d s (hin | ⟨slot, entry, hstart, hend, -⟩)
        · exact hin
        · omega

/-! Whole blocks. -/

/-- What the blocks below `block` have delivered. -/
def Delivered (run : Compaction) (entries : List ImageEntry) (block destination source : Nat) :
    Prop :=
  run.Pixels entries 0 (block * compiledBlockSlots) destination source ∨
    run.Labels entries 0 (block * compiledBlockSlots) destination source

theorem PixelsAhead.queued (h : run.Prepared entries stride capacity maximum catalogBytes)
    {block stop : Nat} {placed : Nat → Nat → Prop} {mover : Mover}
    (hblock : block < run.staging.blockCount)
    (hhigh : stop ≤ block * compiledBlockSlots + compiledBlockSlots)
    (hahead : PixelsAhead run original block stop placed mover) :
    LabelsAhead run original block (block * compiledBlockSlots) placed mover := by
  have hindex : stop - block * compiledBlockSlots ≤ compiledBlockSlots := by omega
  refine ⟨placed, ⟨?_, ?_, ?_, fun _ => hahead.captured_eq, ?_⟩, fun d s hplaced => .inl hplaced⟩
  · refine hahead.retains.consequence ?_ (fun _ _ hplaced => hplaced)
    rw [hahead.labels_eq, Nat.sub_self]
    rintro address (⟨label, hmem, -⟩ | ⟨hlow, hhigh⟩)
    · cases hmem
    · exact ⟨Nat.le_trans (h.staging.pixelAt_le_labelAt block hindex) hlow, hhigh⟩
  · rw [hahead.labels_eq, hahead.captured_eq, hahead.retains.retained_eq, Nat.sub_self]
    refine ⟨alignUp_page_le ?_ (h.compact.labelAt_dvd block 0), Nat.zero_le _, Nat.le_refl _⟩
    exact Nat.le_trans hahead.live_le (h.compact.pixelAt_le_labelAt block hindex)
  · rw [hahead.captured_eq]
    exact Nat.zero_le _
  · rw [Nat.sub_self]
    exact Nat.le_trans (h.staging.labelAt_le_blockAt block (Nat.zero_le _))
      (h.staging.blockAt_le_indexOffset hblock)

theorem moveBlock_safely (h : run.Prepared entries stride capacity maximum catalogBytes)
    {block : Nat} {mover : Mover} (hblock : block < run.staging.blockCount)
    (hahead : PixelsAhead run original block (block * compiledBlockSlots)
      (run.Delivered entries block) mover) :
    Safely (run.moveBlock entries block mover)
      (PixelsAhead run original (block + 1) ((block + 1) * compiledBlockSlots)
        (run.Delivered entries (block + 1))) := by
  unfold moveBlock
  simp only
  have hslots := h.staging.numSlots_eq
  have hfirst : block * compiledBlockSlots ≤
      min (block * compiledBlockSlots + compiledBlockSlots) entries.length := by
    unfold FileLayout.blockCount at hblock
    unfold compiledBlockSlots at *
    omega
  have hhigh : min (block * compiledBlockSlots + compiledBlockSlots) entries.length ≤
      block * compiledBlockSlots + compiledBlockSlots := Nat.min_le_left _ _
  have hentries : min (block * compiledBlockSlots + compiledBlockSlots) entries.length ≤
      entries.length := Nat.min_le_right _ _
  have hslotsIn : ∀ slot, slot < (block + 1) * compiledBlockSlots → slot < entries.length →
      slot < min (block * compiledBlockSlots + compiledBlockSlots) entries.length := by
    intro slot hslot hentry
    rw [Nat.add_one_mul] at hslot
    exact Nat.lt_min.mpr ⟨hslot, hentry⟩
  generalize min (block * compiledBlockSlots + compiledBlockSlots) entries.length = stop at *
  refine (pixelLoop_safely h hblock hhigh hentries _ _ mover (by omega) (Nat.le_refl _) hfirst
    hahead).bind ?_
  intro pixelsMoved hpixels
  refine (labelLoop_safely h hblock hhigh hentries _ _ pixelsMoved (by omega) (Nat.le_refl _)
    hfirst (hpixels.queued h hblock hhigh)).bind ?_
  rintro labelsQueued ⟨placed, hqueued, hgoal⟩
  rw [h.staging.blockOffset_eq hblock]
  have hindex : stop - block * compiledBlockSlots ≤ compiledBlockSlots := by omega
  refine (run.flushLabels_safely (hqueued.widen (h.staging.labelAt_le_blockAt block hindex)
    (h.staging.blockAt_le_indexOffset hblock)
    (h.compact.labelAt_le_blockAt block hindex))).weaken ?_
  rintro after ⟨hnone, hafter⟩
  have hretains := hafter.retains
  have hend := hafter.chained.le.1
  have hlive := hretains.live_le
  rw [hnone] at hretains
  refine ⟨hretains.consequence ?_ ?_, ?_, hnone, hafter.idle hnone⟩
  · rw [Nat.sub_self, FileLayout.pixelAt_zero]
    exact fun address hin => .inr hin
  · have hdelivered : ∀ d s,
        ((run.Delivered entries block d s ∨
          run.Pixels entries (block * compiledBlockSlots) stop d s) ∨
          run.Labels entries (block * compiledBlockSlots) stop d s) →
        placed d s ∨ Delivers labelsQueued.labels d s := hgoal
    rintro d s (⟨slot, hstart, hslot, heligible, hmoved⟩ |
      ⟨slot, entry, hstart, hslot, hentry, hmoved⟩)
    · apply hdelivered
      by_cases hbefore : slot < block * compiledBlockSlots
      · exact .inl (.inl (.inl ⟨slot, hstart, hbefore, heligible, hmoved⟩))
      · exact .inl (.inr ⟨slot, Nat.not_lt.mp hbefore,
          hslotsIn slot hslot (eligibleAt_lt entries heligible), heligible, hmoved⟩)
    · apply hdelivered
      by_cases hbefore : slot < block * compiledBlockSlots
      · exact .inl (.inl (.inr ⟨slot, entry, hstart, hbefore, hentry, hmoved⟩))
      · exact .inr ⟨slot, entry, Nat.not_lt.mp hbefore,
          hslotsIn slot hslot (List.getElem?_eq_some_iff.mp hentry).1, hentry, hmoved⟩
  · rw [Nat.sub_self, FileLayout.pixelAt_zero]
    exact Nat.le_trans hlive hend

theorem blockLoop_safely (h : run.Prepared entries stride capacity maximum catalogBytes)
    (remaining block : Nat) (mover : Mover)
    (hblocks : block + remaining = run.staging.blockCount)
    (hahead : PixelsAhead run original block (block * compiledBlockSlots)
      (run.Delivered entries block) mover) :
    Safely (run.blockLoop entries remaining block mover)
      (PixelsAhead run original run.staging.blockCount
        (run.staging.blockCount * compiledBlockSlots)
        (run.Delivered entries run.staging.blockCount)) := by
  induction remaining generalizing block mover with
  | zero =>
      obtain rfl : block = run.staging.blockCount := hblocks
      exact Meets.pure hahead
  | succ remaining ih =>
      unfold blockLoop
      refine (moveBlock_safely h (by omega) hahead).bind ?_
      intro moved hmoved
      exact ih (block + 1) moved (by omega) hmoved

theorem relocate_safely (h : run.Prepared entries stride capacity maximum catalogBytes)
    {mover : Mover} (hfile : mover.file.byte = original)
    (hsize : run.staging.indexOffset ≤ mover.file.size)
    (hlive : mover.retainedLiveEnd = run.compact.dataOffset)
    (hretained : mover.retainedEnd = run.compact.dataOffset) (hlabels : mover.labels = [])
    (hcaptured : mover.capturedBytes = 0) :
    Safely (run.relocate entries mover) (fun after =>
      after.file.size = run.compact.totalSize ∧
        ∀ d s, run.Delivered entries run.staging.blockCount d s →
          d < run.compact.totalSize ∧ after.file.byte d = original s) := by
  have hstart : PixelsAhead run original 0 (0 * compiledBlockSlots) (run.Delivered entries 0)
      mover := by
    have hzero : run.compact.blockAt 0 = run.compact.dataOffset := by
      rw [FileLayout.blockAt, Nat.zero_mul, Nat.add_zero]
    refine ⟨⟨⟨?_, ?_, fun address hin => hin.2, hsize⟩, ?_⟩, ?_, hlabels, hcaptured⟩
    · rw [hfile]
      refine (Relocated.start original _ _).consequence (Nat.le_refl _) (fun _ hin => hin) ?_
      rintro d s (⟨slot, -, hslot, -⟩ | ⟨slot, entry, -, hslot, -⟩) <;> omega
    · rw [hlive, ← hzero]
      exact Nat.le_trans (h.tightens.blockAt_le 0)
        (h.staging.blockAt_le_indexOffset (Nat.zero_le _))
    · rw [hlive, hretained, alignUp_page_of_dvd h.compact.dataOffset_dvd]
    · rw [hlive, Nat.zero_mul, Nat.zero_sub, FileLayout.pixelAt_zero, hzero]
  refine (blockLoop_safely h _ 0 mover (Nat.zero_add _) hstart).bind ?_
  intro moved hmoved
  refine (run.reclaimBetween_safely moved _ _).bind ?_
  intro freed hfreed
  refine (run.checkCancelled_safely freed).bind ?_
  rintro _ ⟨tick, rfl⟩
  refine Meets.guard (fun _ => rfl) (fun _ => Meets.pure ⟨rfl, ?_⟩)
  intro d s hdelivered
  have hnothing := hmoved.retains.consequence (fun _ (hin : False) => hin.elim)
    (fun _ _ hplaced => hplaced)
  have hkept := hnothing.touch hfreed (by
    rintro address ⟨hlow, -⟩
    have := hnothing.live_le
    have := le_alignUp_page moved.retainedEnd
    exact ⟨by omega, fun hin => hin⟩)
  have hlow := hkept.holds.relocated.placed_lt d s hdelivered
  have hend := hkept.holds.low_le
  have hbound := hkept.holds.bound_le
  have hlast := hmoved.live_le
  rw [Nat.sub_self, FileLayout.pixelAt_zero, ← h.tightens.blockCount_eq] at hlast
  have hindex := h.compact.blockAt_le_indexOffset (Nat.le_refl _)
  have htotal := h.compact.totalSize_eq
  rw [hfreed.frames.retainedLiveEnd_eq] at hlow
  refine ⟨by omega, ?_⟩
  rw [← hkept.holds.relocated.placed_eq d s hdelivered]
  refine StagedFile.resizeSparse_byte freed.file _ ?_
  rw [hfreed.frames.retainedLiveEnd_eq] at hend
  omega

end Compaction

/-! The entry check. -/

theorem annotationLayout_safely (labels runs capacity joints : Nat) :
    Safely (annotationLayout labels runs capacity joints) (fun _ => True) := by
  refine Meets.guard (fun _ => rfl) (fun _ => ?_)
  refine (checkedMultiply_safely _ _ _).bind fun labelBytes _ => ?_
  refine (compiledAlignUp_safely _ _).bind fun runOffset _ => ?_
  refine (checkedMultiply_safely _ _ _).bind fun runBytes _ => ?_
  refine (checkedAdd_safely _ _ _).bind fun bytes _ => ?_
  have hfits : ∀ layout : AnnotationLayout, Safely
      (if capacity < layout.usedBytes then
        .error (.runtime ("compiled label capacity exceeded: required " ++
          toString layout.usedBytes ++ " bytes, capacity " ++ toString capacity))
      else .ok layout) (fun _ => True) := fun layout =>
    Meets.guard (fun _ => rfl) (fun _ => Meets.pure trivial)
  refine Meets.branch (fun _ => hfits _) (fun _ => ?_)
  refine (checkedAdd_safely _ _ _).bind fun jointSpanOffset _ => ?_
  refine (checkedMultiply_safely _ _ _).bind fun spanBytes _ => ?_
  refine (checkedAdd_safely _ _ _).bind fun jointOffset _ => ?_
  refine (checkedMultiply_safely _ _ _).bind fun jointBytes _ => ?_
  refine (checkedAdd_safely _ _ _).bind fun jointEnd _ => ?_
  refine (compiledAlignUp_safely _ _).bind fun usedBytes _ => ?_
  exact hfits _

theorem FileLayout.blockOffset_safely (layout : FileLayout) (block : Nat) :
    Safely (layout.blockOffset block) (fun _ => True) := by
  refine (checkedMultiply_safely _ _ _).bind fun bytes _ => ?_
  exact (checkedAdd_safely _ _ _).weaken fun _ _ => trivial

theorem computeFileLayout_safely (slots stride labelCapacity catalogBytes : Nat) :
    Safely (computeFileLayout slots stride labelCapacity catalogBytes)
      (fun layout => layout.Computed slots stride labelCapacity catalogBytes) := by
  have hsafe : Safely (computeFileLayout slots stride labelCapacity catalogBytes)
      (fun _ => True) := by
    refine Meets.guard (fun _ => rfl) (fun _ => ?_)
    refine Meets.guard (fun _ => rfl) (fun _ => ?_)
    refine (compiledAlignUp_safely _ _).bind fun pixelPitch _ => ?_
    refine (compiledAlignUp_safely _ _).bind fun labelPitch _ => ?_
    refine (checkedMultiply_safely _ _ _).bind fun pixelBlockBytes _ => ?_
    refine (checkedAdd_safely _ _ _).bind fun slotBytes _ => ?_
    refine (checkedMultiply_safely _ _ _).bind fun usedBlockBytes _ => ?_
    refine (compiledAlignUp_safely _ _).bind fun blockBytes _ => ?_
    refine Meets.guard (fun _ => rfl) (fun _ => ?_)
    refine (checkedAdd_safely _ _ _).bind fun metadata _ => ?_
    refine (compiledAlignUp_safely _ _).bind fun dataOffset _ => ?_
    refine (checkedMultiply_safely _ _ _).bind fun indexSize _ => ?_
    refine Meets.guard (fun _ => rfl) (fun _ => ?_)
    refine (FileLayout.blockOffset_safely _ _).bind fun indexOffset _ => ?_
    refine (checkedAdd_safely _ _ _).bind fun totalSize _ => ?_
    refine (checkedCast_safely _ _ _).bind fun _ _ => ?_
    exact Meets.pure trivial
  exact Meets.iff.mpr ⟨fun layout h => computeFileLayout_ok h, fun failure h =>
    hsafe.of_eq_error h⟩

/-- Every eligible label fits the maximum, and the maximum fits the staged capacity. -/
structure LiveExtent.Bounds (capacity : Nat) (entries : List ImageEntry) (start : Nat)
    (extent : LiveExtent) : Prop where
  start_le : start ≤ extent.maximum
  maximum_le : extent.maximum ≤ max start capacity
  labelBytes_le : ∀ entry ∈ entries, entry.eligible = true → entry.labelBytes ≤ extent.maximum

theorem admitEntry_safely (staging : FileLayout) (measured : Bool) (entry : ImageEntry)
    (extent : LiveExtent) :
    Safely (admitEntry staging measured entry extent)
      (LiveExtent.Bounds staging.labelCapacity [entry] extent.maximum) := by
  refine Meets.branch (fun hinactive => ?_) (fun heligible => ?_)
  · refine Meets.guard (fun _ => rfl) (fun _ => Meets.pure ⟨Nat.le_refl _, Nat.le_max_left _ _, ?_⟩)
    intro other hmem hother
    rw [List.mem_singleton.mp hmem, hinactive] at hother
    contradiction
  · refine (annotationLayout_safely _ _ _ _).bind fun layout _ => ?_
    refine Meets.guard (fun _ => rfl) (fun hfits => ?_)
    have htotal : Safely
        (if measured = true then do
          let sample ← checkedAdd staging.imageStride entry.labelBytes
            "compiled compaction sample overflow"
          checkedAdd extent.total sample "compiled compaction total overflow"
        else .ok extent.total) (fun _ => True) := by
      refine Meets.branch (fun _ => ?_) (fun _ => Meets.pure trivial)
      refine (checkedAdd_safely _ _ _).bind fun sample _ => ?_
      exact (checkedAdd_safely _ _ _).weaken fun _ _ => trivial
    refine htotal.bind fun total _ => Meets.pure ⟨Nat.le_max_left _ _, ?_, ?_⟩
    · show max extent.maximum entry.labelBytes ≤ max extent.maximum staging.labelCapacity
      omega
    · intro other hmem _
      rw [List.mem_singleton.mp hmem]
      exact Nat.le_max_right _ _

theorem admitEntries_safely (environment : Environment) (staging : FileLayout)
    (measured : Bool) (entries : List ImageEntry) (slot : Nat) (extent : LiveExtent)
    (tick : Nat) :
    Safely (admitEntries environment staging measured entries slot extent tick)
      (fun result => LiveExtent.Bounds staging.labelCapacity entries extent.maximum result.1) := by
  induction entries generalizing slot extent tick with
  | nil =>
      refine Meets.pure ⟨Nat.le_refl _, Nat.le_max_left _ _, ?_⟩
      intro entry hmem
      cases hmem
  | cons entry rest ih =>
      have hcheck : Safely
          (if slot % 4096 = 0 then environment.checkCancelled tick else .ok tick)
          (fun _ => True) := by
        refine Meets.branch (fun _ => ?_) (fun _ => Meets.pure trivial)
        exact Meets.guard (fun _ => rfl) (fun _ => Meets.pure trivial)
      refine hcheck.bind fun tick _ => ?_
      refine (admitEntry_safely staging measured entry extent).bind fun admitted hadmitted => ?_
      refine (ih (slot + 1) admitted tick).weaken fun result hresult => ?_
      have hstart := hadmitted.start_le
      have hmaximum := hadmitted.maximum_le
      have hstart' := hresult.start_le
      have hmaximum' := hresult.maximum_le
      refine ⟨by omega, by omega, ?_⟩
      intro other hmem hother
      rcases List.mem_cons.mp hmem with rfl | hmem
      · exact Nat.le_trans (hadmitted.labelBytes_le other (List.mem_singleton_self _) hother) hstart'
      · exact hresult.labelBytes_le other hmem hother

/-! The whole compaction. -/

/-- `count` bytes lie at `destination` of `after` as they lay at `source` of `before`. -/
def SameBytes (before after : StagedFile) (source destination : Except CompiledError Nat)
    (count : Nat) : Prop :=
  ∃ first target, source = .ok first ∧ destination = .ok target ∧
    first + count ≤ before.size ∧ target + count ≤ after.size ∧
    ∀ index, index < count → after.byte (target + index) = before.byte (first + index)

/-- Every eligible slot has its pixels and its labels at the places of `compact`. -/
structure Compacted (staging compact : FileLayout) (entries : List ImageEntry)
    (before after : StagedFile) : Prop where
  size_eq : after.size = compact.totalSize
  pixels : ∀ (slot : Nat) (entry : ImageEntry), entries[slot]? = some entry →
    entry.eligible = true →
    SameBytes before after (staging.pixelOffset slot) (compact.pixelOffset slot)
      staging.imageStride
  labels : ∀ (slot : Nat) (entry : ImageEntry), entries[slot]? = some entry →
    entry.eligible = true →
    SameBytes before after (staging.labelOffset slot) (compact.labelOffset slot)
      entry.labelBytes

theorem Compaction.Prepared.compacted {run : Compaction} {entries : List ImageEntry}
    {stride capacity maximum catalogBytes : Nat} {before after : StagedFile}
    (h : run.Prepared entries stride capacity maximum catalogBytes)
    (hbefore : run.staging.indexOffset ≤ before.size)
    (hsize : after.size = run.compact.totalSize)
    (hdelivered : ∀ d s, run.Delivered entries run.staging.blockCount d s →
      after.byte d = before.byte s) :
    Compacted run.staging run.compact entries before after := by
  have hblocks : ∀ slot, slot < entries.length →
      slot < run.staging.blockCount * compiledBlockSlots := by
    intro slot hslot
    have := h.staging.numSlots_eq
    unfold FileLayout.blockCount compiledBlockSlots
    omega
  have htotal := h.compact.totalSize_eq
  have hmaximum := h.maximum_le
  refine ⟨hsize, ?_, ?_⟩
  · intro slot entry hentry heligible
    have hslot := (List.getElem?_eq_some_iff.mp hentry).1
    have hstaging := h.staging.numSlots_eq.symm ▸ hslot
    have hcompact := h.compact.numSlots_eq.symm ▸ hslot
    have hsource := h.staging.pixels_le_indexOffset hstaging
    have hdestination := h.compact.pixels_le_indexOffset hcompact
    have hstride := h.staging.stride_eq
    refine ⟨_, _, h.staging.pixelOffset_eq hstaging, h.compact.pixelOffset_eq hcompact,
      by omega, by omega, fun index hindex => hdelivered _ _ (.inl ?_)⟩
    refine ⟨slot, Nat.zero_le _, hblocks slot hslot, ?_, index, hindex, rfl, rfl⟩
    rw [eligibleAt, hentry]
    exact heligible
  · intro slot entry hentry heligible
    have hslot := (List.getElem?_eq_some_iff.mp hentry).1
    have hstaging := h.staging.numSlots_eq.symm ▸ hslot
    have hcompact := h.compact.numSlots_eq.symm ▸ hslot
    have hbytes := h.labelBytes_le slot entry hentry heligible
    have hsource := h.staging.labels_le_indexOffset hstaging (Nat.le_trans hbytes hmaximum)
    have hdestination := h.compact.labels_le_indexOffset hcompact hbytes
    refine ⟨_, _, h.staging.labelOffset_eq hstaging, h.compact.labelOffset_eq hcompact,
      by omega, by omega, fun index hindex => hdelivered _ _ (.inr ?_)⟩
    exact ⟨slot, entry, Nat.zero_le _, hblocks slot hslot, hentry, heligible, index, hindex,
      rfl, rfl⟩

/-- The scratch window that `compact_compiled_file` settles on is large enough. -/
theorem scratch_window {staging compact : FileLayout} {stride maximum window supplied : Nat}
    (hstride : 0 < stride) (hmaximum : maximum ≤ compiledLabelLimit)
    (hwindow : window = if compact.labelPitch = staging.labelPitch then 0
      else min compiledCompactionScratchBytes (alignUp (max stride maximum) pageSize))
    (hsupplied : ¬ (if window ≠ 0 ∧ supplied = 0 then window else supplied) < window) :
    compact.labelPitch = staging.labelPitch ∨
      0 < window ∧
        0 < (if window = 0 then 0 else
          min (if window ≠ 0 ∧ supplied = 0 then window else supplied)
            compiledCompactionScratchBytes) ∧
        maximum ≤ (if window = 0 then 0 else
          min (if window ≠ 0 ∧ supplied = 0 then window else supplied)
            compiledCompactionScratchBytes) := by
  by_cases hpitch : compact.labelPitch = staging.labelPitch
  · exact .inl hpitch
  · right
    rw [if_neg hpitch] at hwindow
    have halign := le_alignUp_page (max stride maximum)
    generalize (if window ≠ 0 ∧ supplied = 0 then window else supplied) = available at *
    unfold compiledLabelLimit at hmaximum
    unfold compiledCompactionScratchBytes at *
    have hpos : 0 < window := by omega
    rw [if_neg (Nat.ne_of_gt hpos)]
    omega

theorem compactCompiledFile_safely {slots stride capacity catalogBytes : Nat}
    {staging : FileLayout}
    (hstaging : computeFileLayout slots stride capacity catalogBytes = .ok staging)
    (environment : Environment) (file : StagedFile) (entries : List ImageEntry)
    (measured : Bool) (supplied : Nat) (scratch : Nat → UInt8) :
    Safely (compactCompiledFile environment file staging entries measured supplied scratch)
      (fun result => Compacted staging result.1 entries file result.2) := by
  have hcomputed := computeFileLayout_ok hstaging
  refine Meets.guard (fun _ => rfl) (fun hextent => ?_)
  obtain ⟨hlength, hsize⟩ := not_or.mp hextent
  rw [not_not, hcomputed.numSlots_eq] at hlength
  subst hlength
  refine (admitEntries_safely environment staging measured entries 0 ⟨0, 0⟩ 0).bind ?_
  rintro ⟨extent, tick⟩ hbounds
  refine (computeFileLayout_safely _ _ _ _).bind fun compact hcompact => ?_
  rw [hcomputed.numSlots_eq, hcomputed.stride_eq, hcomputed.catalog_eq] at hcompact
  have hmaximum : extent.maximum ≤ capacity := by
    have := hbounds.maximum_le
    rw [hcomputed.capacity_eq] at this
    simpa using this
  have htightens := hcompact.tightens hcomputed hmaximum
  refine Meets.branch
    (fun hgrows => absurd hgrows (Nat.not_lt.mpr (htightens.totalSize_le hcompact hcomputed)))
    (fun _ => ?_)
  have hprior : Safely
      (if compact.labelPitch = staging.labelPitch then .ok 0
      else do
        let window ← compiledAlignUp (max staging.imageStride extent.maximum) pageSize
        .ok (min compiledCompactionScratchBytes window))
      (fun window => window = if compact.labelPitch = staging.labelPitch then 0
        else min compiledCompactionScratchBytes (alignUp (max stride extent.maximum) pageSize)) := by
    refine Meets.branch (fun hsame => Meets.pure (if_pos hsame).symm) (fun hdiffers => ?_)
    refine (compiledAlignUp_safely _ _).bind ?_
    rintro _ rfl
    rw [hcomputed.stride_eq]
    exact Meets.pure (if_neg hdiffers).symm
  refine hprior.bind fun window hwindow => ?_
  simp only
  refine Meets.guard (fun _ => rfl) (fun hsupplied => ?_)
  have hready := scratch_window hcomputed.stride_pos
    (Nat.le_trans hmaximum hcomputed.capacity_le) hwindow hsupplied
  generalize (if window = 0 then 0 else
    min (if window ≠ 0 ∧ supplied = 0 then window else supplied)
      compiledCompactionScratchBytes) = scratchSize at *
  have hprepared : Compaction.Prepared
      ⟨environment, staging, compact, window, scratchSize⟩ entries stride capacity
      extent.maximum catalogBytes :=
    ⟨hcomputed, hcompact, hmaximum,
      fun slot entry hentry => hbounds.labelBytes_le entry (List.mem_of_getElem? hentry), hready⟩
  refine (Compaction.relocate_safely hprepared rfl (Nat.not_lt.mp hsize) rfl rfl rfl rfl).bind ?_
  rintro after ⟨hafter, hdelivered⟩
  exact Meets.pure (hprepared.compacted (Nat.not_lt.mp hsize) hafter
    fun d s hin => (hdelivered d s hin).2)

theorem compactCompiledFile_preserves {slots stride capacity catalogBytes : Nat}
    {staging : FileLayout}
    (hstaging : computeFileLayout slots stride capacity catalogBytes = .ok staging)
    (environment : Environment) (file : StagedFile) (entries : List ImageEntry)
    (measured : Bool) (supplied : Nat) (scratch : Nat → UInt8) :
    (∀ compact after,
      compactCompiledFile environment file staging entries measured supplied scratch =
          .ok (compact, after) →
        Compacted staging compact entries file after) ∧
      ∀ message,
        compactCompiledFile environment file staging entries measured supplied scratch ≠
          .error (.logic message) := by
  have hsafe := compactCompiledFile_safely hstaging environment file entries measured supplied
    scratch
  refine ⟨fun compact after hresult => hsafe.of_eq_ok hresult, fun message hresult => ?_⟩
  have hlogic : (CompiledError.logic message).isLogic = false := hsafe.of_eq_error hresult
  contradiction

/-- Two slots whose second label moves down by one page, with the batch allocation refused. -/
theorem compactCompiledFile_preserves_two :
    let staging : FileLayout :=
      { numSlots := 2, imageStride := 12, pixelPitch := 4096, labelCapacity := 8192,
        labelPitch := 8192, pixelBlockBytes := 262144, blockBytes := 2097152,
        catalogBytes := 0, dataOffset := 2097152, indexSize := 64, indexOffset := 4194304,
        totalSize := 4194368 }
    let environment : Environment :=
      { cancelled := fun _ => false,
        allocation := fun tick => if tick < 12 then .insufficient else .allocated,
        reclamation := fun _ => .complete, transferFails := fun _ => false }
    let entry : ImageEntry :=
      { numInstances := 1, status := .eligible, labelBytes := 64, numRuns := 0 }
    let file : StagedFile := { size := 4194304, byte := fun address => UInt8.ofNat address }
    ∃ compact after,
      compactCompiledFile environment file staging [entry, entry] true 4096 (fun _ => 0) =
        .ok (compact, after) ∧
      Compacted staging compact [entry, entry] file after := by
  intro staging environment entry file
  have hstaging : computeFileLayout 2 12 8192 0 = .ok staging := by decide +kernel
  have hreturns : (compactCompiledFile environment file staging [entry, entry] true 4096
      (fun _ => 0)).toBool = true := by
    decide +kernel
  cases hrun : compactCompiledFile environment file staging [entry, entry] true 4096
      (fun _ => 0) with
  | error failure =>
      rw [hrun] at hreturns
      contradiction
  | ok result =>
      exact ⟨result.1, result.2, rfl,
        (compactCompiledFile_preserves hstaging environment file [entry, entry] true 4096
          (fun _ => 0)).1 result.1 result.2 hrun⟩

end Mmltk.Compiled
