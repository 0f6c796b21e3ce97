import Mmltk.Compiled.Compaction

namespace Mmltk.Compiled

open Mmltk.Foundation

/-! What one file operation of a compaction may change. -/

/-- The result meets `post`, and no failure is one of the internal order checks. -/
abbrev Safely {α : Type} (result : Except CompiledError α) (post : α → Prop) : Prop :=
  Meets result post (fun failure => failure.isLogic = false)

theorem checkedAdd_safely (left right : Nat) (context : String) :
    Safely (checkedAdd left right context) (fun value => value = left + right) := by
  refine Meets.guard (fun _ => rfl) (fun _ => ?_)
  exact Meets.pure rfl

theorem checkedMultiply_safely (left right : Nat) (context : String) :
    Safely (checkedMultiply left right context) (fun value => value = left * right) := by
  refine Meets.guard (fun _ => rfl) (fun _ => ?_)
  exact Meets.pure rfl

theorem checkedCast_safely (limit value : Nat) (context : String) :
    Safely (checkedCast limit value context) (fun result => result = value ∧ value ≤ limit) := by
  refine Meets.guard (fun _ => rfl) (fun hlimit => ?_)
  exact Meets.pure ⟨rfl, Nat.not_lt.mp hlimit⟩

theorem compiledAlignUp_safely (value alignment : Nat) :
    Safely (compiledAlignUp value alignment) (fun result => result = alignUp value alignment) := by
  refine Meets.guard (fun _ => rfl) (fun _ => ?_)
  refine (checkedAdd_safely _ _ _).bind ?_
  rintro _ rfl
  exact Meets.pure rfl

theorem destinationRange_safely (destination bytes : Nat) :
    Safely (destinationRange destination bytes) (fun _ => True) := by
  refine (compiledAlignUp_safely _ _).bind ?_
  intro _ _
  exact Meets.pure trivial

namespace StagedFile

theorem le_extend (file : StagedFile) (size : Nat) : file.size ≤ (file.extend size).size :=
  Nat.le_max_left _ _

theorem extend_byte (file : StagedFile) {size address : Nat} (h : address < file.size) :
    (file.extend size).byte address = file.byte address :=
  if_pos h

theorem le_allocateRanges (file : StagedFile) (ranges : List FileRange) :
    file.size ≤ (file.allocateRanges ranges).size := by
  induction ranges generalizing file with
  | nil => exact Nat.le_refl _
  | cons range ranges ih =>
      rw [allocateRanges]
      split
      · exact ih file
      · exact Nat.le_trans (file.le_extend _) (ih _)

theorem allocateRanges_byte (file : StagedFile) (ranges : List FileRange) {address : Nat}
    (h : address < file.size) : (file.allocateRanges ranges).byte address = file.byte address := by
  induction ranges generalizing file with
  | nil => rfl
  | cons range ranges ih =>
      rw [allocateRanges]
      split
      · exact ih file h
      · rw [ih _ (Nat.lt_of_lt_of_le h (file.le_extend _)), extend_byte file h]

theorem punchHoles_byte (file : StagedFile) (ranges : List FileRange) {address : Nat}
    (h : ∀ range ∈ ranges, ¬ (range.offset ≤ address ∧ address < range.stop)) :
    (file.punchHoles ranges).byte address = file.byte address := by
  refine if_neg ?_
  rw [List.any_eq_true]
  rintro ⟨range, hrange, hinside⟩
  exact h range hrange (of_decide_eq_true hinside)

theorem le_pwriteAll (file : StagedFile) (data : Nat → UInt8) (start count target : Nat) :
    file.size ≤ (file.pwriteAll data start count target).size := by
  unfold pwriteAll
  split
  · exact Nat.le_refl _
  · exact Nat.le_max_left _ _

theorem pwriteAll_outside (file : StagedFile) (data : Nat → UInt8) (start : Nat)
    {count target address : Nat} (hsize : address < file.size)
    (h : ¬ (target ≤ address ∧ address < target + count)) :
    (file.pwriteAll data start count target).byte address = file.byte address := by
  unfold pwriteAll
  split
  · rfl
  · exact (overwrite_outside _ _ _ (by omega)).trans (extend_byte file hsize)

theorem pwriteAll_inside (file : StagedFile) (data : Nat → UInt8) (start : Nat)
    {count target index : Nat} (h : index < count) :
    (file.pwriteAll data start count target).byte (target + index) = data (start + index) := by
  rw [pwriteAll, if_neg (by omega)]
  exact overwrite_inside _ _ _ h

theorem resizeSparse_byte (file : StagedFile) (size : Nat) {address : Nat}
    (h : address < file.size) : (file.resizeSparse size).byte address = file.byte address :=
  if_pos h

end StagedFile

/-- The fields only `retain` and the label queue write. -/
structure Mover.Frames (before after : Mover) : Prop where
  retainedEnd_eq : after.retainedEnd = before.retainedEnd
  retainedLiveEnd_eq : after.retainedLiveEnd = before.retainedLiveEnd
  labels_eq : after.labels = before.labels
  capturedBytes_eq : after.capturedBytes = before.capturedBytes

namespace Mover.Frames

theorem refl (mover : Mover) : mover.Frames mover := ⟨rfl, rfl, rfl, rfl⟩

theorem trans {before middle after : Mover} (h : before.Frames middle)
    (h' : middle.Frames after) : before.Frames after where
  retainedEnd_eq := h'.retainedEnd_eq.trans h.retainedEnd_eq
  retainedLiveEnd_eq := h'.retainedLiveEnd_eq.trans h.retainedLiveEnd_eq
  labels_eq := h'.labels_eq.trans h.labels_eq
  capturedBytes_eq := h'.capturedBytes_eq.trans h.capturedBytes_eq

end Mover.Frames

/-- A step that may lose what the file holds in `region`, and nothing else. -/
structure Mover.Touches (region : Nat → Prop) (before after : Mover) : Prop where
  size_le : before.file.size ≤ after.file.size
  byte_eq : ∀ address, address < before.file.size → ¬ region address →
    after.file.byte address = before.file.byte address
  scratch_eq : after.scratch = before.scratch
  frames : before.Frames after

namespace Mover.Touches

variable {region wider : Nat → Prop} {before middle after : Mover}

theorem refl (region : Nat → Prop) (mover : Mover) : mover.Touches region mover :=
  ⟨Nat.le_refl _, fun _ _ _ => rfl, rfl, .refl mover⟩

theorem trans (h : before.Touches region middle) (h' : middle.Touches region after) :
    before.Touches region after where
  size_le := Nat.le_trans h.size_le h'.size_le
  byte_eq address hsize hregion :=
    (h'.byte_eq address (Nat.lt_of_lt_of_le hsize h.size_le) hregion).trans
      (h.byte_eq address hsize hregion)
  scratch_eq := h'.scratch_eq.trans h.scratch_eq
  frames := h.frames.trans h'.frames

theorem widen (h : before.Touches region after) (hwider : ∀ address, region address → wider address) :
    before.Touches wider after :=
  { h with
    byte_eq := fun address hsize hregion =>
      h.byte_eq address hsize (fun hin => hregion (hwider address hin)) }

theorem tick (h : before.Touches region after) (tick : Nat) :
    before.Touches region { after with tick } :=
  ⟨h.size_le, h.byte_eq, h.scratch_eq, h.frames.trans ⟨rfl, rfl, rfl, rfl⟩⟩

end Mover.Touches

/-- A step that only reads: the file and the queue stay. -/
structure Mover.Reads (before after : Mover) : Prop where
  file_eq : after.file = before.file
  frames : before.Frames after

theorem Mover.Reads.trans {before middle after : Mover} (h : before.Reads middle)
    (h' : middle.Reads after) : before.Reads after where
  file_eq := h'.file_eq.trans h.file_eq
  frames := h.frames.trans h'.frames

/-- The step after an extent is placed. -/
structure Mover.RetainsUpTo (liveEnd : Nat) (before after : Mover) : Prop where
  file_eq : after.file = before.file
  scratch_eq : after.scratch = before.scratch
  retainedEnd_eq : after.retainedEnd = alignUp liveEnd pageSize
  retainedLiveEnd_eq : after.retainedLiveEnd = liveEnd
  labels_eq : after.labels = before.labels
  capturedBytes_eq : after.capturedBytes = before.capturedBytes

theorem Mover.retain_safely (mover : Mover) (liveEnd : Nat) :
    Safely (mover.retain liveEnd) (mover.RetainsUpTo liveEnd) := by
  refine (compiledAlignUp_safely _ _).bind ?_
  rintro _ rfl
  exact Meets.pure ⟨rfl, rfl, rfl, rfl, rfl, rfl⟩

namespace Compaction

variable (run : Compaction) (mover : Mover)

theorem checkCancelled_safely :
    Safely (run.checkCancelled mover) (fun after => ∃ tick, after = { mover with tick }) := by
  have hcheck : Safely (run.environment.checkCancelled mover.tick) (fun _ => True) :=
    Meets.guard (fun _ => rfl) (fun _ => Meets.pure trivial)
  refine hcheck.bind ?_
  intro tick _
  exact Meets.pure ⟨tick, rfl⟩

theorem reclaim_safely (ranges : List FileRange) :
    Safely (run.reclaim ranges mover) (mover.Touches fun address =>
      ∃ range ∈ ranges, range.offset ≤ address ∧ address < range.stop) := by
  have hpunch : ∀ (part : List FileRange) (tick : Nat) (supported : Bool), part ⊆ ranges →
      mover.Touches (fun address =>
          ∃ range ∈ ranges, range.offset ≤ address ∧ address < range.stop)
        { mover with
          file := mover.file.punchHoles part, tick, reclaimSupported := supported } := by
    intro part tick supported hpart
    refine ⟨Nat.le_refl _, ?_, rfl, ⟨rfl, rfl, rfl, rfl⟩⟩
    intro address _ hregion
    apply StagedFile.punchHoles_byte
    intro range hrange hinside
    exact hregion ⟨range, hpart hrange, hinside⟩
  unfold reclaim
  apply Meets.branch
  · intro _
    exact Meets.pure (Mover.Touches.refl _ _)
  · intro _
    refine (run.checkCancelled_safely mover).bind ?_
    rintro _ ⟨tick, rfl⟩
    simp only
    split
    · exact Meets.pure (hpunch _ _ _ (List.Subset.refl _))
    · exact Meets.pure (hpunch _ _ _ (List.take_subset _ _))
    · exact Meets.fail rfl

theorem reclaimBetween_safely (start stop : Nat) :
    Safely (run.reclaimBetween start stop mover)
      (mover.Touches fun address => alignUp start pageSize ≤ address ∧ address < stop) := by
  refine (compiledAlignUp_safely _ _).bind ?_
  rintro _ rfl
  apply Meets.branch
  · intro hlt
    refine (run.reclaim_safely mover _).weaken fun after h => h.widen ?_
    rintro address ⟨range, hrange, hinside⟩
    cases List.mem_singleton.mp hrange
    have hstop := Nat.div_mul_le_self stop pageSize
    unfold FileRange.stop at hinside
    simp only at hinside
    omega
  · intro _
    exact Meets.pure (Mover.Touches.refl _ _)

theorem tryAllocate_safely (ranges : List FileRange) :
    Safely (run.tryAllocate ranges mover)
      (fun result => mover.Touches (fun _ => False) result.2) := by
  unfold tryAllocate
  apply Meets.branch
  · intro _
    exact Meets.pure (Mover.Touches.refl _ _)
  · intro _
    refine (run.checkCancelled_safely mover).bind ?_
    rintro _ ⟨tick, rfl⟩
    simp only
    split
    · exact Meets.pure ⟨StagedFile.le_allocateRanges _ _,
        fun _ hsize _ => StagedFile.allocateRanges_byte _ _ hsize, rfl, ⟨rfl, rfl, rfl, rfl⟩⟩
    · exact Meets.pure ((Mover.Touches.refl _ mover).tick _)
    · exact Meets.pure ((Mover.Touches.refl _ mover).tick _)
    · exact Meets.fail rfl

theorem allocate_safely (ranges : List FileRange) :
    Safely (run.allocate ranges mover) (mover.Touches fun _ => False) := by
  refine (run.tryAllocate_safely mover ranges).bind ?_
  rintro ⟨admitted, after⟩ htouches
  exact Meets.branch (fun _ => htouches) (fun _ => rfl)

theorem read_safely (source offset bytes : Nat) :
    Safely (run.read source offset bytes mover) (fun after =>
      mover.Reads after ∧
        after.scratch = overwrite mover.scratch mover.file.byte offset source bytes) := by
  refine (run.checkCancelled_safely mover).bind ?_
  rintro _ ⟨tick, rfl⟩
  refine (checkedAdd_safely _ _ _).bind ?_
  rintro _ rfl
  refine (checkedCast_safely _ _ _).bind ?_
  intro _ _
  refine Meets.guard (fun _ => rfl) (fun _ => ?_)
  refine Meets.guard (fun _ => rfl) (fun _ => ?_)
  exact Meets.pure ⟨⟨rfl, ⟨rfl, rfl, rfl, rfl⟩⟩, rfl⟩

theorem write_safely (destination offset bytes : Nat) :
    Safely (run.write destination offset bytes mover) (fun after =>
      mover.Touches (fun address => destination ≤ address ∧ address < destination + bytes) after ∧
        ∀ index, index < bytes →
          after.file.byte (destination + index) = mover.scratch (offset + index)) := by
  refine (run.checkCancelled_safely mover).bind ?_
  rintro _ ⟨tick, rfl⟩
  refine (checkedAdd_safely _ _ _).bind ?_
  rintro _ rfl
  refine (checkedCast_safely _ _ _).bind ?_
  intro _ _
  refine Meets.guard (fun _ => rfl) (fun _ => Meets.pure ⟨?_, ?_⟩)
  · exact ⟨StagedFile.le_pwriteAll _ _ _ _ _,
      fun _ hsize hregion => StagedFile.pwriteAll_outside _ _ _ hsize hregion,
      rfl, ⟨rfl, rfl, rfl, rfl⟩⟩
  · intro index hindex
    exact StagedFile.pwriteAll_inside _ _ _ hindex

end Compaction

end Mmltk.Compiled
