import Mmltk.Compiled.PixelMovement

namespace Mmltk.Compiled

open Mmltk.Foundation

/-! The label queue. -/

namespace CapturedLabel

def extent (label : CapturedLabel) : Extent :=
  ⟨label.source, label.destination, label.bytes⟩

def captureBytes (label : CapturedLabel) : Nat :=
  if label.source = label.destination then 0 else label.bytes

end CapturedLabel

/-- How far destinations, sources and captures reach. -/
structure Frontier where
  destination : Nat
  source : Nat
  scratch : Nat

def Frontier.past (label : CapturedLabel) : Frontier :=
  ⟨alignUp (label.destination + label.bytes) pageSize, label.source + label.bytes,
    label.scratchOffset + label.captureBytes⟩

/-- The queued labels go up in their destinations, their sources and their captures. -/
def Chained (start : Frontier) : List CapturedLabel → Frontier → Prop
  | [], stop =>
      start.destination ≤ stop.destination ∧ start.source ≤ stop.source ∧
        start.scratch ≤ stop.scratch
  | label :: rest, stop =>
      (start.destination ≤ label.destination ∧ label.destination ≤ label.source ∧
        start.source ≤ label.source ∧ start.scratch ≤ label.scratchOffset) ∧
        Chained (Frontier.past label) rest stop

namespace Chained

variable {start stop : Frontier} {labels : List CapturedLabel}

theorem le (h : Chained start labels stop) :
    start.destination ≤ stop.destination ∧ start.source ≤ stop.source ∧
      start.scratch ≤ stop.scratch := by
  induction labels generalizing start with
  | nil => exact h
  | cons label rest ih =>
      obtain ⟨⟨hdestination, -, hsource, hscratch⟩, hrest⟩ := h
      obtain ⟨hdestination', hsource', hscratch'⟩ := ih hrest
      have halign := le_alignUp_page (label.destination + label.bytes)
      unfold Frontier.past at hdestination' hsource' hscratch'
      simp only at hdestination' hsource' hscratch'
      omega

theorem mem_bounds (h : Chained start labels stop) {label : CapturedLabel}
    (hmem : label ∈ labels) :
    start.destination ≤ label.destination ∧ label.destination ≤ label.source ∧
      start.source ≤ label.source ∧ start.scratch ≤ label.scratchOffset ∧
      alignUp (label.destination + label.bytes) pageSize ≤ stop.destination ∧
      label.source + label.bytes ≤ stop.source ∧
      label.scratchOffset + label.captureBytes ≤ stop.scratch := by
  induction labels generalizing start with
  | nil => cases hmem
  | cons first rest ih =>
      obtain ⟨⟨hdestination, horder, hsource, hscratch⟩, hrest⟩ := h
      rcases List.mem_cons.mp hmem with rfl | hmem
      · obtain ⟨hdestination', hsource', hscratch'⟩ := hrest.le
        exact ⟨hdestination, horder, hsource, hscratch, hdestination', hsource', hscratch'⟩
      · obtain ⟨h₁, h₂, h₃, h₄, h₅⟩ := ih hrest hmem
        have halign := le_alignUp_page (first.destination + first.bytes)
        unfold Frontier.past at h₁ h₃ h₄
        simp only at h₁ h₃ h₄
        exact ⟨by omega, h₂, by omega, by omega, h₅⟩

theorem snoc {label : CapturedLabel} {further : Frontier} (h : Chained start labels stop)
    (hdestination : stop.destination ≤ label.destination)
    (horder : label.destination ≤ label.source) (hsource : stop.source ≤ label.source)
    (hscratch : stop.scratch ≤ label.scratchOffset)
    (hpast : Chained (Frontier.past label) [] further) :
    Chained start (labels ++ [label]) further := by
  induction labels generalizing start with
  | nil =>
      obtain ⟨hdestination', hsource', hscratch'⟩ := h
      exact ⟨⟨by omega, horder, by omega, by omega⟩, hpast⟩
  | cons first rest ih => exact ⟨h.1, ih h.2⟩

theorem widen {further : Frontier} (h : Chained start labels stop)
    (hstop : stop.destination ≤ further.destination ∧ stop.source ≤ further.source ∧
      stop.scratch ≤ further.scratch) : Chained start labels further := by
  induction labels generalizing start with
  | nil =>
      obtain ⟨hdestination, hsource, hscratch⟩ := h
      exact ⟨by omega, by omega, by omega⟩
  | cons first rest ih => exact ⟨h.1, ih h.2⟩

end Chained

/-- The bytes that queued labels still have to deliver. -/
def Pending (labels : List CapturedLabel) (address : Nat) : Prop :=
  ∃ label ∈ labels, label.source ≤ address ∧ address < label.source + label.bytes

/-- Once all are captured, only a label that stays put needs its own bytes. -/
def Stationary (labels : List CapturedLabel) (address : Nat) : Prop :=
  ∃ label ∈ labels, label.source = label.destination ∧ label.source ≤ address ∧
    address < label.source + label.bytes

/-- The queue's extents. -/
def Delivers (labels : List CapturedLabel) (destination source : Nat) : Prop :=
  ∃ label ∈ labels, label.extent.Moves destination source

/-- A range below `unread` that no queued label is going to fill. -/
def Clear (start : Frontier) (labels : List CapturedLabel) (unread : Nat)
    (range : FileRange) : Prop :=
  ∀ address, range.offset ≤ address → address < range.stop →
    start.destination ≤ address ∧ address < unread ∧
      ∀ label ∈ labels,
        ¬ (label.destination ≤ address ∧ address < label.destination + label.bytes)

theorem Clear.before_first {start stop : Frontier} {label : CapturedLabel}
    {rest : List CapturedLabel} {unread : Nat} (hchain : Chained start (label :: rest) stop)
    (hunread : stop.source ≤ unread) :
    Clear start (label :: rest) unread
      ⟨start.destination, label.destination - start.destination⟩ := by
  intro address hlow hhigh
  have hbounds := hchain.mem_bounds List.mem_cons_self
  have hstop : address < label.destination := by
    unfold FileRange.stop at hhigh
    simp only at hhigh hlow
    omega
  refine ⟨hlow, by omega, ?_⟩
  intro other hmem hinside
  rcases List.mem_cons.mp hmem with rfl | hmem
  · omega
  · obtain ⟨hdestination, -⟩ := hchain.2.mem_bounds hmem
    have halign := le_alignUp_page (label.destination + label.bytes)
    unfold Frontier.past at hdestination
    simp only at hdestination
    omega

theorem Clear.cons {start stop : Frontier} {label : CapturedLabel}
    {rest : List CapturedLabel} {unread : Nat} {range : FileRange}
    (h : Clear (Frontier.past label) rest unread range)
    (hchain : Chained start (label :: rest) stop) : Clear start (label :: rest) unread range := by
  intro address hlow hhigh
  obtain ⟨hdestination, hunread, hothers⟩ := h address hlow hhigh
  have hfirst := hchain.1.1
  have halign := le_alignUp_page (label.destination + label.bytes)
  unfold Frontier.past at hdestination
  simp only at hdestination
  refine ⟨by omega, hunread, ?_⟩
  intro other hmem hinside
  rcases List.mem_cons.mp hmem with rfl | hmem
  · omega
  · exact hothers other hmem hinside

/-- Once the queue is captured, the gaps below it hold nothing that is still needed. -/
theorem Retains.captured {original : Nat → UInt8} {bound unread : Nat}
    {placed : Nat → Nat → Prop} {labels : List CapturedLabel} {start : Frontier}
    {before after : Mover} {gaps : List FileRange}
    (h : Retains original bound
      (fun address => Pending labels address ∨ unread ≤ address ∧ address < bound) placed before)
    (hstart : before.retainedEnd = start.destination)
    (hgaps : ∀ gap ∈ gaps, Clear start labels unread gap)
    (htouches : before.Touches (fun address =>
      ∃ range ∈ gaps, range.offset ≤ address ∧ address < range.stop) after) :
    Retains original bound
      (fun address => Stationary labels address ∨ unread ≤ address ∧ address < bound) placed
      after := by
  have hfewer : ∀ address, (Stationary labels address ∨ unread ≤ address ∧ address < bound) →
      Pending labels address ∨ unread ≤ address ∧ address < bound := by
    rintro address (⟨label, hmem, -, hinside⟩ | hin)
    · exact .inl ⟨label, hmem, hinside⟩
    · exact .inr hin
  refine (h.consequence hfewer fun _ _ hplaced => hplaced).touch htouches ?_
  rintro address ⟨gap, hmem, hlow, hhigh⟩
  obtain ⟨hpast, hbelow, hothers⟩ := hgaps gap hmem address hlow hhigh
  have hlive := h.live_le
  refine ⟨by omega, ?_⟩
  rintro (⟨label, hlabel, hstays, hinside⟩ | ⟨hin, -⟩)
  · rw [hstays] at hinside
    exact hothers label hlabel hinside
  · omega

/-- The queue between two labels: what is queued or unread is still where it was. -/
structure Queued (run : Compaction) (original : Nat → UInt8) (bound unread destination : Nat)
    (placed : Nat → Nat → Prop) (mover : Mover) : Prop where
  retains : Retains original bound
    (fun address => Pending mover.labels address ∨ unread ≤ address ∧ address < bound)
    placed mover
  chained : Chained ⟨mover.retainedEnd, 0, 0⟩ mover.labels
    ⟨destination, unread, mover.capturedBytes⟩
  captured_le : mover.capturedBytes ≤ run.scratchSize
  idle : mover.labels = [] → mover.capturedBytes = 0
  unread_le : unread ≤ bound

namespace Queued

variable {run : Compaction} {original : Nat → UInt8}

theorem widen {bound unread further destination beyond : Nat}
    {placed : Nat → Nat → Prop} {mover : Mover}
    (h : Queued run original bound unread destination placed mover) (hunread : unread ≤ further)
    (hbound : further ≤ bound) (hdestination : destination ≤ beyond) :
    Queued run original bound further beyond placed mover where
  retains := by
    refine h.retains.consequence ?_ (fun _ _ hplaced => hplaced)
    rintro address (hpending | ⟨hlow, hhigh⟩)
    · exact .inl hpending
    · exact .inr ⟨Nat.le_trans hunread hlow, hhigh⟩
  chained := h.chained.widen ⟨hdestination, hunread, Nat.le_refl _⟩
  captured_le := h.captured_le
  idle := h.idle
  unread_le := hbound

theorem push {bound unread destination : Nat} {placed : Nat → Nat → Prop}
    {mover : Mover} {bytes further beyond : Nat}
    (h : Queued run original bound unread destination placed mover)
    (horder : destination ≤ unread) (hunread : unread + bytes ≤ further) (hbound : further ≤ bound)
    (hbeyond : alignUp (destination + bytes) pageSize ≤ beyond)
    (hroom : mover.capturedBytes + (if unread = destination then 0 else bytes) ≤
      run.scratchSize) :
    Queued run original bound further beyond placed
      { mover with
        labels := mover.labels ++ [⟨unread, destination, bytes, mover.capturedBytes⟩]
        capturedBytes := mover.capturedBytes +
          (if unread = destination then 0 else bytes) } where
  retains := by
    refine Retains.consequence ⟨h.retains.holds, h.retains.retained_eq⟩ ?_
      (fun _ _ hplaced => hplaced)
    rintro address (⟨label, hmem, hinside⟩ | hin)
    · rcases List.mem_append.mp hmem with hmem | hnew
      · exact .inl ⟨label, hmem, hinside⟩
      · cases List.mem_singleton.mp hnew
        exact .inr ⟨hinside.1, by simp only at hinside; omega⟩
    · exact .inr (by omega)
  chained := by
    refine h.chained.snoc (Nat.le_refl _) horder (Nat.le_refl _) (Nat.le_refl _) ?_
    exact ⟨hbeyond, hunread, Nat.le_refl _⟩
  captured_le := hroom
  idle hnone := by
    have := congrArg List.length hnone
    rw [List.length_append] at this
    exact absurd this (Nat.succ_ne_zero _)
  unread_le := hbound

end Queued

namespace Compaction

variable (run : Compaction) {original : Nat → UInt8} {bound : Nat}
  {placed : Nat → Nat → Prop}

theorem captureLabel_safely {label : CapturedLabel} {destinations : List FileRange}
    {mover : Mover}
    (hintact : ∀ index, index < label.bytes →
      mover.file.byte (label.source + index) = original (label.source + index)) :
    Safely (run.captureLabel label destinations mover) (fun result =>
      mover.Reads result.2 ∧
        (∀ address, address < label.scratchOffset →
          result.2.scratch address = mover.scratch address) ∧
        (label.source ≠ label.destination →
          Captured original result.2.scratch label.scratchOffset label.source label.bytes)) := by
  refine Meets.branch (fun hmoves => ?_) (fun hstays => ?_)
  · refine (run.read_safely mover _ _ _).bind ?_
    rintro loaded ⟨hreads, hscratch⟩
    refine (destinationRange_safely _ _).bind ?_
    intro range _
    refine Meets.pure ⟨hreads, ?_, fun _ => ?_⟩
    · intro address hlt
      rw [hscratch]
      exact overwrite_outside _ _ _ (.inl hlt)
    · intro index hindex
      rw [hscratch, overwrite_inside _ _ _ hindex]
      exact hintact index hindex
  · exact Meets.pure ⟨⟨rfl, .refl mover⟩, fun _ _ => rfl, fun hmoves => absurd hmoves hstays⟩

theorem gatherLabels_safely {unread : Nat} {stop : Frontier} (hunread : stop.source ≤ unread)
    (labels : List CapturedLabel) {start : Frontier} (hchain : Chained start labels stop)
    (gathered : Gathered) (mover : Mover)
    (hcommitted : gathered.committedEnd = start.destination)
    (hintact : ∀ address, Pending labels address →
      mover.file.byte address = original address) :
    Safely (run.gatherLabels unread labels gathered mover) (fun result =>
      mover.Reads result.2 ∧
        (∀ address, address < start.scratch →
          result.2.scratch address = mover.scratch address) ∧
        (∀ label ∈ labels, label.source ≠ label.destination →
          Captured original result.2.scratch label.scratchOffset label.source label.bytes) ∧
        ∀ gap ∈ result.1.gaps, gap ∈ gathered.gaps ∨ Clear start labels unread gap) := by
  induction labels generalizing start gathered mover with
  | nil =>
      refine Meets.pure ⟨⟨rfl, .refl mover⟩, fun _ _ => rfl, ?_, fun _ hgap => .inl hgap⟩
      intro label hmem
      cases hmem
  | cons label rest ih =>
      have hbounds := hchain.mem_bounds List.mem_cons_self
      have halign := le_alignUp_page (label.destination + label.bytes)
      refine (run.checkCancelled_safely mover).bind ?_
      rintro _ ⟨tick, rfl⟩
      refine Meets.branch (fun hwrong => absurd hwrong (by omega)) (fun _ => ?_)
      have hhere : ∀ index, index < label.bytes →
          ({ mover with tick } : Mover).file.byte (label.source + index) =
            original (label.source + index) := fun index hindex =>
        hintact _ ⟨label, List.mem_cons_self, Nat.le_add_right _ _,
          Nat.add_lt_add_left hindex _⟩
      refine (run.captureLabel_safely hhere).bind ?_
      rintro ⟨destinations, loaded⟩ ⟨hreads, hbelow, hcaptured⟩
      refine (compiledAlignUp_safely _ _).bind ?_
      rintro _ rfl
      have hreads' : mover.Reads loaded :=
        ⟨hreads.file_eq, ⟨hreads.frames.1, hreads.frames.2, hreads.frames.3, hreads.frames.4⟩⟩
      refine (ih hchain.2 _ loaded rfl ?_).weaken ?_
      · rintro address ⟨other, hmem, hinside⟩
        rw [hreads'.file_eq]
        exact hintact address ⟨other, List.mem_cons_of_mem _ hmem, hinside⟩
      · rintro ⟨gathered', after⟩ ⟨hafter, hkept, hrest, hgaps⟩
        have hpast : (Frontier.past label).scratch = label.scratchOffset + label.captureBytes := rfl
        refine ⟨hreads'.trans hafter, ?_, ?_, ?_⟩
        · intro address hlt
          rw [hkept address (by omega)]
          exact hbelow address (by omega)
        · intro other hmem hmoves
          rcases List.mem_cons.mp hmem with rfl | hmem
          · intro index hindex
            have hcapture : other.captureBytes = other.bytes := if_neg hmoves
            rw [hkept _ (by omega)]
            exact hcaptured hmoves index hindex
          · exact hrest other hmem hmoves
        · intro gap hgap
          rcases hgaps gap hgap with hold | hclear
          · simp only at hold
            split at hold
            · rcases List.mem_append.mp hold with hold | hnew
              · exact .inl hold
              · cases List.mem_singleton.mp hnew
                rw [hcommitted]
                exact .inr (Clear.before_first hchain hunread)
            · exact .inl hold
          · exact .inr (hclear.cons hchain)

theorem placeLabel_safely (admitted : Bool) {label : CapturedLabel} {mover : Mover}
    {intact : Nat → Prop} (hlive : mover.retainedLiveEnd ≤ label.destination)
    (horder : label.destination ≤ label.source) (hbound : label.source + label.bytes ≤ bound)
    (hfree : ∀ address, intact address → label.destination + label.bytes ≤ address)
    (hcaptured : label.source ≠ label.destination →
      Captured original mover.scratch label.scratchOffset label.source label.bytes)
    (hholds : Holds original bound mover.retainedLiveEnd
      (fun address => Stationary [label] address ∨ intact address) placed mover.file) :
    Safely (run.placeLabel admitted label mover) (fun after =>
      mover.Touches (fun _ => True) after ∧
        Holds original bound (label.destination + label.bytes) intact
          (fun d s => placed d s ∨ label.extent.Moves d s) after.file) := by
  refine Meets.branch (fun hstays => ?_) (fun hmoves => ?_)
  · refine Meets.pure ⟨Mover.Touches.refl _ _, ?_, by omega,
      fun address hin => hholds.intact_lt address (.inr hin), hholds.bound_le⟩
    refine Relocated.consequence (hholds.relocated.place label.extent hlive ?_) (Nat.le_refl _)
      (fun _ hin => .inr hin) (fun _ _ h => h)
    intro index hindex
    show mover.file.byte (label.destination + index) = original (label.source + index)
    rw [← hstays]
    exact hholds.relocated.intact_eq _ (.inl ⟨label, List.mem_singleton_self _, hstays,
      Nat.le_add_right _ _, Nat.add_lt_add_left hindex _⟩)
  · refine (run.admitPart_safely admitted _ _ mover).bind ?_
    intro granted hgranted
    have hheld : Holds original bound (label.destination + 0) intact
        (placedUpTo placed label.source label.destination 0) granted.file := by
      refine (hholds.touch_nothing hgranted).consequence hlive (by omega)
        (fun _ hin => .inr hin) ?_
      rintro d s (hplaced | ⟨index, hindex, -⟩)
      · exact hplaced
      · exact absurd hindex (Nat.not_lt_zero index)
    have hready : Captured original granted.scratch label.scratchOffset (label.source + 0)
        label.bytes := by
      rw [hgranted.scratch_eq]
      exact hcaptured hmoves
    refine (run.write_advances hheld hready hfree (by omega)).weaken ?_
    rintro after ⟨htouches, hadvanced⟩
    rw [Nat.zero_add] at hadvanced
    exact ⟨(hgranted.widen fun _ h => h.elim).trans htouches, hadvanced⟩

theorem placeLabels_safely {unread : Nat} {stop : Frontier} (sourceBegin : Nat)
    (admitted : Bool) (hunread : stop.source ≤ unread) (hbound : unread ≤ bound)
    (labels : List CapturedLabel) {start : Frontier} (hchain : Chained start labels stop)
    (mover : Mover) {placed : Nat → Nat → Prop}
    (hstart : mover.retainedEnd = start.destination)
    (hcaptured : ∀ label ∈ labels, label.source ≠ label.destination →
      Captured original mover.scratch label.scratchOffset label.source label.bytes)
    (hretains : Retains original bound
      (fun address => Stationary labels address ∨ unread ≤ address ∧ address < bound)
      placed mover) :
    Safely (run.placeLabels sourceBegin admitted labels mover) (fun after =>
      after.retainedEnd ≤ stop.destination ∧
        Retains original bound (fun address => unread ≤ address ∧ address < bound)
          (fun d s => placed d s ∨ Delivers labels d s) after) := by
  induction labels generalizing start mover placed with
  | nil =>
      refine Meets.pure ⟨?_, ?_⟩
      · rw [hstart]
        exact hchain.le.1
      · refine hretains.consequence (fun _ hin => .inr hin) ?_
        rintro d s (hplaced | ⟨label, hmem, -⟩)
        · exact hplaced
        · cases hmem
  | cons label rest ih =>
      have hfirst := hchain.mem_bounds List.mem_cons_self
      have halign := le_alignUp_page (label.destination + label.bytes)
      have hlive := hretains.live_le
      have hlater : ∀ address, (Stationary rest address ∨ unread ≤ address ∧ address < bound) →
          label.source + label.bytes ≤ address ∧ label.destination + label.bytes ≤ address := by
        rintro address (⟨other, hmem, -, hlow, -⟩ | ⟨hlow, -⟩)
        · obtain ⟨-, -, hsource, -⟩ := hchain.2.mem_bounds hmem
          unfold Frontier.past at hsource
          simp only at hsource
          omega
        · omega
      have hholds : Holds original bound mover.retainedLiveEnd
          (fun address => Stationary [label] address ∨
            (Stationary rest address ∨ unread ≤ address ∧ address < bound)) placed mover.file := by
        refine hretains.holds.consequence (Nat.le_refl _) hretains.holds.low_le ?_
          (fun _ _ h => h)
        rintro address (⟨other, hmem, hinside⟩ | ⟨other, hmem, hinside⟩ | hin)
        · cases List.mem_singleton.mp hmem
          exact .inl ⟨label, List.mem_cons_self, hinside⟩
        · exact .inl ⟨other, List.mem_cons_of_mem _ hmem, hinside⟩
        · exact .inr hin
      refine (run.placeLabel_safely admitted (by omega) hfirst.2.1 (by omega)
        (fun address hin => (hlater address hin).2) (hcaptured label List.mem_cons_self)
        hholds).bind ?_
      rintro written ⟨htouches, hplaced⟩
      refine (written.retain_safely _).bind ?_
      intro kept hkept
      have hkeeps := hplaced.retain hkept
      have hfreed : Safely
          (if admitted = true then .ok kept
          else run.reclaimBetween (max sourceBegin kept.retainedEnd)
            (label.source + label.bytes) kept)
          (kept.Touches fun address =>
            kept.retainedEnd ≤ address ∧ address < label.source + label.bytes) := by
        refine Meets.branch (fun _ => Meets.pure (Mover.Touches.refl _ _)) (fun _ => ?_)
        refine (run.reclaimBetween_safely kept _ _).weaken fun after h => h.widen ?_
        rintro address ⟨hlow, hhigh⟩
        have := le_alignUp_page (max sourceBegin kept.retainedEnd)
        exact ⟨by omega, hhigh⟩
      refine hfreed.bind ?_
      intro freed hfreed
      have hkept' := hkeeps.touch hfreed (by
        rintro address ⟨hlow, hhigh⟩
        refine ⟨Nat.le_trans hkeeps.live_le hlow, fun hin => ?_⟩
        exact absurd hhigh (Nat.not_lt.mpr (hlater address hin).1))
      refine (ih hchain.2 freed ?_ ?_ hkept').weaken ?_
      · exact hfreed.frames.retainedEnd_eq.trans hkept.retainedEnd_eq
      · intro other hmem hmoves
        rw [hfreed.scratch_eq, hkept.scratch_eq, htouches.scratch_eq]
        exact hcaptured other (List.mem_cons_of_mem _ hmem) hmoves
      · rintro after ⟨hend, hafter⟩
        refine ⟨hend, hafter.consequence (fun _ hin => hin) ?_⟩
        rintro d s (hplaced | ⟨other, hmem, hmoved⟩)
        · exact .inl (.inl hplaced)
        · rcases List.mem_cons.mp hmem with rfl | hmem
          · exact .inl (.inr hmoved)
          · exact .inr ⟨other, hmem, hmoved⟩

theorem flushLabels_safely {unread destination : Nat} {mover : Mover}
    (h : Queued run original bound unread destination placed mover) :
    Safely (run.flushLabels unread mover) (fun after =>
      after.labels = [] ∧
        Queued run original bound unread destination
          (fun d s => placed d s ∨ Delivers mover.labels d s) after) := by
  unfold flushLabels
  split
  · next hnone =>
    refine Meets.pure ⟨hnone, { h with retains := h.retains.consequence (fun _ hin => hin) ?_ }⟩
    rintro d s (hplaced | ⟨label, hmem, -⟩)
    · exact hplaced
    · rw [hnone] at hmem
      cases hmem
  · next first rest hqueue =>
    have hchain := h.chained
    have hretains := h.retains
    rw [hqueue] at hchain hretains ⊢
    have hintact : ∀ address, Pending (first :: rest) address →
        mover.file.byte address = original address := fun address hin =>
      hretains.holds.relocated.intact_eq address (.inl hin)
    refine (run.gatherLabels_safely (Nat.le_refl unread) (first :: rest) hchain
      ⟨[], [], mover.retainedEnd⟩ mover rfl hintact).bind ?_
    rintro ⟨gathered, read⟩ ⟨hreads, -, hcaptured, hgaps⟩
    refine (run.tryAllocate_safely read gathered.destinations).bind ?_
    rintro ⟨admitted, granted⟩ hgranted
    refine (run.reclaim_safely granted gathered.gaps).bind ?_
    intro freed hfreed
    have hgranted' := (hretains.reads hreads).touch hgranted fun _ hin => hin.elim
    have hend : granted.retainedEnd = mover.retainedEnd :=
      hgranted.frames.retainedEnd_eq.trans hreads.frames.retainedEnd_eq
    have hclear : ∀ gap ∈ gathered.gaps,
        Clear ⟨mover.retainedEnd, 0, 0⟩ (first :: rest) unread gap := by
      intro gap hmem
      rcases hgaps gap hmem with hnone | hclear
      · cases hnone
      · exact hclear
    have hheld := hgranted'.captured hend hclear hfreed
    refine (run.placeLabels_safely first.source admitted (Nat.le_refl unread) h.unread_le
      (first :: rest) hchain freed (hfreed.frames.retainedEnd_eq.trans hend) ?_ hheld).bind ?_
    · intro label hmem hmoves
      rw [hfreed.scratch_eq, hgranted.scratch_eq]
      exact hcaptured label hmem hmoves
    · rintro delivered ⟨hstop, hdelivered⟩
      simp only
      generalize hlast : (first :: rest).getLast (List.cons_ne_nil first rest) = last
      have hlastMem : last ∈ first :: rest := by
        rw [← hlast]
        exact List.getLast_mem _
      have hlastUnread : last.source + last.bytes ≤ unread :=
        (hchain.mem_bounds hlastMem).2.2.2.2.2.1
      have hreclaimed : Safely
          (if admitted = true then
            run.reclaimBetween (max first.source delivered.retainedEnd)
              (last.source + last.bytes) delivered
          else .ok delivered)
          (delivered.Touches fun address =>
            delivered.retainedEnd ≤ address ∧ address < unread) := by
        refine Meets.branch (fun _ => ?_) (fun _ => Meets.pure (Mover.Touches.refl _ _))
        refine (run.reclaimBetween_safely delivered _ _).weaken fun after h => h.widen ?_
        rintro address ⟨hlow, hhigh⟩
        have := le_alignUp_page (max first.source delivered.retainedEnd)
        exact ⟨by omega, by omega⟩
      refine hreclaimed.bind ?_
      intro after hafter
      have hkept := hdelivered.touch hafter (by
        rintro address ⟨hlow, hhigh⟩
        exact ⟨Nat.le_trans hdelivered.live_le hlow, fun hin => by omega⟩)
      refine Meets.pure ⟨rfl, ⟨?_, ?_, Nat.zero_le _, fun _ => rfl, h.unread_le⟩⟩
      · refine Retains.consequence ⟨hkept.holds, hkept.retained_eq⟩ ?_ (fun _ _ h => h)
        rintro address (⟨label, hmem, -⟩ | hin)
        · cases hmem
        · exact hin
      · refine ⟨?_, Nat.zero_le _, Nat.le_refl _⟩
        show after.retainedEnd ≤ destination
        rw [hafter.frames.retainedEnd_eq]
        exact hstop

end Compaction

end Mmltk.Compiled
