import Mmltk.Coconut.RecoverySound

namespace Mmltk.Coconut

open Mmltk.Foundation
open Mmltk.Dataset (RLEPair RowMajorMaskBounds MaskError TightBounds Foreground)

/-! What the recovery of an image leaves: recovered masks, and the others without their pixels. -/

namespace CoconutMaskRecovery

variable {index : NormalizedAnnotationIndex} {width height : Nat}
  {segments : List CoconutRecordSegment} {support : List Support} {boxes others : List NormalizedBox}

/-- A pixel of a recovered mask. -/
def RecoveredPixel (index : NormalizedAnnotationIndex) (pixels : Nat)
    (segments : List CoconutRecordSegment) (support : List Support) (boxes : List NormalizedBox)
    (pixel : Nat) : Prop :=
  ∃ ordinal box, Assigned index pixels segments support boxes ordinal box ∧
    Foreground (index.runsOf box) pixel

/-- A support that is recovered from a box. -/
structure RecoveredAs (index : NormalizedAnnotationIndex) (width pixels : Nat) (box : NormalizedBox)
    (after : Support) : Prop where
  recovered : after.recovered = some box
  held : Held width pixels after
  pixels : ∀ pixel, Foreground after.runs.view pixel ↔ Foreground (index.runsOf box) pixel
  carved : after.carved = false

/-- The supports after the recovery. -/
structure Applied (index : NormalizedAnnotationIndex) (width pixels : Nat)
    (segments : List CoconutRecordSegment) (support : List Support) (boxes : List NormalizedBox)
    (after : List Support) : Prop where
  length : after.length = support.length
  recovered : ∀ ordinal box, Assigned index pixels segments support boxes ordinal box →
    ∃ own, after[ordinal]? = some own ∧ RecoveredAs index width pixels box own
  others : ∀ (ordinal : Nat) segment before, segments[ordinal]? = some segment →
    support[ordinal]? = some before → segment.isthing = true →
      (∀ box, ¬ Assigned index pixels segments support boxes ordinal box) →
        ∃ own, after[ordinal]? = some own ∧
          CarvedFrom width pixels (RecoveredPixel index pixels segments support boxes) before own
  stuff : ∀ (ordinal : Nat) segment before, segments[ordinal]? = some segment →
    support[ordinal]? = some before → segment.isthing = false → after[ordinal]? = some before

theorem carve_skip {union : Union} {segment : CoconutRecordSegment} {before : Support}
    (h : segment.isthing = false ∨ before.recovered.isSome = true) :
    carve width union segment before = .ok before := by
  rw [carve]
  split
  next => rfl
  next =>
    refine if_pos ?_
    rcases h with hstuff | hrecovered
    · rw [hstuff]
      rfl
    · rw [hrecovered, Bool.or_true, Bool.true_or]

theorem carveAll_spec {union : Union} (hlength : support.length = segments.length)
    (h : ∀ (ordinal : Nat) segment before, segments[ordinal]? = some segment →
      support[ordinal]? = some before → ∃ after, carve width union segment before = .ok after) :
    ∃ after, carveAll width union segments support = .ok after ∧ after.length = support.length ∧
      ∀ (ordinal : Nat) segment before, segments[ordinal]? = some segment →
        support[ordinal]? = some before → ∃ own, after[ordinal]? = some own ∧
          carve width union segment before = .ok own := by
  induction segments generalizing support with
  | nil =>
      rw [List.length_eq_zero_iff.mp hlength]
      exact ⟨[], rfl, rfl, nofun⟩
  | cons segment segments ih =>
      cases support with
      | nil => cases hlength
      | cons before support =>
          obtain ⟨own, hown⟩ := h 0 segment before rfl rfl
          obtain ⟨after, hafter, hsize, hall⟩ := ih (Nat.succ.inj hlength)
            fun ordinal => h (ordinal + 1)
          refine ⟨own :: after, ?_, congrArg Nat.succ hsize, fun ordinal other previous hother hprevious => ?_⟩
          · rw [carveAll, hown]
            dsimp only [bind, Except.bind]
            rw [hafter]
            rfl
          · cases ordinal with
            | zero =>
                cases hother
                cases hprevious
                exact ⟨own, rfl, hown⟩
            | succ ordinal => exact hall ordinal other previous hother hprevious

theorem recoverSegment_spec (h : Sized width (width * height)) {box : NormalizedBox}
    (hvalid : ValidMask index (width * height) box) (slot : Nat) {before : Support}
    (hcarved : before.carved = false) :
    RecoveredAs index width (width * height) box
      (recoverSegment before (fillBox index width height slot box)) := by
  obtain ⟨-, hfilled⟩ := (@fillBox_eq _ _ _ slot) h hvalid
  have hruns : (fillBox index width height slot box).runs = index.runsOf box := hfilled.runs
  have hview : (recoverSegment before (fillBox index width height slot box)).runs.view =
      index.runsOf box := by
    rw [recoverSegment, CoconutSupportRuns.view]
    dsimp only
    rw [hruns]
    split
    next hnil => exact (List.isEmpty_iff.mp hnil).symm
    next => rfl
  refine ⟨congrArg some hfilled.box, ⟨hview ▸ hvalid.2, ?_, ?_⟩, fun pixel => by rw [hview], hcarved⟩
  · rw [hview, ← hruns]
    exact hfilled.area
  · rw [hview, ← hruns]
    exact hfilled.bounds

/-- The union is carved out of what the pairs leave. -/
def finish (width : Nat) (record : CoconutRecord) (recovery : Recovery) :
    Except MaskError (List Support × List CoconutRecoveredObject) :=
  if recovery.merge = [] then .ok (recovery.support, recovery.objects)
  else do
    let union ← unite width recovery.merge
    let support ← carveAll width union record.segments recovery.support
    return (support, recovery.objects)

section

variable {ordinal : Nat} {box : NormalizedBox} {assigned : List Support}

theorem AssignedTo.recovered (h : Sized width (width * height))
    (hdecoded : Decoded width (width * height) segments support)
    (hassigned : AssignedTo support (plan index width height segments support boxes) assigned)
    (hbox : Assigned index (width * height) segments support boxes ordinal box) :
    ∃ own, assigned[ordinal]? = some own ∧ RecoveredAs index width (width * height) box own := by
  obtain ⟨slot, hmem⟩ := mem_plan hbox
  have hown := hassigned.own ordinal _ hmem
  have hdropped := hbox.dropped
  cases hsupport : support[ordinal]? with
  | none =>
      rw [dropped, hsupport] at hdropped
      cases hsegment : segments[ordinal]? with
      | none => rw [hsegment] at hdropped; cases hdropped
      | some segment => rw [hsegment] at hdropped; cases hdropped
  | some before =>
      rw [hsupport] at hown
      exact ⟨_, hown, recoverSegment_spec h hbox.validMask slot
        (hdecoded.untouched before (List.mem_of_getElem? hsupport)).2⟩

theorem AssignedTo.kept
    (hassigned : AssignedTo support (plan index width height segments support boxes) assigned)
    (hnone : ∀ box, ¬ Assigned index (width * height) segments support boxes ordinal box) :
    assigned[ordinal]? = support[ordinal]? := by
  refine hassigned.others ordinal fun hmem => ?_
  obtain ⟨⟨other, candidate⟩, hpair, rfl⟩ := List.mem_map.mp hmem
  obtain ⟨slot, box, -, hbox⟩ := of_mem_plan hpair
  exact hnone box hbox

theorem Assigned.isthing {pixels : Nat} {segment : CoconutRecordSegment}
    (hbox : Assigned index pixels segments support boxes ordinal box)
    (hsegment : segments[ordinal]? = some segment) : segment.isthing = true := by
  have hmember := member_of_dropped hbox.dropped
  rw [member, hsegment] at hmember
  cases hsupport : support[ordinal]? with
  | none => rw [hsupport] at hmember; cases hmember
  | some before =>
      rw [hsupport] at hmember
      simp only [Bool.and_eq_true] at hmember
      exact hmember.2

end

/-- The masks that are united are those of the boxes that are assigned. -/
theorem plan_runs (h : Sized width (width * height)) {merge : List (List RLEPair)}
    (hmerge : merge = (plan index width height segments support boxes).map fun pair => pair.2.runs) :
    (∀ runs ∈ merge, Fits (width * height) 0 runs) ∧
      ∀ pixel, (∃ runs ∈ merge, Foreground runs pixel) ↔
        RecoveredPixel index (width * height) segments support boxes pixel := by
  have hruns : ∀ slot box, ValidMask index (width * height) box →
      (fillBox index width height slot box).runs = index.runsOf box := fun slot box hvalid =>
    (fillBox_eq h hvalid).2.runs
  subst hmerge
  constructor
  · intro runs hmem
    obtain ⟨⟨ordinal, candidate⟩, hpair, rfl⟩ := List.mem_map.mp hmem
    obtain ⟨slot, box, rfl, hbox⟩ := of_mem_plan hpair
    dsimp only
    rw [hruns slot box hbox.validMask]
    exact hbox.validMask.2
  · intro pixel
    constructor
    · intro ⟨runs, hmem, hin⟩
      obtain ⟨⟨ordinal, candidate⟩, hpair, rfl⟩ := List.mem_map.mp hmem
      obtain ⟨slot, box, rfl, hbox⟩ := of_mem_plan hpair
      exact ⟨ordinal, box, hbox, hruns slot box hbox.validMask ▸ hin⟩
    · intro ⟨ordinal, box, hbox, hin⟩
      obtain ⟨slot, hmem⟩ := mem_plan hbox
      exact ⟨_, List.mem_map_of_mem hmem, hruns slot box hbox.validMask ▸ hin⟩

theorem carveAll_applied {union : Union} {assigned : List Support}
    (h : Sized width (width * height))
    (hdecoded : Decoded width (width * height) segments support)
    (hassigned : AssignedTo support (plan index width height segments support boxes) assigned)
    (hseparated : Separated 1 (union.combined.map RLEPair.interval))
    (hbounds : TightBounds width (Foreground union.combined) union.bounds)
    (hsame : Foreground union.combined =
      RecoveredPixel index (width * height) segments support boxes) :
    ∃ after, carveAll width union segments assigned = .ok after ∧
      Applied index width (width * height) segments support boxes after := by
  -- A segment that got no box is as it was, and is carved if it is a thing.
  have hkept : ∀ (ordinal : Nat) segment before, segments[ordinal]? = some segment →
      support[ordinal]? = some before → segment.isthing = true →
        ∃ own, carve width union segment before = .ok own ∧
          CarvedFrom width (width * height)
            (RecoveredPixel index (width * height) segments support boxes) before own := by
    intro ordinal segment before hsegment hbefore hthing
    obtain ⟨hrecovered, hcarved⟩ := hdecoded.untouched before (List.mem_of_getElem? hbefore)
    exact hsame ▸ carve_spec h (hdecoded.held ordinal segment before hsegment hbefore hthing) hthing
      hcarved hrecovered hseparated hbounds
  have hcarve : ∀ (ordinal : Nat) segment own, segments[ordinal]? = some segment →
      assigned[ordinal]? = some own → ∃ after, carve width union segment own = .ok after := by
    intro ordinal segment own hsegment hown
    cases hthing : segment.isthing with
    | false => exact ⟨own, carve_skip (.inl hthing)⟩
    | true =>
        cases Classical.em
            (∃ box, Assigned index (width * height) segments support boxes ordinal box) with
        | inl hsome =>
            obtain ⟨box, hbox⟩ := hsome
            obtain ⟨found, hfound, hrecovered⟩ := hassigned.recovered h hdecoded hbox
            obtain rfl := Option.some.inj (hown.symm.trans hfound)
            exact ⟨own, carve_skip (.inr (by rw [hrecovered.recovered]; rfl))⟩
        | inr hnone =>
            rw [hassigned.kept (not_exists.mp hnone)] at hown
            exact (hkept ordinal segment own hsegment hown hthing).imp fun _ hcarved => hcarved.1
  obtain ⟨after, hafter, hlength, hall⟩ :=
    carveAll_spec (hassigned.length.trans hdecoded.length) hcarve
  refine ⟨after, hafter, hlength.trans hassigned.length, fun ordinal box hbox => ?_, ?_, ?_⟩
  · obtain ⟨own, hown, hrecovered⟩ := hassigned.recovered h hdecoded hbox
    have hslot : ordinal < segments.length := by
      rw [← hdecoded.length, ← hassigned.length]
      exact (List.getElem?_eq_some_iff.mp hown).1
    obtain ⟨final, hfinal, hsource⟩ := hall ordinal _ own (List.getElem?_eq_getElem hslot) hown
    rw [carve_skip (.inr (by rw [hrecovered.recovered]; rfl))] at hsource
    cases hsource
    exact ⟨own, hfinal, hrecovered⟩
  · intro ordinal segment before hsegment hbefore hthing hnone
    obtain ⟨final, hfinal, hsource⟩ := hall ordinal segment before hsegment
      ((hassigned.kept hnone).trans hbefore)
    obtain ⟨own, hown, hcarved⟩ := hkept ordinal segment before hsegment hbefore hthing
    cases hsource.symm.trans hown
    exact ⟨final, hfinal, hcarved⟩
  · intro ordinal segment before hsegment hbefore hstuff
    have hnone : ∀ box, ¬ Assigned index (width * height) segments support boxes ordinal box := by
      intro box hbox
      rw [hbox.isthing hsegment] at hstuff
      cases hstuff
    obtain ⟨final, hfinal, hsource⟩ := hall ordinal segment before hsegment
      ((hassigned.kept hnone).trans hbefore)
    rw [carve_skip (.inl hstuff)] at hsource
    cases hsource
    exact hfinal

theorem finish_spec (h : Sized width (width * height)) {record : CoconutRecord}
    (hdecoded : Decoded width (width * height) record.segments support) {recovery : Recovery}
    (hmerge : recovery.merge = (plan index width height record.segments support boxes).map
      fun pair => pair.2.runs)
    (hassigned : AssignedTo support (plan index width height record.segments support boxes)
      recovery.support) :
    ∃ after, finish width record recovery = .ok (after, recovery.objects) ∧
      Applied index width (width * height) record.segments support boxes after := by
  rw [finish]
  split
  next hnil =>
    have hnone : ∀ ordinal box,
        ¬ Assigned index (width * height) record.segments support boxes ordinal box := by
      intro ordinal box hbox
      obtain ⟨slot, hmem⟩ := mem_plan hbox
      rw [List.map_eq_nil_iff.mp (hmerge.symm.trans hnil)] at hmem
      cases hmem
    refine ⟨recovery.support, rfl, hassigned.length, fun ordinal box hbox =>
      absurd hbox (hnone ordinal box), ?_, ?_⟩
    · intro ordinal segment before hsegment hbefore hthing _
      obtain ⟨hrecovered, hcarved⟩ := hdecoded.untouched before (List.mem_of_getElem? hbefore)
      refine ⟨before, (hassigned.kept (hnone ordinal)).trans hbefore,
        .same (hdecoded.held ordinal segment before hsegment hbefore hthing) hcarved hrecovered ?_⟩
      exact fun pixel _ ⟨other, box, hbox, _⟩ => hnone other box hbox
    · exact fun ordinal segment before _ hbefore _ =>
        (hassigned.kept (hnone ordinal)).trans hbefore
  next hsome =>
    obtain ⟨hfits, hpixels⟩ := plan_runs h hmerge
    obtain ⟨union, hunite, hseparated, hcovered, hbounds⟩ := unite_spec h hfits
    have hsame : Foreground union.combined =
        RecoveredPixel index (width * height) record.segments support boxes :=
      funext fun pixel => propext ((hcovered pixel).trans (hpixels pixel))
    obtain ⟨after, hafter, happlied⟩ := carveAll_applied h hdecoded hassigned hseparated
      (hbounds.congr fun pixel => (hcovered pixel).symm) hsame
    refine ⟨after, ?_, happlied⟩
    rw [hunite]
    dsimp only [bind, Except.bind]
    rw [hafter]
    rfl

/-! The recovery as a whole. -/

/-- The original of an image: it has the image's dimensions, and its boxes. -/
structure Original (index : NormalizedAnnotationIndex) (imageId width height : Nat)
    (image : NormalizedImage) : Prop where
  found : index.find imageId = some image
  dimensions : image.width = width ∧ image.height = height
  span : image.firstBox + image.boxCount ≤ index.boxes.length

theorem plan_eq_nil (h : ∀ ordinal, dropped segments support ordinal = false) :
    plan index width height segments support boxes = [] := by
  refine List.eq_nil_iff_forall_not_mem.mpr fun ⟨ordinal, candidate⟩ hmem => ?_
  obtain ⟨slot, box, -, hbox⟩ := of_mem_plan hmem
  have hdropped := hbox.dropped
  rw [h ordinal] at hdropped
  cases hdropped

theorem apply_eq (h : Sized width (width * height)) (hheight : 0 < height)
    {record : CoconutRecord} {image : NormalizedImage}
    (hdecoded : Decoded width (width * height) record.segments support)
    (horiginal : Original index record.imageId width height image)
    (objects : List CoconutRecoveredObject) :
    apply (some index) record width height support objects =
      assign record ⟨support, [], objects⟩
        (plan index width height record.segments support (index.boxesOf image)) >>=
          finish width record := by
  obtain ⟨hwidth, hsameHeight⟩ := horiginal.dimensions
  have hspan := horiginal.span
  have hfound : ((some index).bind fun index => (index.find record.imageId).map fun image =>
      (index, image)) = some (index, image) := by
    rw [Option.bind_some, horiginal.found, Option.map_some]
  rw [apply, hfound]
  dsimp only
  have hpixels := h.pixels_lt
  have hpos := h.width_pos
  have hlength := hdecoded.length
  rw [if_neg (by omega)]
  split
  next hnone =>
    rw [plan_eq_nil fun ordinal => ?_]
    · rfl
    · rw [Bool.not_eq_true, List.any_eq_false] at hnone
      refine Bool.eq_false_iff.mpr fun hdropped => ?_
      have hmember := (mem_ordinals _ _).mpr (member_of_dropped hdropped)
      rw [(ordinals_perm record.segments support).mem_iff] at hmember
      exact hnone ordinal (List.mem_filter.mp hmember).1 hdropped
  next =>
    rw [recovery_eq h hdecoded rfl]
    rfl

/-! The order of an image's boxes does not matter. -/

theorem assignments_perm {pixels : Nat} {own : GroupKey} (h : boxes.Perm others) :
    assignments index pixels segments support boxes own =
      assignments index pixels segments support others own := by
  have hown : (boxesWith boxes own).Perm (boxesWith others own) := h.filter _
  rw [assignments, assignments]
  split
  next hrecover =>
    have hother : RecoverableGroup index pixels segments support others own := hrecover.perm hown
    rw [if_pos hother, unmatched_perm hown hrecover.identities]
  next hnot =>
    rw [if_neg fun (hother : RecoverableGroup index pixels segments support others own) =>
      hnot (hother.perm hown.symm)]

/-- A plan is made of the masks of its index, not of the boxes. -/
theorem recoverable_boxes {pixels count : Nat} {survives : Nat → Prop}
    (all : List NormalizedBox)
    (h : Recoverable index pixels support count survives boxes) :
    Recoverable { index with boxes := all } pixels support count survives boxes :=
  ⟨h.number, h.masks, h.identities, h.sole, h.own⟩

theorem plan_boxes (all : List NormalizedBox) :
    plan { index with boxes := all } width height segments support boxes =
      plan index width height segments support boxes := by
  have hrecover : ∀ own, RecoverableGroup { index with boxes := all } (width * height) segments
      support boxes own ↔ RecoverableGroup index (width * height) segments support boxes own :=
    fun own => ⟨recoverable_boxes index.boxes, recoverable_boxes all⟩
  have hassignments : ∀ own, assignments { index with boxes := all } (width * height) segments
      support boxes own = assignments index (width * height) segments support boxes own := by
    classical
    intro own
    rw [assignments, assignments]
    exact if_congr (hrecover own) rfl rfl
  have hfill : ∀ slot box, fillBox { index with boxes := all } width height slot box =
      fillBox index width height slot box := fun _ _ => rfl
  simp only [plan, hassignments, hfill]

theorem plan_perm (h : boxes.Perm others) :
    plan index width height segments support boxes =
      plan index width height segments support others := by
  simp only [plan, assignments_perm h]

/-- The recovery of an image: a group's dropped segments get the boxes that no survivor of the group
stands for if there are as many boxes as segments, with valid masks and distinct annotation ids, and
each survivor touches one box, which no other survivor does; their pixels are taken from the other
things. The order of the boxes does not matter. -/
theorem apply_spec {record : CoconutRecord} {image : NormalizedImage}
    (hwidth : 0 < width) (hheight : 0 < height) (hpixels : width * height < 2 ^ 32)
    (hdecoded : Decoded width (width * height) record.segments support)
    (horiginal : Original index record.imageId width height image)
    (objects : List CoconutRecoveredObject) :
    ((∃ ordinal box, Assigned index (width * height) record.segments support (index.boxesOf image)
        ordinal box ∧ overflows record ordinal) →
      apply (some index) record width height support objects =
        .error (.runtime "COCONut: source ordinal overflow")) ∧
    ((∀ ordinal box, Assigned index (width * height) record.segments support (index.boxesOf image)
        ordinal box → ¬ overflows record ordinal) →
      ∃ after facts, apply (some index) record width height support objects = .ok (after, facts) ∧
        Applied index width (width * height) record.segments support (index.boxesOf image) after) ∧
    (∀ ordinal, dropped record.segments support ordinal = true →
      ((∃ box, Assigned index (width * height) record.segments support (index.boxesOf image)
          ordinal box) ↔
        RecoverableGroup index (width * height) record.segments support (index.boxesOf image)
          (key record.segments ordinal))) ∧
    (∀ boxes : List NormalizedBox, image.firstBox + image.boxCount ≤ boxes.length →
      (({ index with boxes } : NormalizedAnnotationIndex).boxesOf image).Perm (index.boxesOf image) →
        apply (some { index with boxes }) record width height support objects =
          apply (some index) record width height support objects) := by
  have h : Sized width (width * height) :=
    ⟨hwidth, (Nat.le_mul_of_pos_right _ hheight).trans_lt hpixels, hpixels⟩
  obtain ⟨hfits, hoverflows⟩ := (@assign_spec record ⟨support, [], objects⟩)
    ((@plan_nodup index width height record.segments support (index.boxesOf image)))
  refine ⟨fun ⟨ordinal, box, hbox, hover⟩ => ?_, fun hall => ?_, fun ordinal hdropped =>
    assigned_iff h hdecoded hdropped, fun boxes hspan hperm => ?_⟩
  · obtain ⟨slot, hmem⟩ := mem_plan hbox
    rw [apply_eq h hheight hdecoded horiginal, hoverflows ⟨_, hmem, hover⟩]
    rfl
  · obtain ⟨assigned, facts, hassign, hassigned⟩ := hfits fun ⟨ordinal, candidate⟩ hmem => by
      obtain ⟨slot, box, -, hbox⟩ := of_mem_plan hmem
      exact hall ordinal box hbox
    obtain ⟨after, hafter, happlied⟩ := @finish_spec _ _ _ _ _ h _ hdecoded
      ⟨assigned, _, facts⟩ (List.nil_append _) hassigned
    refine ⟨after, facts, ?_, happlied⟩
    rw [apply_eq h hheight hdecoded horiginal, hassign]
    exact hafter
  · have hother : Original { index with boxes } record.imageId width height image :=
      ⟨horiginal.found, horiginal.dimensions, hspan⟩
    rw [apply_eq h hheight hdecoded horiginal, apply_eq h hheight hdecoded hother, plan_boxes,
      plan_perm hperm]

/-- A survivor and a dropped segment of one category. -/
def pairRecord : CoconutRecord :=
  ⟨7, 0, [⟨⟨1, true, true⟩, 5, false, false, false⟩, ⟨⟨2, true, true⟩, 5, false, false, false⟩]⟩

/-- The survivor has the first of two pixels. -/
def pairSupport : List Support :=
  [⟨1, Dataset.runBox 0 1 2, ⟨[⟨0, 1⟩], []⟩, none, false, true⟩, ⟨0, {}, ⟨[], []⟩, none, false, true⟩]

def pairBox (annotationId offset : Nat) : NormalizedBox :=
  ⟨0, 0, 0x3f800000, 0x3f800000, offset, 1, 0, 25, 0, annotationId, 5, 0⟩

def pairIndex : NormalizedAnnotationIndex :=
  ⟨[⟨7, 0, 2, 2, 1⟩], [pairBox 9 1, pairBox 8 0], [⟨0, 1⟩, ⟨1, 1⟩]⟩

theorem pairSupport_decoded : Decoded 2 2 pairRecord.segments pairSupport := by
  have hsurvivor : Held 2 2 ⟨1, Dataset.runBox 0 1 2, ⟨[⟨0, 1⟩], []⟩, none, false, true⟩ :=
    ⟨fits_cons.mpr ⟨by decide, fits_nil⟩, rfl,
      (Dataset.runBox_tight (by decide) (by decide)).congr fun pixel => covered_singleton.symm⟩
  have hdropped : Held 2 2 ⟨0, {}, ⟨[], []⟩, none, false, true⟩ :=
    ⟨fits_nil, rfl, TightBounds.nothing.congr fun pixel => (iff_of_false covered_nil not_false).symm⟩
  refine ⟨rfl, fun ordinal segment own hsegment hown _ => ?_, by decide,
    fun ordinal other hmember hother hsame => ?_⟩
  · match ordinal with
    | 0 => cases hown; exact hsurvivor
    | 1 => cases hown; exact hdropped
    | _ + 2 => cases hown
  · match ordinal, other with
    | 0, 0 | 1, 1 => rfl
    | 0, 1 | 1, 0 => cases hsame
    | _ + 2, _ => cases hmember
    | _, _ + 2 => cases hother

theorem apply_spec_pair : ∃ after facts,
    apply (some pairIndex) pairRecord 2 1 pairSupport [] = .ok (after, facts) ∧
      Applied pairIndex 2 2 pairRecord.segments pairSupport pairIndex.boxes after := by
  obtain ⟨-, hrecovered, -, -⟩ := (@apply_spec pairIndex 2 1 _ pairRecord ⟨7, 0, 2, 2, 1⟩) (by decide) (by decide) (by decide)
    pairSupport_decoded ⟨by decide, by decide, by decide⟩ []
  refine hrecovered fun ordinal box hbox hover => ?_
  obtain ⟨hmem, -⟩ := List.mem_filter.mp ((ordinals_perm _ _).mem_iff.mp
    ((mem_ordinals _ _).mpr (member_of_dropped hbox.dropped)))
  have hless : ordinal < 2 := List.mem_range.mp hmem
  have hlarge : 2 ^ 64 - 1 - 0 < ordinal := hover
  omega

end CoconutMaskRecovery

end Mmltk.Coconut
