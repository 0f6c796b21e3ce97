import Mathlib.Tactic.Linarith
import Mmltk.Sampling.Memberships
import Mmltk.Sampling.Sources

namespace Mmltk.Sampling

open SourceSelection (Sound Free Moved Chose)

/-! The greedy choice: it ends, selects no image twice and leaves room for the Open Images. -/

/-- Whether a class can be served. -/
def Servable (objects openImages : SourceSelection) (openOnly openAllowed : Bool) (classId : Nat) :
    Prop :=
  (openOnly = false ∧ objects.Free classId) ∨ (openAllowed = true ∧ openImages.Free classId)

section

variable {combined : Nat → Nat} {openOnly openAllowed : Bool} {objects openImages : SourceSelection}
  {rarest : Rarest} {classId : Nat}

/-- What is known when some classes have been considered. -/
structure Considered (objects openImages : SourceSelection) (openOnly openAllowed : Bool)
    (classes : List Nat) (rarest : Rarest) : Prop where
  object : objects.Moved rarest.objects ∧ rarest.objects.Sound
  opened : openImages.Moved rarest.openImages ∧ rarest.openImages.Sound
  chosen : (rarest.chosen = classCount ∧ rarest.chosenCount = 2 ^ 64 - 1 ∧
      ∀ classId ∈ classes, ¬ Servable objects openImages openOnly openAllowed classId) ∨
    (rarest.chosen ∈ classes ∧ rarest.chosenCount < 2 ^ 64 - 1 ∧
      Servable objects openImages openOnly openAllowed rarest.chosen)

theorem Considered.consider {classes : List Nat}
    (h : Considered objects openImages openOnly openAllowed classes rarest)
    (hcombined : combined classId < 2 ^ 64 - 1) :
    Considered objects openImages openOnly openAllowed (classes ++ [classId])
      (considerClass combined openOnly openAllowed rarest classId) := by
  rw [considerClass]
  generalize hobject : (if openOnly = true then (false, rarest.objects)
    else rarest.objects.classCandidateAvailable classId) = objectLook
  have hallowed : (if openAllowed = true then rarest.openImages.classCandidateAvailable classId
      else (false, rarest.openImages)) = if (!openAllowed) = true then (false, rarest.openImages)
        else rarest.openImages.classCandidateAvailable classId := by
    cases openAllowed <;> rfl
  rw [hallowed]
  generalize hopen : (if (!openAllowed) = true then (false, rarest.openImages)
    else rarest.openImages.classCandidateAvailable classId) = openLook
  obtain ⟨hobjectIff, hobjectMoved, hobjectSound⟩ :=
    SourceSelection.look_spec _ h.object.1 h.object.2 classId hobject
  obtain ⟨hopenIff, hopenMoved, hopenSound⟩ :=
    SourceSelection.look_spec _ h.opened.1 h.opened.2 classId hopen
  obtain ⟨objectAvailable, objectSource⟩ := objectLook
  obtain ⟨openAvailable, openSource⟩ := openLook
  dsimp only at *
  have hservable : (objectAvailable || openAvailable) = true ↔
      Servable objects openImages openOnly openAllowed classId := by
    rw [Bool.or_eq_true, hobjectIff, hopenIff, Servable, Bool.not_eq_false']
  split
  next htaken =>
    rw [Bool.and_eq_true, hservable, decide_eq_true_eq] at htaken
    exact ⟨⟨hobjectMoved, hobjectSound⟩, ⟨hopenMoved, hopenSound⟩,
      .inr ⟨List.mem_append_right _ List.mem_cons_self, hcombined, htaken.1⟩⟩
  next hleft =>
    rw [Bool.and_eq_true, hservable, decide_eq_true_eq, not_and] at hleft
    refine ⟨⟨hobjectMoved, hobjectSound⟩, ⟨hopenMoved, hopenSound⟩, ?_⟩
    rcases h.chosen with ⟨hnone, hcount, hall⟩ | ⟨hmem, hcount, hsome⟩
    · refine .inl ⟨hnone, hcount, fun other hother => ?_⟩
      rcases List.mem_append.mp hother with hold | hnew
      · exact hall other hold
      · rw [List.mem_singleton.mp hnew]
        exact fun hserve => hleft hserve (hcount ▸ hcombined)
    · exact .inr ⟨List.mem_append_left _ hmem, hcount, hsome⟩

theorem considered_foldl {classes before : List Nat}
    (hcombined : ∀ classId, combined classId < 2 ^ 64 - 1)
    (h : Considered objects openImages openOnly openAllowed before rarest) :
    Considered objects openImages openOnly openAllowed (before ++ classes)
      (classes.foldl (considerClass combined openOnly openAllowed) rarest) := by
  induction classes generalizing before rarest with
  | nil =>
      rw [List.append_nil]
      exact h
  | cons classId classes ih =>
      have hsplit : before ++ classId :: classes = (before ++ [classId]) ++ classes := by
        rw [List.append_assoc, List.singleton_append]
      rw [hsplit, List.foldl_cons]
      exact ih (h.consider (hcombined classId))

theorem rarestAvailableClass_spec {sampling : Combined} (hobjects : objects.Moved sampling.objects)
    (hobjectSound : sampling.objects.Sound) (hopen : openImages.Moved sampling.openImages)
    (hopenSound : sampling.openImages.Sound)
    (hcombined : ∀ classId, sampling.combined classId < 2 ^ 64 - 1) :
    Considered objects openImages openOnly openAllowed (List.range classCount)
      (rarestAvailableClass sampling openOnly openAllowed) :=
  (@considered_foldl _ _ _ _ _ _ _ []) hcombined
    ⟨⟨hobjects, hobjectSound⟩, ⟨hopen, hopenSound⟩, .inl ⟨rfl, rfl, nofun⟩⟩

end

/-! One round. -/

/-- How many images of each source a step selects. -/
structure Step (sampling after : Combined) (objects openImages : Nat) : Prop where
  objectSound : after.objects.Sound
  openSound : after.openImages.Sound
  objectSame : sampling.objects.Same after.objects
  openSame : sampling.openImages.Same after.openImages
  objectCount : after.objects.stats.selectedImages =
    sampling.objects.stats.selectedImages + objects
  openCount : after.openImages.stats.selectedImages =
    sampling.openImages.stats.selectedImages + openImages
  total : after.total = sampling.total + (objects + openImages)
  combined : ∀ classId, after.combined classId ≤ sampling.combined classId + (objects + openImages)

namespace Combined

variable {sampling after : Combined} {classId imageIndex : Nat} {forceOpen openAllowed : Bool}

theorem bump_le {counts : Nat → Nat} (source : SourceSelection) :
    bump counts (source.classesAt imageIndex) classId ≤ counts classId + 1 :=
  Nat.add_le_add_left (List.nodup_iff_count_le_one.mp (ClassMembership.classes_nodup _) classId) _

theorem step_moved {objects openImages : SourceSelection}
    (hobjects : sampling.objects.Moved objects) (hobjectSound : objects.Sound)
    (hopen : sampling.openImages.Moved openImages) (hopenSound : openImages.Sound) :
    Step sampling { sampling with objects, openImages } 0 0 where
  objectSound := hobjectSound
  openSound := hopenSound
  objectSame := hobjects.same
  openSame := hopen.same
  objectCount := congrArg SupplementalSamplingStats.selectedImages hobjects.stats
  openCount := congrArg SupplementalSamplingStats.selectedImages hopen.stats
  total := rfl
  combined _ := Nat.le_refl _

theorem step_of_moved {objects openImages : SourceSelection} {moreObjects moreOpen : Nat}
    (hobjects : sampling.objects.Moved objects) (hopen : sampling.openImages.Moved openImages)
    (h : Step { sampling with objects, openImages } after moreObjects moreOpen) :
    Step sampling after moreObjects moreOpen where
  objectSound := h.objectSound
  openSound := h.openSound
  objectSame := hobjects.same.trans h.objectSame
  openSame := hopen.same.trans h.openSame
  objectCount := h.objectCount.trans (by rw [hobjects.stats])
  openCount := h.openCount.trans (by rw [hopen.stats])
  total := h.total
  combined := h.combined

theorem selectObject_spec {next : Option Nat} (h : sampling.objects.SoundBut next)
    (hopen : sampling.openImages.Sound) (hnext : next = none ∨ next = some imageIndex)
    (hmem : imageIndex ∈ sampling.objects.order)
    (hfree : sampling.objects.selected imageIndex = false) :
    ∃ after, sampling.selectObject imageIndex = .ok after ∧ Step sampling after 1 0 := by
  obtain ⟨objects, hselect, hsound, hchose⟩ :=
    SourceSelection.selectImage_spec h hnext hmem hfree sampling.combined
  refine ⟨⟨objects, sampling.openImages,
    bump sampling.combined (sampling.objects.classesAt imageIndex), sampling.total + 1⟩, ?_,
    ⟨hsound, hopen, hchose.same, .refl _, hchose.count, rfl, rfl,
      fun classId => bump_le sampling.objects⟩⟩
  rw [selectObject, hselect]
  rfl

theorem selectOpenImage_spec {next : Option Nat} (h : sampling.openImages.SoundBut next)
    (hobjects : sampling.objects.Sound) (hnext : next = none ∨ next = some imageIndex)
    (hmem : imageIndex ∈ sampling.openImages.order)
    (hfree : sampling.openImages.selected imageIndex = false) :
    ∃ after, sampling.selectOpenImage imageIndex = .ok after ∧ Step sampling after 0 1 := by
  obtain ⟨openImages, hselect, hsound, hchose⟩ :=
    SourceSelection.selectImage_spec h hnext hmem hfree sampling.combined
  refine ⟨⟨sampling.objects, openImages,
    bump sampling.combined (sampling.openImages.classesAt imageIndex), sampling.total + 1⟩, ?_,
    ⟨hobjects, hsound, .refl _, hchose.same, rfl, hchose.count, rfl,
      fun classId => bump_le sampling.openImages⟩⟩
  rw [selectOpenImage, hselect]
  rfl

/-- What serving a class comes to. -/
inductive Served (sampling : Combined) (classId : Nat) (forceOpen openAllowed : Bool)
    (after : Combined) : Bool → Prop where
  | object (hforce : forceOpen = false) (hstep : Step sampling after 1 0) :
      Served sampling classId forceOpen openAllowed after true
  | openImage (hallowed : openAllowed = true) (hstep : Step sampling after 0 1) :
      Served sampling classId forceOpen openAllowed after true
  | nothing (hstep : Step sampling after 0 0)
      (hnone : ¬ Servable sampling.objects sampling.openImages forceOpen openAllowed classId) :
      Served sampling classId forceOpen openAllowed after false

theorem serveClass_spec (hobjects : sampling.objects.Sound) (hopen : sampling.openImages.Sound) :
    ∃ after more, sampling.serveClass classId forceOpen openAllowed = .ok (after, more) ∧
      Served sampling classId forceOpen openAllowed after more := by
  rw [serveClass]
  generalize hobject : (if forceOpen = true then (false, sampling.objects)
    else sampling.objects.classCandidateAvailable classId) = objectLook
  have hallowed : (if openAllowed = true then sampling.openImages.classCandidateAvailable classId
      else (false, sampling.openImages)) = if (!openAllowed) = true then (false, sampling.openImages)
        else sampling.openImages.classCandidateAvailable classId := by
    cases openAllowed <;> rfl
  rw [hallowed]
  generalize hopened : (if (!openAllowed) = true then (false, sampling.openImages)
    else sampling.openImages.classCandidateAvailable classId) = openLook
  obtain ⟨hobjectIff, hobjectMoved, hobjectSound⟩ :=
    SourceSelection.look_spec _ (.refl _) hobjects classId hobject
  obtain ⟨hopenIff, hopenMoved, hopenSound⟩ :=
    SourceSelection.look_spec _ (.refl _) hopen classId hopened
  obtain ⟨objectAvailable, objects⟩ := objectLook
  obtain ⟨openAvailable, openImages⟩ := openLook
  dsimp only at *
  have hmoved := step_moved hobjectMoved hobjectSound hopenMoved hopenSound
  cases objectAvailable with
  | true =>
      obtain ⟨hforce, hfree⟩ := hobjectIff.mp rfl
      obtain ⟨imageIndex, taken, htaken, hmem, hunselected, htakenMoved, hbut⟩ :=
        SourceSelection.takeClassCandidate_spec hobjectSound (hobjectMoved.free_iff.mpr hfree)
      obtain ⟨cursors, rfl⟩ := htakenMoved
      obtain ⟨after, hselect, hstep⟩ := @selectObject_spec
        { sampling with objects := { objects with cursors } } imageIndex _ hbut hopen (.inr rfl)
        hmem hunselected
      refine ⟨after, true, ?_, .object hforce ?_⟩
      · rw [if_pos rfl, htaken]
        dsimp only [bind, Except.bind]
        rw [hselect]
        rfl
      · exact step_of_moved (hobjectMoved.trans ⟨cursors, rfl⟩) (.refl _) hstep
  | false =>
      rw [if_neg Bool.false_ne_true]
      cases openAvailable with
      | true =>
          obtain ⟨hallow, hfree⟩ := hopenIff.mp rfl
          obtain ⟨imageIndex, taken, htaken, hmem, hunselected, htakenMoved, hbut⟩ :=
            SourceSelection.takeClassCandidate_spec hopenSound (hopenMoved.free_iff.mpr hfree)
          obtain ⟨cursors, rfl⟩ := htakenMoved
          obtain ⟨after, hselect, hstep⟩ := @selectOpenImage_spec
            { sampling with objects, openImages := { openImages with cursors } } imageIndex _ hbut
            hobjectSound (.inr rfl) hmem hunselected
          refine ⟨after, true, ?_, .openImage ((Bool.not_eq_false' _).mp hallow) ?_⟩
          · rw [if_pos rfl, htaken]
            dsimp only [bind, Except.bind]
            rw [hselect]
            rfl
          · exact step_of_moved hobjectMoved (hopenMoved.trans ⟨cursors, rfl⟩) hstep
      | false =>
          rw [if_neg Bool.false_ne_true]
          refine ⟨_, false, rfl, .nothing hmoved ?_⟩
          rw [Servable, not_or, ← hobjectIff]
          refine ⟨Bool.false_ne_true, fun hopen => ?_⟩
          rw [Bool.not_eq_false'] at hopenIff
          exact Bool.false_ne_true (hopenIff.mpr hopen)

/-- No class can be served: of no source, or of the Open Images that are behind. -/
def Stuck (sampling : Combined) (forceOpen openAllowed : Bool) : Prop :=
  (∀ classId < classCount,
      ¬ Servable sampling.objects sampling.openImages false openAllowed classId) ∨
    forceOpen = true ∧ ∀ classId < classCount,
      ¬ Servable sampling.objects sampling.openImages true openAllowed classId

theorem chooseClass_spec (hobjects : sampling.objects.Sound) (hopen : sampling.openImages.Sound)
    (hcombined : ∀ classId, sampling.combined classId < 2 ^ 64 - 1) :
    (sampling.objects.Moved (sampling.chooseClass forceOpen openAllowed).objects ∧
      (sampling.chooseClass forceOpen openAllowed).objects.Sound) ∧
    (sampling.openImages.Moved (sampling.chooseClass forceOpen openAllowed).openImages ∧
      (sampling.chooseClass forceOpen openAllowed).openImages.Sound) ∧
    (((sampling.chooseClass forceOpen openAllowed).chosen = classCount ∧
        sampling.Stuck forceOpen openAllowed) ∨
      (sampling.chooseClass forceOpen openAllowed).chosen < classCount ∧
        (Servable sampling.objects sampling.openImages forceOpen openAllowed
            (sampling.chooseClass forceOpen openAllowed).chosen ∨
          sampling.Stuck forceOpen openAllowed)) := by
  have hfirst := (@rarestAvailableClass_spec forceOpen openAllowed)
    (.refl _) hobjects (.refl _) hopen hcombined
  rw [chooseClass]
  generalize rarestAvailableClass sampling forceOpen openAllowed = first at hfirst
  split
  next hagain =>
    obtain ⟨hnone, hforce⟩ := hagain
    have hsecond := (@rarestAvailableClass_spec false openAllowed _ _ { sampling with objects := first.objects, openImages := first.openImages })
      hfirst.object.1 hfirst.object.2 hfirst.opened.1 hfirst.opened.2 hcombined
    have hstuck : sampling.Stuck forceOpen openAllowed := by
      rcases hfirst.chosen with ⟨-, -, hall⟩ | ⟨hmem, -, -⟩
      · exact .inr ⟨hforce, fun classId hclass => hforce ▸ hall classId (List.mem_range.mpr hclass)⟩
      · rw [hnone] at hmem
        exact absurd (List.mem_range.mp hmem) (Nat.lt_irrefl _)
    refine ⟨hsecond.object, hsecond.opened, ?_⟩
    rcases hsecond.chosen with ⟨hchosen, -, -⟩ | ⟨hmem, -, -⟩
    · exact .inl ⟨hchosen, hstuck⟩
    · exact .inr ⟨List.mem_range.mp hmem, .inr hstuck⟩
  next honce =>
    refine ⟨hfirst.object, hfirst.opened, ?_⟩
    rcases hfirst.chosen with ⟨hchosen, -, hall⟩ | ⟨hmem, -, hserve⟩
    · refine .inl ⟨hchosen, .inl fun classId hclass => ?_⟩
      have hforce : forceOpen = false := Bool.eq_false_iff.mpr fun hforce => honce ⟨hchosen, hforce⟩
      exact hforce ▸ hall classId (List.mem_range.mpr hclass)
    · exact .inr ⟨List.mem_range.mp hmem, .inl hserve⟩

/-- Whether the Open Images are to be served next, and whether they may be. -/
def forcesOpen (limits : Limits) (sampling : Combined) : Bool :=
  decide (sampling.openImages.stats.selectedImages < limits.floor ∧
    sampling.openImages.stats.selectedImages * limits.target ≤ sampling.total * limits.floor)

def allowsOpen (limits : Limits) (sampling : Combined) : Bool :=
  decide (sampling.openImages.stats.selectedImages < limits.ceiling)

/-- What a round comes to. -/
inductive Rounded (limits : Limits) (sampling after : Combined) : Bool → Prop where
  | object (hforce : forcesOpen limits sampling = false) (hstep : Step sampling after 1 0) :
      Rounded limits sampling after true
  | openImage (hallowed : allowsOpen limits sampling = true) (hstep : Step sampling after 0 1) :
      Rounded limits sampling after true
  | nothing (hstep : Step sampling after 0 0)
      (hstuck : sampling.Stuck (forcesOpen limits sampling) (allowsOpen limits sampling)) :
      Rounded limits sampling after false

theorem round_spec (limits : Limits) (hobjects : sampling.objects.Sound)
    (hopen : sampling.openImages.Sound)
    (hcombined : ∀ classId, sampling.combined classId < 2 ^ 64 - 1) :
    ∃ after more, sampling.round limits = .ok (after, more) ∧
      Rounded limits sampling after more := by
  obtain ⟨⟨hobjectMoved, hobjectSound⟩, ⟨hopenMoved, hopenSound⟩, hchosen⟩ :=
    (@chooseClass_spec _ (forcesOpen limits sampling) (allowsOpen limits sampling)) hobjects hopen hcombined
  have hround : sampling.round limits =
      (let rarest := sampling.chooseClass (forcesOpen limits sampling) (allowsOpen limits sampling)
      let moved := { sampling with objects := rarest.objects, openImages := rarest.openImages }
      if rarest.chosen = classCount then .ok (moved, false)
      else moved.serveClass rarest.chosen (forcesOpen limits sampling)
        (allowsOpen limits sampling)) := rfl
  rw [hround]
  generalize sampling.chooseClass (forcesOpen limits sampling) (allowsOpen limits sampling) = rarest
    at *
  dsimp only
  split
  next hnone =>
    refine ⟨_, false, rfl, .nothing (step_moved hobjectMoved hobjectSound hopenMoved hopenSound) ?_⟩
    rcases hchosen with ⟨-, hstuck⟩ | ⟨hless, -⟩
    · exact hstuck
    · exact absurd hnone hless.ne
  next hsome =>
    obtain ⟨hless, hserve⟩ := hchosen.resolve_left fun hnone => hsome hnone.1
    obtain ⟨after, more, hafter, hserved⟩ := @serveClass_spec
      { sampling with objects := rarest.objects, openImages := rarest.openImages } rarest.chosen
      (forcesOpen limits sampling) (allowsOpen limits sampling) hobjectSound hopenSound
    refine ⟨after, more, hafter, ?_⟩
    cases hserved with
    | object hforce hstep => exact .object hforce (step_of_moved hobjectMoved hopenMoved hstep)
    | openImage hallowed hstep =>
        exact .openImage hallowed (step_of_moved hobjectMoved hopenMoved hstep)
    | nothing hstep hnone =>
        refine .nothing (step_of_moved hobjectMoved hopenMoved hstep) (hserve.resolve_left ?_)
        rwa [Servable, hobjectMoved.free_iff, hopenMoved.free_iff] at hnone

end Combined

end Mmltk.Sampling
