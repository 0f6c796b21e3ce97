import Mmltk.Sampling.Greedy

namespace Mmltk.Sampling

open SourceSelection (Sound)

/-! Runs of the greedy choice and of the filling. -/

/-- A source has no image left if no class has a candidate. -/
theorem all_selected {source : SourceSelection} (h : source.Sound)
    (hnone : ∀ classId < classCount, ¬ source.Free classId) :
    source.stats.selectedImages = source.order.length := by
  rw [h.counted.images]
  refine congrArg List.length (List.filter_eq_self.mpr fun imageIndex hmem => ?_)
  by_contra hfree
  obtain ⟨classId, hclass, hhas⟩ := h.laid.classes imageIndex hmem
  exact hnone classId hclass ⟨imageIndex, hmem, hhas, Bool.eq_false_iff.mpr hfree⟩

theorem selected_le {source : SourceSelection} (h : source.Sound) :
    source.stats.selectedImages ≤ source.order.length := by
  rw [h.counted.images]
  exact List.length_filter_le _ _

/-- An image of Objects365 that is not held back leaves room for the Open Images. -/
theorem room_of_not_forced {objects openImages target floor : Nat} (hopen : openImages < floor)
    (hle : floor ≤ target)
    (hforce : (objects + openImages) * floor < openImages * target) :
    objects + 1 ≤ target - floor := by
  obtain ⟨room, rfl⟩ := Nat.exists_eq_add_of_le hle
  rw [Nat.add_sub_cancel_left]
  by_contra hnot
  have hroom : room ≤ objects := by omega
  have hfull : room * floor ≤ objects * floor := Nat.mul_le_mul_right _ hroom
  have hpart : openImages * room ≤ floor * room := Nat.mul_le_mul_right _ hopen.le
  nlinarith

namespace Combined

variable {limits : Limits} {base : Nat} {sampling after : Combined}

/-- What holds throughout the filling. -/
structure Kept (limits : Limits) (sampling : Combined) : Prop where
  objects : sampling.objects.Sound
  openImages : sampling.openImages.Sound
  total : sampling.total =
    sampling.objects.stats.selectedImages + sampling.openImages.stats.selectedImages
  within : sampling.total ≤ limits.target

/-- What holds throughout the greedy choice. -/
structure Going (limits : Limits) (base : Nat) (sampling : Combined) : Prop extends
    Kept limits sampling where
  ceiling : sampling.openImages.stats.selectedImages ≤ limits.ceiling
  ahead : sampling.openImages.stats.selectedImages < limits.floor →
    sampling.objects.stats.selectedImages ≤ limits.target - limits.floor
  counts : ∀ classId, sampling.combined classId ≤ base + sampling.total

/-- The images of the sources and their orders are those of before. -/
structure SameSources (sampling after : Combined) : Prop where
  objects : sampling.objects.Same after.objects
  openImages : sampling.openImages.Same after.openImages

theorem SameSources.refl (sampling : Combined) : SameSources sampling sampling :=
  ⟨.refl _, .refl _⟩

theorem SameSources.trans {last : Combined} (h : SameSources sampling after)
    (hlater : SameSources after last) : SameSources sampling last :=
  ⟨h.objects.trans hlater.objects, h.openImages.trans hlater.openImages⟩

/-- No image is left that may be selected. -/
def Spent (limits : Limits) (sampling : Combined) : Prop :=
  (sampling.openImages.stats.selectedImages < limits.floor ∧
      sampling.openImages.stats.selectedImages = sampling.openImages.order.length) ∨
    sampling.objects.stats.selectedImages = sampling.objects.order.length ∧
      (sampling.openImages.stats.selectedImages = sampling.openImages.order.length ∨
        limits.ceiling ≤ sampling.openImages.stats.selectedImages)

theorem spent_of_stuck (h : Kept limits sampling) (hceiling : limits.floor ≤ limits.ceiling)
    (hstuck : sampling.Stuck (forcesOpen limits sampling) (allowsOpen limits sampling)) :
    Spent limits sampling := by
  have hopen : allowsOpen limits sampling = true →
      (∀ classId < classCount, ¬ sampling.openImages.Free classId) →
        sampling.openImages.stats.selectedImages = sampling.openImages.order.length :=
    fun _ hnone => all_selected h.openImages hnone
  rcases hstuck with hnone | ⟨hforce, hnone⟩
  · right
    refine ⟨all_selected h.objects fun classId hclass hfree =>
      hnone classId hclass (.inl ⟨rfl, hfree⟩), ?_⟩
    cases hallow : allowsOpen limits sampling with
    | true =>
        exact .inl (hopen hallow fun classId hclass hfree =>
          hnone classId hclass (.inr ⟨hallow, hfree⟩))
    | false => exact .inr (Nat.le_of_not_lt (of_decide_eq_false hallow))
  · left
    have hbehind := (of_decide_eq_true hforce).1
    have hallow : allowsOpen limits sampling = true :=
      decide_eq_true (hbehind.trans_le hceiling)
    exact ⟨hbehind, hopen hallow fun classId hclass hfree =>
      hnone classId hclass (.inr ⟨hallow, hfree⟩)⟩

theorem Going.round (h : Going limits base sampling) (hfloor : limits.floor ≤ limits.target)
    (hceiling : limits.floor ≤ limits.ceiling) (hbase : base + limits.target < 2 ^ 64 - 1)
    (hmore : sampling.total < limits.target) :
    ∃ after more, sampling.round limits = .ok (after, more) ∧ Going limits base after ∧
      SameSources sampling after ∧
      (more = true → after.total = sampling.total + 1) ∧ (more = false → Spent limits after) := by
  obtain ⟨after, more, hafter, hround⟩ := round_spec limits h.objects h.openImages fun classId => by
    have hcount := h.counts classId
    have hwithin := h.within
    omega
  have htotal := h.total
  have habove := h.ceiling
  refine ⟨after, more, hafter, ?_⟩
  cases hround with
  | object hforce hstep =>
      have hobjects := hstep.objectCount
      have hopen := hstep.openCount
      have hsum := hstep.total
      refine ⟨⟨⟨hstep.objectSound, hstep.openSound, by omega, by omega⟩, by omega, fun hbehind => ?_,
        fun classId => ?_⟩, ⟨hstep.objectSame, hstep.openSame⟩, fun _ => hsum, nofun⟩
      · rw [hopen, Nat.add_zero] at hbehind
        have hnot := of_decide_eq_false hforce
        rw [not_and, Nat.not_le, htotal] at hnot
        rw [hobjects]
        exact room_of_not_forced hbehind hfloor (hnot hbehind)
      · have hcount := h.counts classId
        have hbump := hstep.combined classId
        omega
  | openImage hallowed hstep =>
      have hobjects := hstep.objectCount
      have hopen := hstep.openCount
      have hsum := hstep.total
      have hbelow : sampling.openImages.stats.selectedImages < limits.ceiling :=
        of_decide_eq_true hallowed
      refine ⟨⟨⟨hstep.objectSound, hstep.openSound, by omega, by omega⟩, by omega, fun hbehind => ?_,
        fun classId => ?_⟩, ⟨hstep.objectSame, hstep.openSame⟩, fun _ => hsum, nofun⟩
      · have hahead := h.ahead (by omega)
        omega
      · have hcount := h.counts classId
        have hbump := hstep.combined classId
        omega
  | nothing hstep hstuck =>
      have hobjects := hstep.objectCount
      have hopen := hstep.openCount
      have hsum := hstep.total
      have hspent := spent_of_stuck h.toKept hceiling hstuck
      refine ⟨⟨⟨hstep.objectSound, hstep.openSound, by omega, by omega⟩, by omega, fun hbehind => ?_,
        fun classId => ?_⟩, ⟨hstep.objectSame, hstep.openSame⟩, nofun, fun _ => ?_⟩
      · have hahead := h.ahead (by omega)
        omega
      · have hcount := h.counts classId
        have hbump := hstep.combined classId
        omega
      · rw [Spent, hobjects, hopen, hstep.objectSame.order, hstep.openSame.order]
        exact hspent

/-- The greedy choice ends, with the target reached or with nothing left. -/
theorem Going.greedy (hfloor : limits.floor ≤ limits.target)
    (hceiling : limits.floor ≤ limits.ceiling) (hbase : base + limits.target < 2 ^ 64 - 1)
    {fuel : Nat} (hfuel : limits.target ≤ sampling.total + fuel)
    (h : Going limits base sampling) :
    ∃ after, Combined.greedy limits fuel sampling = .ok after ∧ Going limits base after ∧
      SameSources sampling after ∧ (after.total = limits.target ∨ Spent limits after) := by
  induction fuel generalizing sampling with
  | zero =>
      have hreached : limits.target ≤ sampling.total := hfuel
      exact ⟨sampling, if_pos hreached, h, .refl _, .inl (Nat.le_antisymm h.within hreached)⟩
  | succ fuel ih =>
      rw [Combined.greedy]
      split
      next hreached =>
        exact ⟨sampling, rfl, h, .refl _, .inl (Nat.le_antisymm h.within hreached)⟩
      next hmore =>
        obtain ⟨next, more, hround, hgoing, hsources, hstep, hspent⟩ :=
          h.round hfloor hceiling hbase (Nat.lt_of_not_le hmore)
        rw [hround]
        dsimp only [bind, Except.bind]
        cases more with
        | true =>
            have hone := hstep rfl
            obtain ⟨after, hafter, hlast, hlater, hend⟩ := ih (by omega) hgoing
            exact ⟨after, hafter, hlast, hsources.trans hlater, hend⟩
        | false => exact ⟨next, rfl, hgoing, hsources, .inr (hspent rfl)⟩

theorem Kept.fillObjects (maximum : Nat) {images : List HashedImage} (h : Kept limits sampling)
    (himages : ∀ image ∈ images, image.imageIndex ∈ sampling.objects.order) :
    ∃ after, Combined.fillObjects limits maximum images sampling = .ok after ∧ Kept limits after ∧
      SameSources sampling after := by
  induction images generalizing sampling with
  | nil => exact ⟨sampling, rfl, h, .refl _⟩
  | cons image images ih =>
      obtain ⟨hhere, hlater⟩ := List.forall_mem_cons.mp himages
      rw [Combined.fillObjects]
      split
      next => exact ⟨sampling, rfl, h, .refl _⟩
      next hgo =>
        rw [not_or] at hgo
        cases hselected : sampling.objects.selected image.imageIndex with
        | true =>
            rw [if_pos rfl]
            exact ih h hlater
        | false =>
            obtain ⟨next, hnext, hstep⟩ :=
              selectObject_spec h.objects h.openImages (.inl rfl) hhere hselected
            have hobjects := hstep.objectCount
            have hopen := hstep.openCount
            have hsum := hstep.total
            have htotal := h.total
            have hwithin := h.within
            have hkept : Kept limits next :=
              ⟨hstep.objectSound, hstep.openSound, by omega, by omega⟩
            obtain ⟨after, hafter, hlast, hsources⟩ := ih hkept (hstep.objectSame.order ▸ hlater)
            rw [if_neg Bool.false_ne_true, hnext]
            exact ⟨after, hafter, hlast, SameSources.trans ⟨hstep.objectSame, hstep.openSame⟩ hsources⟩

theorem Kept.fillOpenImages (maximum : Nat) {images : List HashedImage} (h : Kept limits sampling)
    (himages : ∀ image ∈ images, image.imageIndex ∈ sampling.openImages.order) :
    ∃ after, Combined.fillOpenImages limits maximum images sampling = .ok after ∧
      Kept limits after ∧ SameSources sampling after := by
  induction images generalizing sampling with
  | nil => exact ⟨sampling, rfl, h, .refl _⟩
  | cons image images ih =>
      obtain ⟨hhere, hlater⟩ := List.forall_mem_cons.mp himages
      rw [Combined.fillOpenImages]
      split
      next => exact ⟨sampling, rfl, h, .refl _⟩
      next hgo =>
        rw [not_or] at hgo
        cases hselected : sampling.openImages.selected image.imageIndex with
        | true =>
            rw [if_pos rfl]
            exact ih h hlater
        | false =>
            obtain ⟨next, hnext, hstep⟩ :=
              selectOpenImage_spec h.openImages h.objects (.inl rfl) hhere hselected
            have hobjects := hstep.objectCount
            have hopen := hstep.openCount
            have hsum := hstep.total
            have htotal := h.total
            have hwithin := h.within
            have hkept : Kept limits next :=
              ⟨hstep.objectSound, hstep.openSound, by omega, by omega⟩
            obtain ⟨after, hafter, hlast, hsources⟩ := ih hkept (hstep.openSame.order ▸ hlater)
            rw [if_neg Bool.false_ne_true, hnext]
            exact ⟨after, hafter, hlast, SameSources.trans ⟨hstep.objectSame, hstep.openSame⟩ hsources⟩

theorem Kept.fill (h : Kept limits sampling) :
    ∃ after, sampling.fill limits = .ok after ∧ Kept limits after ∧ SameSources sampling after := by
  obtain ⟨first, hfirst, hfirstKept, hfirstSources⟩ := h.fillObjects (limits.target - limits.floor)
    fun image himage => List.mem_map_of_mem (f := HashedImage.imageIndex) himage
  obtain ⟨second, hsecond, hsecondKept, hsecondSources⟩ := hfirstKept.fillOpenImages limits.ceiling
    fun image himage => List.mem_map_of_mem (f := HashedImage.imageIndex) himage
  obtain ⟨after, hafter, hkept, hsources⟩ := hsecondKept.fillObjects limits.target
    fun image himage => List.mem_map_of_mem (f := HashedImage.imageIndex) himage
  refine ⟨after, ?_, hkept, hfirstSources.trans (hsecondSources.trans hsources)⟩
  rw [Combined.fill, hfirst]
  dsimp only [bind, Except.bind]
  rw [hsecond]
  exact hafter

/-- Nothing is filled in if the target is reached. -/
theorem fillObjects_reached (maximum : Nat) (images : List HashedImage)
    (h : sampling.total = limits.target) :
    Combined.fillObjects limits maximum images sampling = .ok sampling := by
  cases images with
  | nil => rfl
  | cons image images => exact if_pos (.inl h)

theorem fill_reached (h : sampling.total = limits.target) :
    sampling.fill limits = .ok sampling := by
  have hopen : Combined.fillOpenImages limits limits.ceiling sampling.openImages.hashOrder sampling =
      .ok sampling := by
    cases sampling.openImages.hashOrder with
    | nil => rfl
    | cons image images => exact if_pos (.inl h)
  rw [Combined.fill, fillObjects_reached _ _ h]
  dsimp only [bind, Except.bind]
  rw [hopen]
  exact fillObjects_reached _ _ h

end Combined

end Mmltk.Sampling
