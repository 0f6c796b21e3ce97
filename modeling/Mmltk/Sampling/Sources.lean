import Mathlib.Algebra.Order.BigOperators.Group.List
import Mathlib.Algebra.Order.Group.Nat
import Mmltk.Foundation.Cursors
import Mmltk.Sampling.Selection

namespace Mmltk.Sampling

open Mmltk.Foundation

/-! What holds of a source while images are selected from it. -/

namespace SourceSelection

def order (source : SourceSelection) : List Nat := source.hashOrder.map HashedImage.imageIndex

def classesAt (source : SourceSelection) (imageIndex : Nat) : List Nat :=
  (membershipAt source.memberships imageIndex).classes

def boxCountAt (source : SourceSelection) (imageIndex : Nat) : Nat :=
  (source.images[imageIndex]?.map fun image => image.boxCount).getD 0

def runsAt (source : SourceSelection) (imageIndex : Nat) : Nat :=
  (membershipAt source.memberships imageIndex).maskRuns

/-- The images of a source in their order. -/
structure Laid (source : SourceSelection) : Prop where
  order : source.order.Nodup
  candidates : ∀ classId, source.candidates classId =
    source.order.filter fun imageIndex => (source.classesAt imageIndex).contains classId
  classes : ∀ imageIndex ∈ source.order, ∃ classId < classCount,
    classId ∈ source.classesAt imageIndex
  boxes : (source.order.map source.boxCountAt).sum < 2 ^ 64
  runs : (source.order.map source.runsAt).sum < 2 ^ 64

/-- What is counted of the images that are selected. -/
structure Counted (source : SourceSelection) : Prop where
  chosen : ∀ imageIndex, source.selected imageIndex = true → imageIndex ∈ source.order
  images : source.stats.selectedImages = (source.order.filter source.selected).length
  boxes : source.selectedBoxes = ((source.order.filter source.selected).map source.boxCountAt).sum
  runs : source.selectedRuns = ((source.order.filter source.selected).map source.runsAt).sum

/-- Behind a cursor all images are selected, one perhaps excepted. -/
structure SoundBut (source : SourceSelection) (next : Option Nat) : Prop where
  laid : source.Laid
  counted : source.Counted
  passed : ∀ classId, ∀ imageIndex ∈ (source.candidates classId).take (source.cursors classId),
    source.selected imageIndex = true ∨ next = some imageIndex

abbrev Sound (source : SourceSelection) : Prop := source.SoundBut none

/-- An image of a class that is not selected. -/
def Free (source : SourceSelection) (classId : Nat) : Prop :=
  ∃ imageIndex ∈ source.order, classId ∈ source.classesAt imageIndex ∧
    source.selected imageIndex = false

/-- The cursors alone are others. -/
def Moved (source after : SourceSelection) : Prop :=
  ∃ cursors, after = { source with cursors }

/-- The images and their order are those of before. -/
structure Same (source after : SourceSelection) : Prop where
  order : after.order = source.order
  images : after.images = source.images

variable {source after : SourceSelection} {classId imageIndex : Nat} {next : Option Nat}

theorem Same.refl (source : SourceSelection) : source.Same source := ⟨rfl, rfl⟩

theorem Same.trans {last : SourceSelection} (h : source.Same after) (hlater : after.Same last) :
    source.Same last :=
  ⟨hlater.order.trans h.order, hlater.images.trans h.images⟩

theorem Moved.same (h : source.Moved after) : source.Same after := by
  obtain ⟨cursors, rfl⟩ := h
  exact ⟨rfl, rfl⟩

theorem Moved.stats (h : source.Moved after) : after.stats = source.stats := by
  obtain ⟨cursors, rfl⟩ := h
  rfl

theorem Moved.refl (source : SourceSelection) : source.Moved source := ⟨source.cursors, rfl⟩

theorem Moved.trans {last : SourceSelection} (h : source.Moved after) (hlater : after.Moved last) :
    source.Moved last := by
  obtain ⟨cursors, rfl⟩ := h
  obtain ⟨others, rfl⟩ := hlater
  exact ⟨others, rfl⟩

theorem Moved.free_iff (h : source.Moved after) : after.Free classId ↔ source.Free classId := by
  obtain ⟨cursors, rfl⟩ := h
  exact Iff.rfl

theorem Sound.moved (h : source.Sound) {cursors : Nat → Nat}
    (hpassed : ∀ classId, ∀ imageIndex ∈ (source.candidates classId).take (cursors classId),
      source.selected imageIndex = true ∨ next = some imageIndex) :
    SoundBut { source with cursors } next where
  laid := ⟨h.laid.order, h.laid.candidates, h.laid.classes, h.laid.boxes, h.laid.runs⟩
  counted := ⟨h.counted.chosen, h.counted.images, h.counted.boxes, h.counted.runs⟩
  passed := hpassed

theorem free_iff (h : source.Laid) : source.Free classId ↔
    ∃ imageIndex ∈ source.candidates classId, source.selected imageIndex = false := by
  simp only [Free, h.candidates, List.mem_filter, List.contains_iff_mem, and_assoc]

theorem settle_cursor (source : SourceSelection) (classId : Nat) :
    (source.settle classId).cursors = Function.update source.cursors classId
      (passDone source.selected (source.candidates classId) (source.cursors classId)) := rfl

theorem Sound.settle (h : source.Sound) (classId : Nat) : (source.settle classId).Sound := by
  refine h.moved fun other imageIndex hmem => ?_
  rcases eq_or_ne other classId with rfl | hne
  · rw [Function.update_self] at hmem
    exact .inl (passDone_take (fun imageIndex hmem =>
      (h.passed other imageIndex hmem).resolve_right nofun) imageIndex hmem)
  · rw [Function.update_of_ne hne] at hmem
    exact h.passed other imageIndex hmem

/-- A class has a candidate if there is an image of it that is not selected. -/
theorem classCandidateAvailable_spec (h : source.Sound) (classId : Nat) :
    ((source.classCandidateAvailable classId).1 = true ↔ source.Free classId) ∧
      source.Moved (source.classCandidateAvailable classId).2 ∧
      (source.classCandidateAvailable classId).2.Sound := by
  refine ⟨?_, ⟨_, rfl⟩, h.settle classId⟩
  have hpassed := passDone_lt_iff fun imageIndex hmem =>
    (h.passed classId imageIndex hmem).resolve_right nofun
  rw [free_iff h.laid, ← hpassed, classCandidateAvailable, settle_cursor, Function.update_self,
    decide_eq_true_eq]
  rfl

/-- A class is looked up unless the source is passed over. -/
theorem look_spec (skipped : Bool) (hmoved : source.Moved after) (hsound : after.Sound)
    (classId : Nat) {look : Bool × SourceSelection}
    (hlook : (if skipped then (false, after) else after.classCandidateAvailable classId) = look) :
    (look.1 = true ↔ skipped = false ∧ source.Free classId) ∧ source.Moved look.2 ∧
      look.2.Sound := by
  cases skipped with
  | true =>
      obtain rfl := hlook
      exact ⟨iff_of_false Bool.false_ne_true nofun, hmoved, hsound⟩
  | false =>
      obtain rfl := hlook
      obtain ⟨hiff, hlater, hsettled⟩ := classCandidateAvailable_spec hsound classId
      rw [hmoved.free_iff] at hiff
      exact ⟨hiff.trans (and_iff_right rfl).symm, hmoved.trans hlater, hsettled⟩

/-- One image more is selected. -/
structure Chose (source : SourceSelection) (imageIndex : Nat) (after : SourceSelection) : Prop where
  images : after.images = source.images
  memberships : after.memberships = source.memberships
  hashOrder : after.hashOrder = source.hashOrder
  selected : after.selected = Function.update source.selected imageIndex true
  count : after.stats.selectedImages = source.stats.selectedImages + 1

theorem Chose.same (h : source.Chose imageIndex after) : source.Same after :=
  ⟨congrArg (List.map HashedImage.imageIndex) h.hashOrder, h.images⟩

theorem sum_filter_update {list : List Nat} {selected : Nat → Bool} {value : Nat → Nat}
    (hnodup : list.Nodup) (hmem : imageIndex ∈ list) (hfree : selected imageIndex = false) :
    ((list.filter (Function.update selected imageIndex true)).map value).sum =
      ((list.filter selected).map value).sum + value imageIndex := by
  induction list with
  | nil => cases hmem
  | cons first rest ih =>
      obtain ⟨hnot, hrest⟩ := List.nodup_cons.mp hnodup
      rw [List.filter_cons, List.filter_cons]
      rcases List.mem_cons.mp hmem with rfl | hlater
      · have hsame : rest.filter (Function.update selected imageIndex true) = rest.filter selected :=
          List.filter_congr fun other hother =>
            Function.update_of_ne (fun (hsame : other = imageIndex) => hnot (hsame ▸ hother)) _ _
        rw [Function.update_self, if_pos rfl, hfree, if_neg Bool.false_ne_true, hsame, List.map_cons,
          List.sum_cons, Nat.add_comm]
      · have hne : first ≠ imageIndex := fun hsame => hnot (hsame ▸ hlater)
        rw [Function.update_of_ne hne]
        split
        · rw [List.map_cons, List.map_cons, List.sum_cons, List.sum_cons, ih hrest hlater,
            Nat.add_assoc]
        · exact ih hrest hlater

theorem sum_filter_le {list : List Nat} (keep : Nat → Bool) (value : Nat → Nat) :
    ((list.filter keep).map value).sum ≤ (list.map value).sum :=
  (List.filter_sublist.map value).sum_le_sum fun _ _ => Nat.zero_le _

/-- An image of the source that was not selected is selected. -/
theorem selectImage_spec (h : source.SoundBut next) (hnext : next = none ∨ next = some imageIndex)
    (hmem : imageIndex ∈ source.order) (hfree : source.selected imageIndex = false)
    (combined : Nat → Nat) :
    ∃ after, source.selectImage imageIndex combined =
        .ok (after, bump combined (source.classesAt imageIndex)) ∧
      after.Sound ∧ source.Chose imageIndex after := by
  have hboxes := (@sum_filter_update _ _ _ source.boxCountAt) h.laid.order hmem hfree
  have hruns := (@sum_filter_update _ _ _ source.runsAt) h.laid.order hmem hfree
  have himages := (@sum_filter_update _ _ _ (fun _ => 1)) h.laid.order hmem hfree
  rw [List.map_const', List.map_const', List.sum_replicate_nat, List.sum_replicate_nat, Nat.mul_one,
    Nat.mul_one] at himages
  have hboxesFit := ((@sum_filter_le source.order)
    (Function.update source.selected imageIndex true) source.boxCountAt).trans_lt h.laid.boxes
  have hrunsFit := ((@sum_filter_le source.order)
    (Function.update source.selected imageIndex true) source.runsAt).trans_lt h.laid.runs
  rw [hboxes, ← h.counted.boxes] at hboxesFit
  rw [hruns, ← h.counted.runs] at hrunsFit
  rw [selectImage, hfree, if_neg Bool.false_ne_true]
  have hboxAdd : checkedAdd source.selectedBoxes
      ((source.images[imageIndex]?.map fun image => image.boxCount).getD 0)
      "supplemental selected box count overflow" =
        .ok (source.selectedBoxes + source.boxCountAt imageIndex) := if_neg (Nat.not_le_of_lt hboxesFit)
  have hrunAdd : checkedAdd source.selectedRuns (membershipAt source.memberships imageIndex).maskRuns
      "supplemental selected mask count overflow" =
        .ok (source.selectedRuns + source.runsAt imageIndex) := if_neg (Nat.not_le_of_lt hrunsFit)
  dsimp only
  rw [hboxAdd, hrunAdd]
  refine ⟨_, rfl, ⟨⟨h.laid.order, h.laid.candidates, h.laid.classes, h.laid.boxes, h.laid.runs⟩,
    ⟨fun other hother => ?_, ?_, ?_, ?_⟩, fun classId other hother => .inl ?_⟩,
    ⟨rfl, rfl, rfl, rfl, rfl⟩⟩
  · rcases eq_or_ne other imageIndex with rfl | hne
    · exact hmem
    · dsimp only at hother
      rw [Function.update_of_ne hne] at hother
      exact h.counted.chosen other hother
  · exact (congrArg (· + 1) h.counted.images).trans himages.symm
  · exact (congrArg (· + source.boxCountAt imageIndex) h.counted.boxes).trans hboxes.symm
  · exact (congrArg (· + source.runsAt imageIndex) h.counted.runs).trans hruns.symm
  · dsimp only
    rcases eq_or_ne other imageIndex with rfl | hne
    · exact Function.update_self ..
    · rw [Function.update_of_ne hne]
      refine (h.passed classId other hother).resolve_right fun hother => ?_
      rcases hnext with hnone | hsome
      · rw [hnone] at hother
        cases hother
      · exact hne (Option.some.inj (hother.symm.trans hsome))

/-- A class that has a candidate gets one selected. -/
theorem takeClassCandidate_spec (h : source.Sound) (hfree : source.Free classId) :
    ∃ imageIndex taken, source.takeClassCandidate classId = .ok (imageIndex, taken) ∧
      imageIndex ∈ source.order ∧ source.selected imageIndex = false ∧ source.Moved taken ∧
      taken.SoundBut (some imageIndex) := by
  have hsettled := h.settle classId
  have hpassed := passDone_lt_iff fun imageIndex hmem =>
    (h.passed classId imageIndex hmem).resolve_right nofun
  have hless := hpassed.mpr ((free_iff h.laid).mp hfree)
  have havailable := ((classCandidateAvailable_spec h classId).1).mpr hfree
  obtain ⟨imageIndex, hitem⟩ : ∃ imageIndex, (source.candidates classId)[passDone source.selected
      (source.candidates classId) (source.cursors classId)]? = some imageIndex :=
    ⟨_, List.getElem?_eq_getElem hless⟩
  have hcursor : (source.settle classId).cursors classId = passDone source.selected
      (source.candidates classId) (source.cursors classId) := by
    rw [settle_cursor, Function.update_self]
  have hopen := passDone_item hitem
  let cursors := Function.update (source.settle classId).cursors classId
    ((source.settle classId).cursors classId + 1)
  refine ⟨imageIndex, { source with cursors }, ?_, ?_, hopen, ⟨_, rfl⟩, ?_⟩
  · have hread : (source.candidates classId).getD ((source.settle classId).cursors classId) 0 =
        imageIndex := by
      rw [hcursor, List.getD_eq_getElem?_getD, hitem, Option.getD_some]
    rw [takeClassCandidate]
    dsimp only
    rw [havailable, Bool.not_true, if_neg Bool.false_ne_true]
    exact congrArg (fun item => Except.ok (item, { source with cursors })) hread
  · have hmem := List.mem_of_getElem? hitem
    rw [h.laid.candidates] at hmem
    exact (List.mem_filter.mp hmem).1
  · refine h.moved fun other image hmem => ?_
    dsimp only [cursors] at hmem
    rcases eq_or_ne other classId with rfl | hne
    · rw [Function.update_self, hcursor, List.take_add_one, hitem, Option.toList_some] at hmem
      rcases List.mem_append.mp hmem with hold | hnew
      · exact .inl (passDone_take (fun item hitem =>
          (h.passed other item hitem).resolve_right nofun) image hold)
      · exact .inr (by rw [List.mem_singleton.mp hnew])
    · rw [Function.update_of_ne hne, settle_cursor, Function.update_of_ne hne] at hmem
      exact .inl ((h.passed other image hmem).resolve_right nofun)

end SourceSelection

end Mmltk.Sampling
