import Mmltk.Coconut.RecoveryMatch

namespace Mmltk.Coconut

open Mmltk.Foundation
open Mmltk.Dataset (RLEPair MaskError TightBounds Foreground)

/-! When the dropped segments of a group can be told from the boxes of the original. -/

namespace CoconutMaskRecovery

/-- A segment and a box of the original share a pixel. -/
def Touches (index : NormalizedAnnotationIndex) (support : List Support) (ordinal : Nat)
    (box : NormalizedBox) : Prop :=
  ∃ segment pixel, support[ordinal]? = some segment ∧ Foreground segment.runs.view pixel ∧
    Foreground (index.runsOf box) pixel

/-- `count` segments, some of which survive, and boxes of which each survivor has its own. -/
structure Recoverable (index : NormalizedAnnotationIndex) (pixels : Nat) (support : List Support)
    (count : Nat) (survives : Nat → Prop) (boxes : List NormalizedBox) : Prop where
  number : boxes.length = count
  masks : ∀ box ∈ boxes, ValidMask index pixels box
  identities : (boxes.map fun box => box.annotationId).Nodup
  sole : ∀ ordinal, survives ordinal → ∃! box, box ∈ boxes ∧ Touches index support ordinal box
  own : ∀ ordinal other, survives ordinal → survives other → ∀ box ∈ boxes,
    Touches index support ordinal box → Touches index support other box → ordinal = other

open Classical in
/-- The boxes that stand for no survivor, by annotation id. -/
noncomputable def unmatched (index : NormalizedAnnotationIndex) (support : List Support)
    (survives : Nat → Prop) (boxes : List NormalizedBox) : List NormalizedBox :=
  (boxes.filter fun box => ∀ ordinal, survives ordinal → ¬ Touches index support ordinal box)
    |>.insertionSort fun box other => box.annotationId ≤ other.annotationId

variable {index : NormalizedAnnotationIndex} {width height slot : Nat} {support : List Support}
  {boxes part : List NormalizedBox} {survivors : List Nat}

theorem fillBox_box (h : Sized width (width * height)) {box : NormalizedBox}
    (hvalid : ValidMask index (width * height) box) :
    (fillBox index width height slot box).box = box :=
  (fillBox_eq h hvalid).2.box

theorem intersects_fillBox (h : Sized width (width * height)) {segment : Support}
    (hheld : Held width (width * height) segment) {box : NormalizedBox}
    (hvalid : ValidMask index (width * height) box) :
    intersects segment (fillBox index width height slot box) = true ↔
      ∃ pixel, Foreground segment.runs.view pixel ∧ Foreground (index.runsOf box) pixel := by
  have hfilled := ((@fillBox_eq _ _ _ slot) h hvalid).2
  have hruns : (fillBox index width height slot box).runs = index.runsOf box := hfilled.runs
  rw [intersects_iff hheld (hruns ▸ hvalid.2) hfilled.bounds, hruns]

section

variable (h : Sized width (width * height))
  (hmasks : ∀ box ∈ boxes, ValidMask index (width * height) box)

include h hmasks

theorem standsFor_fillBox
    (hheld : ∀ ordinal ∈ survivors, ∀ segment, support[ordinal]? = some segment →
      Held width (width * height) segment) {box : NormalizedBox} (hbox : box ∈ boxes) :
    standsFor support survivors (fillBox index width height slot box) = true ↔
      ∃ ordinal ∈ survivors, Touches index support ordinal box := by
  rw [standsFor, List.any_eq_true]
  refine exists_congr fun ordinal => and_congr_right fun hordinal => ?_
  rw [Option.any_eq_true]
  constructor
  · rintro ⟨segment, hsegment, hhit⟩
    obtain ⟨pixel, hin, hother⟩ := (intersects_fillBox h (hheld ordinal hordinal segment hsegment)
      (hmasks box hbox)).mp hhit
    exact ⟨segment, pixel, hsegment, hin, hother⟩
  · rintro ⟨segment, pixel, hsegment, hin, hother⟩
    exact ⟨segment, hsegment, (intersects_fillBox h (hheld ordinal hordinal segment hsegment)
      (hmasks box hbox)).mpr ⟨pixel, hin, hother⟩⟩

/-- The position of the one box that a survivor touches. -/
theorem sole_fillBox {ordinal position : Nat}
    (hheld : ∀ segment, support[ordinal]? = some segment → Held width (width * height) segment) :
    sole support (boxes.map (fillBox index width height slot)) ordinal = some position ↔
      (∃ box, boxes[position]? = some box ∧ Touches index support ordinal box) ∧
        ∀ (other : Nat) box, boxes[other]? = some box → Touches index support ordinal box →
          other = position := by
  have hhit : ∀ segment, support[ordinal]? = some segment → ∀ (place : Nat) box,
      boxes[place]? = some box → (intersects segment (fillBox index width height slot box) = true ↔
        Touches index support ordinal box) := by
    intro segment hsegment place box hbox
    rw [intersects_fillBox h (hheld segment hsegment) (hmasks box (List.mem_of_getElem? hbox))]
    constructor
    · exact fun ⟨pixel, hin, hother⟩ => ⟨segment, pixel, hsegment, hin, hother⟩
    · intro ⟨found, pixel, hfound, hin, hother⟩
      obtain rfl := Option.some.inj (hsegment.symm.trans hfound)
      exact ⟨pixel, hin, hother⟩
  rw [sole_iff]
  constructor
  · intro ⟨segment, hsegment, _, ⟨candidate, hcandidate, hshared⟩, honly⟩
    rw [List.getElem?_map, Option.map_eq_some_iff] at hcandidate
    obtain ⟨box, hbox, rfl⟩ := hcandidate
    refine ⟨⟨box, hbox, (hhit segment hsegment position box hbox).mp hshared⟩, ?_⟩
    intro other next hnext htouches
    refine honly other (fillBox index width height slot next) ?_
      ((hhit segment hsegment other next hnext).mpr htouches)
    rw [List.getElem?_map, hnext, Option.map_some]
  · intro ⟨⟨box, hbox, htouches⟩, honly⟩
    obtain ⟨segment, pixel, hsegment, hin, hother⟩ := htouches
    refine ⟨segment, hsegment, fun hnil => covered_nil (hnil ▸ hin),
      ⟨fillBox index width height slot box, ?_, ?_⟩, ?_⟩
    · rw [List.getElem?_map, hbox, Option.map_some]
    · exact (hhit segment hsegment position box hbox).mpr ⟨segment, pixel, hsegment, hin, hother⟩
    · intro other candidate hcandidate hshared
      rw [List.getElem?_map, Option.map_eq_some_iff] at hcandidate
      obtain ⟨next, hnext, rfl⟩ := hcandidate
      exact honly other next hnext ((hhit segment hsegment other next hnext).mp hshared)

/-- Each survivor has a candidate of its own if it touches one box, and no other one does. -/
theorem represented_fillBox (hnodup : boxes.Nodup) (hdistinct : survivors.Nodup)
    (hheld : ∀ ordinal ∈ survivors, ∀ segment, support[ordinal]? = some segment →
      Held width (width * height) segment) :
    Represented support (boxes.map (fillBox index width height slot)) survivors ↔
      (∀ ordinal ∈ survivors, ∃! box, box ∈ boxes ∧ Touches index support ordinal box) ∧
        ∀ ordinal ∈ survivors, ∀ other ∈ survivors, ∀ box ∈ boxes,
          Touches index support ordinal box → Touches index support other box → ordinal = other := by
  have hsole := fun ordinal hordinal (position : Nat) =>
    (@sole_fillBox index width height slot _ _ h hmasks ordinal position) (hheld ordinal hordinal)
  constructor
  · intro ⟨hall, hapart⟩
    constructor
    · intro ordinal hordinal
      obtain ⟨position, hposition⟩ := hall ordinal hordinal
      obtain ⟨⟨box, hbox, htouches⟩, honly⟩ := (hsole ordinal hordinal position).mp hposition
      refine ⟨box, ⟨List.mem_of_getElem? hbox, htouches⟩, fun next ⟨hnext, htouched⟩ => ?_⟩
      obtain ⟨place, hplace⟩ := List.getElem?_of_mem hnext
      rw [honly place next hplace htouched, hbox] at hplace
      exact (Option.some.inj hplace).symm
    · intro ordinal hordinal other hother box hbox htouches htouched
      obtain ⟨place, hplace⟩ := List.getElem?_of_mem hbox
      obtain ⟨position, hposition⟩ := hall ordinal hordinal
      obtain ⟨found, hfound⟩ := hall other hother
      have hsame := ((hsole ordinal hordinal position).mp hposition).2 place box hplace htouches
      have hsameOther := ((hsole other hother found).mp hfound).2 place box hplace htouched
      refine List.inj_on_of_nodup_map (List.pairwise_map.mpr hapart) hordinal hother ?_
      rw [hposition, hfound, ← hsame, ← hsameOther]
  · intro ⟨hall, hown⟩
    have hfound : ∀ ordinal ∈ survivors, ∃ position,
        sole support (boxes.map (fillBox index width height slot)) ordinal = some position ∧
          ∃ box, boxes[position]? = some box ∧ Touches index support ordinal box := by
      intro ordinal hordinal
      obtain ⟨box, ⟨hbox, htouches⟩, honly⟩ := hall ordinal hordinal
      obtain ⟨position, hposition⟩ := List.getElem?_of_mem hbox
      refine ⟨position, (hsole ordinal hordinal position).mpr ⟨⟨box, hposition, htouches⟩, ?_⟩,
        box, hposition, htouches⟩
      intro other next hnext htouched
      have hsame := honly next ⟨List.mem_of_getElem? hnext, htouched⟩
      rw [hsame, ← hposition] at hnext
      exact ((List.getElem?_inj (List.getElem?_eq_some_iff.mp hposition).1 hnodup).mp hnext.symm).symm
    refine ⟨fun ordinal hordinal => (hfound ordinal hordinal).imp fun _ hposition => hposition.1, ?_⟩
    refine hdistinct.pairwise_of_forall_ne fun ordinal hordinal other hother hne hsame => hne ?_
    obtain ⟨position, hposition, box, hbox, htouches⟩ := hfound ordinal hordinal
    obtain ⟨place, hplace, next, hnext, htouched⟩ := hfound other hother
    have hpositions : position = place := Option.some.inj (hposition.symm.trans (hsame.trans hplace))
    rw [← hpositions, hbox] at hnext
    obtain rfl := Option.some.inj hnext
    exact hown ordinal hordinal other hother box (List.mem_of_getElem? hbox) htouches htouched

end

/-! The order of the boxes does not matter. -/

theorem Recoverable.perm {pixels count : Nat} {survives : Nat → Prop}
    (h : Recoverable index pixels support count survives boxes) (hperm : boxes.Perm part) :
    Recoverable index pixels support count survives part where
  number := hperm.length_eq.symm.trans h.number
  masks box hbox := h.masks box (hperm.mem_iff.mpr hbox)
  identities := (hperm.map _).nodup_iff.mp h.identities
  sole ordinal hordinal := by
    simpa only [← hperm.mem_iff] using h.sole ordinal hordinal
  own ordinal other hordinal hother box hbox :=
    h.own ordinal other hordinal hother box (hperm.mem_iff.mpr hbox)

theorem sorted_unmatched (survives : Nat → Prop) :
    (unmatched index support survives boxes).Pairwise fun box other =>
      box.annotationId ≤ other.annotationId := by
  have htotal : Std.Total fun box other : NormalizedBox => box.annotationId ≤ other.annotationId :=
    ⟨fun box other => Nat.le_total _ _⟩
  have htrans : IsTrans NormalizedBox fun box other => box.annotationId ≤ other.annotationId :=
    ⟨fun _ _ _ hfirst hlater => hfirst.trans hlater⟩
  exact List.pairwise_insertionSort _ _

theorem mem_unmatched {survives : Nat → Prop} {box : NormalizedBox} :
    box ∈ unmatched index support survives boxes ↔
      box ∈ boxes ∧ ∀ ordinal, survives ordinal → ¬ Touches index support ordinal box := by
  classical
  rw [unmatched, List.mem_insertionSort, List.mem_filter, decide_eq_true_eq]

theorem unmatched_perm {survives : Nat → Prop} (hperm : boxes.Perm part)
    (hidentities : (boxes.map fun box => box.annotationId).Nodup) :
    unmatched index support survives boxes = unmatched index support survives part := by
  classical
  refine insertionSort_eq ((hperm.filter _).trans (List.perm_insertionSort _ _).symm)
    (sorted_unmatched survives) (hidentities.sublist ?_)
  exact (List.filter_sublist).map _

/-- The candidates that are left are those of the boxes that stand for no survivor. -/
theorem left_eq (h : Sized width (width * height)) {survives : Nat → Prop}
    (hmasks : ∀ box ∈ boxes, ValidMask index (width * height) box)
    (hidentities : (boxes.map fun box => box.annotationId).Nodup)
    (hsurvives : ∀ ordinal, survives ordinal ↔ ordinal ∈ survivors)
    (hheld : ∀ ordinal ∈ survivors, ∀ segment, support[ordinal]? = some segment →
      Held width (width * height) segment) :
    (((boxes.map (fillBox index width height slot)).filter fun candidate =>
        !standsFor support survivors candidate).insertionSort fun candidate other =>
          candidate.box.annotationId ≤ other.box.annotationId) =
      (unmatched index support survives boxes).map (fillBox index width height slot) := by
  classical
  have hbox : ∀ box ∈ boxes, (fillBox index width height slot box).box = box := fun box hbox =>
    fillBox_box h (hmasks box hbox)
  have hfilter : ((boxes.map (fillBox index width height slot)).filter fun candidate =>
        !standsFor support survivors candidate) =
      (boxes.filter fun box => ∀ ordinal, survives ordinal → ¬ Touches index support ordinal box).map
        (fillBox index width height slot) := by
    rw [List.filter_map]
    refine congrArg _ (List.filter_congr fun box hbox => ?_)
    have hstands := (@standsFor_fillBox _ _ _ slot) h hmasks hheld hbox
    rw [Function.comp_apply, ← Bool.coe_iff_coe, decide_eq_true_eq, Bool.not_eq_true', ← Bool.not_eq_true,
      hstands, not_exists]
    refine forall_congr' fun ordinal => ?_
    rw [hsurvives, not_and]
  rw [hfilter]
  refine insertionSort_eq ((List.perm_insertionSort _ _).symm.map _) ?_ ?_
  · refine List.pairwise_map.mpr ((sorted_unmatched survives).imp_of_mem fun hin hother hle => ?_)
    rwa [hbox _ (mem_unmatched.mp hin).1, hbox _ (mem_unmatched.mp hother).1]
  · rw [List.map_map, List.map_congr_left (g := fun box => box.annotationId) fun box hmem => by
      rw [Function.comp_apply, hbox box (List.mem_filter.mp hmem).1]]
    exact hidentities.sublist (List.filter_sublist.map _)

/-- The decision for a group, and the boxes for its dropped segments. -/
theorem remaining_spec (h : Sized width (width * height)) {group : Group}
    {survives : Nat → Prop} (hdropped : group.dropped ≠ 0)
    (hle : group.dropped ≤ group.members.length) (hdistinct : group.members.Nodup)
    (hsurvives : ∀ ordinal, survives ordinal ↔ ordinal ∈ group.members.drop group.dropped)
    (hheld : ∀ ordinal ∈ group.members.drop group.dropped, ∀ segment,
      support[ordinal]? = some segment → Held width (width * height) segment) :
    (Recoverable index (width * height) support group.members.length survives boxes →
      remaining index width height support group (boxes.map (fresh slot)) =
          .ok (some ((unmatched index support survives boxes).map
            (fillBox index width height slot))) ∧
        (unmatched index support survives boxes).length = group.dropped) ∧
      (¬ Recoverable index (width * height) support group.members.length survives boxes →
        remaining index width height support group (boxes.map (fresh slot)) = .ok none) := by
  rw [remaining, List.length_map]
  split
  next hstop =>
    refine ⟨fun hgood => ?_, fun _ => rfl⟩
    exact absurd (hstop.resolve_left hdropped) (not_not.mpr hgood.number)
  next hgo =>
  rw [not_or, not_not] at hgo
  obtain ⟨hfilled, hunfilled⟩ := (@candidateMasks_spec index _ _ slot boxes) h
  cases Classical.em (∀ box ∈ boxes, ValidMask index (width * height) box) with
  | inr hinvalid =>
      rw [hunfilled hinvalid]
      exact ⟨fun hgood => absurd hgood.masks hinvalid, fun _ => rfl⟩
  | inl hmasks =>
  have hbox : ∀ box ∈ boxes, (fillBox index width height slot box).box = box := fun box hbox =>
    fillBox_box h (hmasks box hbox)
  have hids : ((boxes.map (fillBox index width height slot)).map fun candidate =>
      candidate.box.annotationId) = boxes.map fun box => box.annotationId := by
    rw [List.map_map]
    exact List.map_congr_left fun box hmem => by rw [Function.comp_apply, hbox box hmem]
  rw [hfilled hmasks]
  dsimp only [bind, Except.bind]
  rw [hids, List.length_map]
  split
  next hsame =>
    rw [distinct_iff] at hsame
    exact ⟨fun hgood => absurd hgood.identities hsame, fun _ => rfl⟩
  next hdiffer =>
  rw [not_not, distinct_iff] at hdiffer
  have hnodup : boxes.Nodup := hdiffer.of_map
  have hsurvivors := hdistinct.sublist (List.drop_sublist group.dropped group.members)
  have hiff := (@represented_fillBox _ _ _ slot) h hmasks hnodup hsurvivors hheld
  obtain ⟨hrepresented, hunrepresented⟩ := (@represent_spec support (boxes.map (fillBox index width height slot)) (group.members.drop group.dropped))
  rw [List.length_map] at hrepresented hunrepresented
  cases Classical.em (Represented support (boxes.map (fillBox index width height slot))
      (group.members.drop group.dropped)) with
  | inr hnot =>
      rw [hunrepresented hnot]
      refine ⟨fun hgood => absurd (hiff.mpr ⟨fun ordinal hordinal => ?_, ?_⟩) hnot, fun _ => rfl⟩
      · exact hgood.sole ordinal ((hsurvives ordinal).mpr hordinal)
      · exact fun ordinal hordinal other hother => hgood.own ordinal other
          ((hsurvives ordinal).mpr hordinal) ((hsurvives other).mpr hother)
  | inl hyes =>
      obtain ⟨hmarks, hcount⟩ := hrepresented hyes
      obtain ⟨hsole, hown⟩ := hiff.mp hyes
      have hgood : Recoverable index (width * height) support group.members.length survives boxes :=
        ⟨hgo.2, hmasks, hdiffer, fun ordinal hordinal =>
          hsole ordinal ((hsurvives ordinal).mp hordinal), fun ordinal other hordinal hother =>
          hown ordinal ((hsurvives ordinal).mp hordinal) other ((hsurvives other).mp hother)⟩
      have hleft := (@left_eq _ _ _ slot) h hmasks hdiffer hsurvives hheld
      have hsize : ((boxes.map (fillBox index width height slot)).filter fun candidate =>
          !standsFor support (group.members.drop group.dropped) candidate).length =
          group.dropped := by
        rw [length_unrepresented]
        rw [List.length_drop] at hcount
        omega
      have hlength : (unmatched index support survives boxes).length = group.dropped := by
        rw [← List.length_map (fillBox index width height slot), ← hleft,
          List.length_insertionSort, hsize]
      rw [hmarks]
      dsimp only
      rw [unrepresented_map, if_neg (not_not.mpr hsize), hleft]
      exact ⟨fun _ => ⟨rfl, hlength⟩, fun hbad => absurd hgood hbad⟩

/-! The plan for an image, group by group. -/

section

variable (index : NormalizedAnnotationIndex) (pixels : Nat) (segments : List CoconutRecordSegment)
  (support : List Support) (boxes : List NormalizedBox) (own : GroupKey)

def groupSize : Nat :=
  ((List.range segments.length).filter fun ordinal =>
    member segments support ordinal && decide (key segments ordinal = own)).length

def survives (ordinal : Nat) : Prop :=
  member segments support ordinal = true ∧ dropped segments support ordinal = false ∧
    key segments ordinal = own

def boxesWith : List NormalizedBox := boxes.filter fun box => boxKey box = own

/-- The dropped segments of a group, by id. -/
def droppedOf : List Nat :=
  ((List.range segments.length).filter fun ordinal =>
    dropped segments support ordinal && decide (key segments ordinal = own)).insertionSort
      fun ordinal other => segmentId segments ordinal ≤ segmentId segments other

def RecoverableGroup : Prop :=
  Recoverable index pixels support (groupSize segments support own) (survives segments support own)
    (boxesWith boxes own)

open Classical in
/-- The dropped segments of a group with the boxes that they get. -/
noncomputable def assignments : List (Nat × NormalizedBox) :=
  if RecoverableGroup index pixels segments support boxes own then
    (droppedOf segments support own).zip
      (unmatched index support (survives segments support own) (boxesWith boxes own))
  else []

end

section

variable {segments : List CoconutRecordSegment} {own : GroupKey} {ordinal : Nat}

theorem member_of_dropped (h : dropped segments support ordinal = true) :
    member segments support ordinal = true := by
  rw [dropped] at h
  rw [member]
  cases hsegment : segments[ordinal]? with
  | none => rw [hsegment] at h; cases h
  | some segment =>
      cases hsupport : support[ordinal]? with
      | none => rw [hsegment, hsupport] at h; cases h
      | some held =>
          rw [hsegment, hsupport] at h
          simp only [eligibleDropped, Bool.and_eq_true] at h
          simp only [h.1.1.1.1, h.1.1.1.2, h.1.1.2, Bool.and_self]

theorem mem_droppedOf : ordinal ∈ droppedOf segments support own ↔
    dropped segments support ordinal = true ∧ key segments ordinal = own := by
  rw [droppedOf, List.mem_insertionSort, List.mem_filter, List.mem_range, Bool.and_eq_true,
    decide_eq_true_eq]
  refine and_iff_right_of_imp fun h => ?_
  have hmember := (mem_ordinals segments support).mpr (member_of_dropped h.1)
  rw [(ordinals_perm segments support).mem_iff, List.mem_filter, List.mem_range] at hmember
  exact hmember.1

theorem mem_membersOf : ordinal ∈ membersOf segments support own ↔
    member segments support ordinal = true ∧ key segments ordinal = own := by
  rw [membersOf, List.mem_filter, mem_ordinals, decide_eq_true_eq]

theorem membersOf_nodup : (membersOf segments support own).Nodup :=
  (ordinals_nodup segments support).filter _

theorem length_membersOf : (membersOf segments support own).length =
    groupSize segments support own := by
  rw [membersOf, groupSize, ((ordinals_perm segments support).filter _).length_eq,
    List.filter_filter]
  simp only [Bool.and_comm]

/-- A group's dropped segments come first, in the order of their ids. -/
theorem membersOf_split
    (hids : ∀ ordinal other, member segments support ordinal = true →
      member segments support other = true →
        segmentId segments ordinal = segmentId segments other → ordinal = other) :
    membersOf segments support own = droppedOf segments support own ++
      (membersOf segments support own).filter fun ordinal => !dropped segments support ordinal := by
  have hsorted : (membersOf segments support own).Pairwise fun left right =>
      dropped segments support right = true → dropped segments support left = true ∧
        segmentId segments left ≤ segmentId segments right := by
    refine ((ordinals_sorted segments support).filter _).imp_of_mem fun {left right} hleft hright hle => ?_
    have hkeys := (of_decide_eq_true (List.mem_filter.mp hleft).2).trans
      (of_decide_eq_true (List.mem_filter.mp hright).2).symm
    exact same_key_le hkeys hle
  have hsplit := filter_append_filter (hsorted.imp fun h hright => (h hright).1)
  have hfirst : droppedOf segments support own =
      (membersOf segments support own).filter (dropped segments support) := by
    have hmem : ∀ ordinal, ordinal ∈ ((List.range segments.length).filter fun ordinal =>
        dropped segments support ordinal && decide (key segments ordinal = own)) ↔
          dropped segments support ordinal = true ∧ key segments ordinal = own := fun ordinal => by
      rw [← mem_droppedOf, droppedOf, List.mem_insertionSort]
    have hnodup := List.nodup_range (n := segments.length)
    refine insertionSort_eq ?_ ?_ ((hnodup.filter _).map_on fun ordinal hordinal other hother => ?_)
    · refine (List.perm_ext_iff_of_nodup (hnodup.filter _) (membersOf_nodup.filter _)).mpr
        fun ordinal => ?_
      rw [hmem, List.mem_filter, mem_membersOf]
      exact ⟨fun h => ⟨⟨member_of_dropped h.1, h.2⟩, h.1⟩, fun h => ⟨h.2, h.1.2⟩⟩
    · exact (hsorted.filter _).imp_of_mem fun _ hright h => (h (List.mem_filter.mp hright).2).2
    · exact hids ordinal other (member_of_dropped ((hmem ordinal).mp hordinal).1)
        (member_of_dropped ((hmem other).mp hother).1)
  rw [hfirst, hsplit]

theorem group_split
    (hids : ∀ ordinal other, member segments support ordinal = true →
      member segments support other = true →
        segmentId segments ordinal = segmentId segments other → ordinal = other)
    {group : Group} (hgroup : group ∈ groups segments support) :
    group.dropped = (droppedOf segments support group.key).length ∧
      group.members.length = groupSize segments support group.key ∧
      group.members = droppedOf segments support group.key ++ group.members.drop group.dropped ∧
      ∀ ordinal, survives segments support group.key ordinal ↔
        ordinal ∈ group.members.drop group.dropped := by
  have hmembers := members_eq hgroup
  have hsplit := (@membersOf_split _ _ group.key) hids
  have hcount : group.dropped = (droppedOf segments support group.key).length := by
    have hrest : ((membersOf segments support group.key).filter fun ordinal =>
        !dropped segments support ordinal).countP (dropped segments support) = 0 := by
      refine List.countP_eq_zero.mpr fun ordinal hordinal hdropped => ?_
      have hkept := (List.mem_filter.mp hordinal).2
      rw [hdropped] at hkept
      cases hkept
    have hall : (droppedOf segments support group.key).countP (dropped segments support) =
        (droppedOf segments support group.key).length :=
      List.countP_eq_length.mpr fun ordinal hordinal => (mem_droppedOf.mp hordinal).1
    rw [(grouped.counts group hgroup).1, hmembers, hsplit, List.countP_append, hrest, hall,
      Nat.add_zero]
  have hdrop : group.members.drop group.dropped =
      (membersOf segments support group.key).filter fun ordinal =>
        !dropped segments support ordinal := by
    rw [hmembers, hsplit, hcount, List.drop_left, ← hsplit]
  refine ⟨hcount, by rw [hmembers, length_membersOf], ?_, fun ordinal => ?_⟩
  · rw [hdrop, hmembers, ← hsplit]
  · rw [hdrop, List.mem_filter, mem_membersOf, Bool.not_eq_true', survives]
    exact ⟨fun h => ⟨⟨h.1, h.2.2⟩, h.2.1⟩, fun h => ⟨h.1.1, h.2, h.1.2⟩⟩

end

end CoconutMaskRecovery

end Mmltk.Coconut
