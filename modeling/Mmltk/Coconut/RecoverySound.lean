import Mmltk.Coconut.RecoveryPlan

namespace Mmltk.Coconut

open Mmltk.Foundation
open Mmltk.Dataset (RLEPair RowMajorMaskBounds MaskError TightBounds Foreground)

/-! The recovery of an image as a whole. -/

namespace CoconutMaskRecovery

/-! What is assigned. -/

theorem assign_append (record : CoconutRecord) (recovery : Recovery)
    (pairs others : List (Nat × Candidate)) :
    assign record recovery (pairs ++ others) =
      assign record recovery pairs >>= fun next => assign record next others := by
  induction pairs generalizing recovery with
  | nil => rfl
  | cons pair pairs ih =>
      rw [List.cons_append, assign, assign]
      split
      next => rfl
      next => exact ih _

def overflows (record : CoconutRecord) (ordinal : Nat) : Prop :=
  2 ^ 64 - 1 - record.firstSegmentOrdinal < ordinal

/-- The supports after the pairs are assigned. -/
structure AssignedTo (support : List Support) (pairs : List (Nat × Candidate))
    (after : List Support) : Prop where
  length : after.length = support.length
  own : ∀ ordinal candidate, (ordinal, candidate) ∈ pairs →
    after[ordinal]? = support[ordinal]?.map (recoverSegment · candidate)
  others : ∀ ordinal, ordinal ∉ pairs.map Prod.fst → after[ordinal]? = support[ordinal]?

theorem assignedTo_nil (support : List Support) : AssignedTo support [] support :=
  ⟨rfl, nofun, fun _ _ => rfl⟩

theorem AssignedTo.cons {support after : List Support} {pairs : List (Nat × Candidate)}
    {ordinal : Nat} {candidate : Candidate} (hnot : ordinal ∉ pairs.map Prod.fst)
    (h : AssignedTo (support.modify ordinal (recoverSegment · candidate)) pairs after) :
    AssignedTo support ((ordinal, candidate) :: pairs) after := by
  refine ⟨h.length.trans (List.length_modify _ _ _), fun other next hmem => ?_, fun other hother => ?_⟩
  · rcases List.mem_cons.mp hmem with hhead | htail
    · cases hhead
      rw [h.others ordinal hnot, List.getElem?_modify_eq, Option.map_eq_map]
    · have hne : ordinal ≠ other := fun hsame =>
        hnot (hsame ▸ List.mem_map_of_mem (f := Prod.fst) htail)
      rw [h.own other next htail, List.getElem?_modify_ne _ _ hne]
  · rw [List.map_cons, List.mem_cons, not_or] at hother
    rw [h.others other hother.2, List.getElem?_modify_ne _ _ (Ne.symm hother.1)]

/-- Every pair is assigned, unless an ordinal does not fit. -/
theorem assign_spec {record : CoconutRecord} {recovery : Recovery} {pairs : List (Nat × Candidate)}
    (hnodup : (pairs.map Prod.fst).Nodup) :
    ((∀ pair ∈ pairs, ¬ overflows record pair.1) → ∃ after objects,
      assign record recovery pairs =
          .ok ⟨after, recovery.merge ++ pairs.map fun pair => pair.2.runs, objects⟩ ∧
        AssignedTo recovery.support pairs after) ∧
      ((∃ pair ∈ pairs, overflows record pair.1) →
        assign record recovery pairs = .error (.runtime "COCONut: source ordinal overflow")) := by
  induction pairs generalizing recovery with
  | nil =>
      refine ⟨fun _ => ⟨recovery.support, recovery.objects, ?_, assignedTo_nil _⟩, ?_⟩
      · rw [List.map_nil, List.append_nil]
        rfl
      · exact fun ⟨_, hmem, _⟩ => nomatch hmem
  | cons pair pairs ih =>
      obtain ⟨ordinal, candidate⟩ := pair
      obtain ⟨hnot, hrest⟩ := List.nodup_cons.mp hnodup
      rw [assign]
      split
      next hover => exact ⟨fun h => absurd hover (h _ List.mem_cons_self), fun _ => rfl⟩
      next hfits =>
        obtain ⟨hgood, hbad⟩ := @ih ⟨recovery.support.modify ordinal (recoverSegment · candidate),
          recovery.merge ++ [candidate.runs], recovery.objects ++
            [⟨segmentId record.segments ordinal, record.firstSegmentOrdinal + ordinal,
              (key record.segments ordinal).category, candidate.box.annotationId⟩]⟩ hrest
        constructor
        · intro hall
          obtain ⟨after, objects, hafter, hassigned⟩ := hgood fun pair hpair =>
            hall pair (List.mem_cons_of_mem _ hpair)
          refine ⟨after, objects, ?_, hassigned.cons hnot⟩
          rw [hafter, List.map_cons, List.append_assoc, List.singleton_append]
        · intro ⟨pair, hpair, hover⟩
          rcases List.mem_cons.mp hpair with rfl | htail
          · exact absurd hover hfits
          · exact hbad ⟨pair, htail, hover⟩

theorem assign_others {record : CoconutRecord} {recovery next : Recovery}
    {pairs : List (Nat × Candidate)} {ordinal : Nat}
    (h : assign record recovery pairs = .ok next) (hother : ordinal ∉ pairs.map Prod.fst) :
    next.support[ordinal]? = recovery.support[ordinal]? := by
  induction pairs generalizing recovery with
  | nil =>
      cases h
      rfl
  | cons pair pairs ih =>
      rw [List.map_cons, List.mem_cons, not_or] at hother
      rw [assign] at h
      split at h
      next => cases h
      next => rw [ih h hother.2, List.getElem?_modify_ne _ _ (Ne.symm hother.1)]

/-! The groups, one after the other. -/

theorem represent_congr {support other : List Support} {survivors : List Nat}
    (h : ∀ ordinal ∈ survivors, support[ordinal]? = other[ordinal]?) (candidates : List Candidate)
    (represented : List Bool) :
    represent support candidates represented survivors =
      represent other candidates represented survivors := by
  induction survivors generalizing represented with
  | nil => rfl
  | cons ordinal survivors ih =>
      obtain ⟨hhere, hlater⟩ := List.forall_mem_cons.mp h
      simp only [represent, hhere, ih hlater]

theorem remaining_congr {index : NormalizedAnnotationIndex} {width height : Nat}
    {support other : List Support} {group : Group}
    (h : ∀ ordinal ∈ group.members.drop group.dropped, support[ordinal]? = other[ordinal]?)
    (candidates : List Candidate) :
    remaining index width height support group candidates =
      remaining index width height other group candidates := by
  have hsame := fun candidates represented => represent_congr h candidates represented
  simp only [remaining, hsame]

/-- The pairs of a group. -/
def pairsOf (index : NormalizedAnnotationIndex) (width height : Nat) (support : List Support)
    (group : Group) (part : List Candidate) : List (Nat × Candidate) :=
  match remaining index width height support group part with
  | .ok (some left) => group.members.zip left
  | _ => []

/-- A group with its part of the candidates. -/
structure Parted (index : NormalizedAnnotationIndex) (width height : Nat)
    (drops : Nat → Bool) (support : List Support) (group : Group) (part : List Candidate) : Prop where
  length : part.length = group.candidateCount
  total : ∃ left, remaining index width height support group part = .ok left
  own : ∀ pair ∈ pairsOf index width height support group part, drops pair.1 = true
  survivors : ∀ ordinal ∈ group.members.drop group.dropped, drops ordinal = false

theorem recoverGroups_eq {index : NormalizedAnnotationIndex} {record : CoconutRecord}
    {width height : Nat} {drops : Nat → Bool} {support : List Support} {groups : List Group}
    {parts : List (List Candidate)} {recovery : Recovery}
    (h : List.Forall₂ (Parted index width height drops support) groups parts)
    (hsupport : ∀ ordinal, drops ordinal = false → recovery.support[ordinal]? = support[ordinal]?) :
    recoverGroups index record width height recovery groups parts.flatten =
      assign record recovery ((groups.zip parts).flatMap fun pair =>
        pairsOf index width height support pair.1 pair.2) := by
  induction h generalizing recovery with
  | nil => rfl
  | @cons group part groups parts hparted hrest ih =>
      obtain ⟨left, hleft⟩ := hparted.total
      have hremaining : remaining index width height recovery.support group part = .ok left := by
        rw [← hleft]
        exact remaining_congr (fun ordinal hordinal => hsupport ordinal
          (hparted.survivors ordinal hordinal)) part
      have hown := hparted.own
      rw [List.zip_cons_cons, List.flatMap_cons, assign_append, List.flatten_cons, recoverGroups,
        List.take_left' hparted.length, List.drop_left' hparted.length, hremaining]
      rw [pairsOf, hleft] at hown ⊢
      cases left with
      | none => exact ih hsupport
      | some left =>
          dsimp only [bind, Except.bind] at hown ⊢
          cases hassign : assign record recovery (group.members.zip left) with
          | error reason => rfl
          | ok next =>
              refine ih fun ordinal hordinal => ?_
              rw [assign_others hassign fun hmem => ?_, hsupport ordinal hordinal]
              obtain ⟨pair, hpair, rfl⟩ := List.mem_map.mp hmem
              rw [hown pair hpair] at hordinal
              cases hordinal

/-! The groups of an image. -/

/-- The supports as the decoder leaves them; those of one id are all invalid. -/
structure Decoded (width pixels : Nat) (segments : List CoconutRecordSegment)
    (support : List Support) : Prop where
  length : support.length = segments.length
  held : ∀ (ordinal : Nat) segment own, segments[ordinal]? = some segment →
    support[ordinal]? = some own → segment.isthing = true → Held width pixels own
  untouched : ∀ own ∈ support, own.recovered = none ∧ own.carved = false
  distinct : ∀ (ordinal other : Nat), member segments support ordinal = true →
    member segments support other = true →
      segmentId segments ordinal = segmentId segments other → ordinal = other

variable {index : NormalizedAnnotationIndex} {width height slot : Nat}
  {segments : List CoconutRecordSegment} {support : List Support} {boxes part : List NormalizedBox}
  {group : Group}

theorem Decoded.held_member (hdecoded : Decoded width (width * height) segments support)
    {ordinal : Nat} (hmember : member segments support ordinal = true) {own : Support}
    (hown : support[ordinal]? = some own) : Held width (width * height) own := by
  rw [member, hown] at hmember
  cases hsegment : segments[ordinal]? with
  | none => rw [hsegment] at hmember; cases hmember
  | some segment =>
      rw [hsegment] at hmember
      simp only [Bool.and_eq_true] at hmember
      exact hdecoded.held ordinal segment own hsegment hown hmember.2

theorem pairsOf_eq (h : Sized width (width * height))
    (hdecoded : Decoded width (width * height) segments support)
    (hgroup : group ∈ groups segments support) (hpart : part.Perm (wanted group boxes)) :
    (∃ left, remaining index width height support group (part.map (fresh slot)) = .ok left) ∧
      pairsOf index width height support group (part.map (fresh slot)) =
        (assignments index (width * height) segments support boxes group.key).map fun pair =>
          (pair.1, fillBox index width height slot pair.2) := by
  obtain ⟨hcount, hsize, hsplit, hsurvives⟩ := group_split hdecoded.distinct hgroup
  rw [assignments]
  cases Nat.eq_zero_or_pos group.dropped with
  | inl hzero =>
      have hnone : remaining index width height support group (part.map (fresh slot)) = .ok none :=
        if_pos (.inl hzero)
      have hnil : droppedOf segments support group.key = [] :=
        List.length_eq_zero_iff.mp (hcount.symm.trans hzero)
      refine ⟨⟨none, hnone⟩, ?_⟩
      rw [pairsOf, hnone, hnil, List.zip_nil_left, ite_self, List.map_nil]
  | inr hpos =>
      have hwanted : wanted group boxes = boxesWith boxes group.key := if_neg hpos.ne'
      rw [hwanted] at hpart
      have hle : group.dropped ≤ group.members.length := by
        rw [hsplit, List.length_append, ← hcount]
        exact Nat.le_add_right _ _
      have hheld : ∀ ordinal ∈ group.members.drop group.dropped, ∀ own,
          support[ordinal]? = some own → Held width (width * height) own :=
        fun ordinal hordinal own hown =>
          hdecoded.held_member ((hsurvives ordinal).mpr hordinal).1 hown
      have hdistinct : group.members.Nodup := members_eq hgroup ▸ membersOf_nodup
      obtain ⟨hgood, hbad⟩ := (@remaining_spec index _ _ slot _ part) h
        hpos.ne' hle hdistinct hsurvives hheld
      rw [hsize] at hgood hbad
      split
      next hrecover =>
        have hown : Recoverable index (width * height) support (groupSize segments support group.key)
            (survives segments support group.key) (boxesWith boxes group.key) := hrecover
        obtain ⟨hremaining, hlength⟩ := hgood (hown.perm hpart.symm)
        rw [← unmatched_perm hpart.symm hown.identities] at hremaining hlength
        refine ⟨⟨_, hremaining⟩, ?_⟩
        have hzip : ∀ left : List Candidate, left.length = (droppedOf segments support group.key).length →
            group.members.zip left = (droppedOf segments support group.key).zip left := by
          intro left hleft
          rw [hsplit]
          conv_lhs => rw [← List.append_nil left, List.zip_append hleft.symm, List.zip_nil_right,
            List.append_nil]
        rw [pairsOf, hremaining]
        dsimp only
        rw [hzip _ (by rw [List.length_map, hlength, hcount]), List.zip_map_right]
        rfl
      next hnot =>
        have hnone := hbad fun hother => hnot (hother.perm hpart)
        refine ⟨⟨none, hnone⟩, ?_⟩
        rw [pairsOf, hnone, List.map_nil]

/-- A part of the candidates, as the boxes that they were entered for. -/
theorem exists_part {candidates : List Candidate}
    (h : candidates.Perm (boxes.map (fresh slot))) :
    ∃ part : List NormalizedBox, candidates = part.map (fresh slot) ∧ part.Perm boxes := by
  refine ⟨candidates.map fun candidate => candidate.box, ?_, ?_⟩
  · rw [List.map_map]
    refine (List.map_id _).symm.trans (List.map_congr_left fun candidate hcandidate => ?_)
    obtain ⟨box, -, rfl⟩ := List.mem_map.mp (h.mem_iff.mp hcandidate)
    rfl
  · have hmap := h.map fun candidate => candidate.box
    rw [List.map_map] at hmap
    exact hmap.trans (.of_eq (List.map_id _))

section

variable (index width height segments support boxes)

/-- What is assigned in an image, group after group. -/
noncomputable def plan : List (Nat × Candidate) :=
  (groups segments support).zipIdx.flatMap fun slot =>
    (assignments index (width * height) segments support boxes slot.1.key).map fun pair =>
      (pair.1, fillBox index width height slot.2 pair.2)

end

theorem entered_nil :
    Entered (groups segments support) [] (groups segments support) [] := by
  have hnone : ∀ group, wanted group [] = [] := fun group => by
    rw [wanted, List.filter_nil, ite_self]
  refine ⟨(List.map_id _).symm.trans (List.map_congr_left fun group hgroup => ?_),
    fun slot group _ => ?_, (by intros; contradiction)⟩
  · rw [counted, hnone, List.length_nil, ← (grouped.counts group hgroup).2]
    rfl
  · rw [hnone]
    rfl

theorem remaining_counted (candidates : List Candidate) :
    remaining index width height support (counted boxes group) candidates =
      remaining index width height support group candidates := rfl

theorem recovery_eq (h : Sized width (width * height)) {record : CoconutRecord}
    (hdecoded : Decoded width (width * height) record.segments support) {recovery : Recovery}
    (hsupport : recovery.support = support) :
    recoverGroups index record width height recovery
        (enterBoxes (groups record.segments support) [] boxes).1
        ((enterBoxes (groups record.segments support) [] boxes).2.insertionSort
          fun candidate other => candidate.group ≤ other.group) =
      assign record recovery (plan index width height record.segments support boxes) := by
  obtain ⟨hgroups, hparts, hbelow⟩ := (@entered_enterBoxes _ _ _ boxes)
    (@grouped record.segments support).sorted entered_nil
  rw [List.nil_append] at hgroups hparts
  rw [hgroups]
  generalize (enterBoxes (groups record.segments support) [] boxes).2 = candidates at *
  generalize hsorted : (candidates.insertionSort fun candidate other =>
    candidate.group ≤ other.group) = sorted
  have hperm : sorted.Perm candidates := hsorted ▸ List.perm_insertionSort _ _
  have htotal : Std.Total fun candidate other : Candidate => candidate.group ≤ other.group :=
    ⟨fun candidate other => Nat.le_total _ _⟩
  have htrans : IsTrans Candidate fun candidate other => candidate.group ≤ other.group :=
    ⟨fun _ _ _ hfirst hlater => hfirst.trans hlater⟩
  have hflat := flatMap_rank (groups record.segments support).length
    (hsorted ▸ List.pairwise_insertionSort (fun candidate other : Candidate =>
      candidate.group ≤ other.group) candidates)
    fun candidate hcandidate => hbelow candidate (hperm.mem_iff.mp hcandidate)
  -- What each slot has of the candidates.
  have hpart : ∀ slot group, (groups record.segments support)[slot]? = some group →
      ∃ part : List NormalizedBox, (sorted.filter fun candidate => candidate.group = slot) =
        part.map (fresh slot) ∧ part.Perm (wanted group boxes) := by
    intro slot group hgroup
    refine exists_part ((hperm.filter _).trans (.of_eq ?_))
    rw [hparts slot group hgroup]
  rw [List.flatMap_def] at hflat
  rw [← hflat, (@recoverGroups_eq _ _ _ _ (dropped record.segments support) support) ?_
    fun ordinal _ => by rw [hsupport]]
  · congr 1
    rw [plan, List.flatMap_def, List.flatMap_def]
    refine congrArg _ (List.ext_getElem ?_ fun slot hleft hright => ?_)
    · simp only [List.length_map, List.length_zip, List.length_range, List.length_zipIdx,
        Nat.min_self]
    · rw [List.length_map, List.length_zipIdx] at hright
      obtain ⟨part, hmine, hwanted⟩ := hpart slot _ (List.getElem?_eq_getElem hright)
      simp only [List.getElem_map, List.getElem_zip, List.getElem_range, List.getElem_zipIdx,
        Nat.zero_add]
      rw [hmine, pairsOf, remaining_counted]
      exact (pairsOf_eq h hdecoded (List.getElem_mem hright) hwanted).2
  · refine List.forall₂_iff_get.mpr ⟨?_, fun slot hleft hright => ?_⟩
    · rw [List.length_map, List.length_map, List.length_range]
    · rw [List.length_map] at hleft
      have hmem := List.getElem_mem hleft
      obtain ⟨part, hmine, hwanted⟩ := hpart slot _ (List.getElem?_eq_getElem hleft)
      obtain ⟨hleftover, hpairs⟩ := (@pairsOf_eq _ _ _ slot) h hdecoded hmem hwanted
      obtain ⟨-, -, -, hsurvives⟩ := group_split hdecoded.distinct hmem
      simp only [List.get_eq_getElem, List.getElem_map, List.getElem_range]
      rw [hmine]
      refine ⟨?_, hleftover, fun pair hpair => ?_, fun ordinal hordinal =>
        ((hsurvives ordinal).mpr hordinal).2.1⟩
      · rw [List.length_map, hwanted.length_eq]
        rfl
      · have hplanned : pair ∈ pairsOf index width height support
            (groups record.segments support)[slot] (part.map (fresh slot)) := hpair
        rw [hpairs] at hplanned
        obtain ⟨source, hsource, rfl⟩ := List.mem_map.mp hplanned
        rw [assignments] at hsource
        split at hsource
        · exact (mem_droppedOf.mp (List.of_mem_zip hsource).1).1
        · cases hsource

/-! Which segments the plan is for. -/

/-- A segment gets a box. -/
def Assigned (index : NormalizedAnnotationIndex) (pixels : Nat)
    (segments : List CoconutRecordSegment) (support : List Support) (boxes : List NormalizedBox)
    (ordinal : Nat) (box : NormalizedBox) : Prop :=
  (ordinal, box) ∈ assignments index pixels segments support boxes (key segments ordinal)

section

variable {pixels ordinal : Nat} {box : NormalizedBox} {own : GroupKey}

theorem mem_assignments (h : (ordinal, box) ∈ assignments index pixels segments support boxes own) :
    RecoverableGroup index pixels segments support boxes own ∧
      ordinal ∈ droppedOf segments support own ∧ box ∈ boxesWith boxes own := by
  rw [assignments] at h
  split at h
  next hrecover =>
    obtain ⟨hordinal, hbox⟩ := List.of_mem_zip h
    exact ⟨hrecover, hordinal, (mem_unmatched.mp hbox).1⟩
  next => cases h

theorem assigned_of_mem (h : (ordinal, box) ∈ assignments index pixels segments support boxes own) :
    Assigned index pixels segments support boxes ordinal box := by
  obtain ⟨-, hordinal, -⟩ := mem_assignments h
  rwa [Assigned, (mem_droppedOf.mp hordinal).2]

theorem Assigned.validMask (h : Assigned index pixels segments support boxes ordinal box) :
    ValidMask index pixels box :=
  have hmem := mem_assignments h
  hmem.1.masks box hmem.2.2

theorem Assigned.dropped (h : Assigned index pixels segments support boxes ordinal box) :
    CoconutMaskRecovery.dropped segments support ordinal = true :=
  (mem_droppedOf.mp (mem_assignments h).2.1).1

theorem exists_group (h : member segments support ordinal = true) :
    ∃ group ∈ groups segments support, group.key = key segments ordinal := by
  have hgrouped := @grouped segments support
  have hmem := (mem_ordinals segments support).mpr h
  rw [← hgrouped.flat, List.mem_flatMap] at hmem
  obtain ⟨group, hgroup, hordinal⟩ := hmem
  exact ⟨group, hgroup, ((hgrouped.uniform group hgroup).2 ordinal hordinal).symm⟩

/-- The plan assigns boxes to segments, each of them filled in the slot of its group. -/
theorem of_mem_plan {candidate : Candidate}
    (h : (ordinal, candidate) ∈ plan index width height segments support boxes) :
    ∃ slot box, candidate = fillBox index width height slot box ∧
      Assigned index (width * height) segments support boxes ordinal box := by
  rw [plan, List.mem_flatMap] at h
  obtain ⟨⟨group, slot⟩, -, hpair⟩ := h
  obtain ⟨⟨ordinal, box⟩, hmem, heq⟩ := List.mem_map.mp hpair
  cases heq
  exact ⟨slot, box, rfl, assigned_of_mem hmem⟩

theorem mem_plan (h : Assigned index (width * height) segments support boxes ordinal box) :
    ∃ slot, (ordinal, fillBox index width height slot box) ∈
      plan index width height segments support boxes := by
  obtain ⟨group, hgroup, hkey⟩ := exists_group (member_of_dropped h.dropped)
  obtain ⟨slot, hslot⟩ := List.getElem?_of_mem hgroup
  refine ⟨slot, List.mem_flatMap.mpr ⟨(group, slot), List.mem_zipIdx_iff_getElem?.mpr hslot, ?_⟩⟩
  rw [Assigned, ← hkey] at h
  exact List.mem_map_of_mem (f := fun pair : Nat × NormalizedBox =>
    (pair.1, fillBox index width height slot pair.2)) h

theorem assignments_sublist :
    ((assignments index pixels segments support boxes own).map Prod.fst).Sublist
      (droppedOf segments support own) := by
  rw [assignments]
  split
  · rw [List.zip_eq_zip_take_min, List.map_fst_zip (by
      rw [List.length_take, List.length_take]
      omega)]
    exact List.take_sublist _ _
  · exact List.nil_sublist _

theorem droppedOf_nodup : (droppedOf segments support own).Nodup :=
  (List.perm_insertionSort _ _).nodup_iff.mpr (List.nodup_range.filter _)

theorem plan_nodup :
    ((plan index width height segments support boxes).map Prod.fst).Nodup := by
  have hfirst : (plan index width height segments support boxes).map Prod.fst =
      (groups segments support).flatMap fun group =>
        (assignments index (width * height) segments support boxes group.key).map Prod.fst := by
    conv_rhs => rw [← List.zipIdx_map_fst 0 (groups segments support), List.flatMap_map]
    rw [plan, List.map_flatMap]
    simp only [List.map_map, Function.comp_def]
  rw [hfirst, List.nodup_flatMap]
  refine ⟨fun group _ => droppedOf_nodup.sublist assignments_sublist,
    grouped.sorted.imp fun {group later} hless => ?_⟩
  refine List.disjoint_left.mpr fun ordinal hhere hthere => ?_
  have hkey := (mem_droppedOf.mp (assignments_sublist.subset hhere)).2
  have hother := (mem_droppedOf.mp (assignments_sublist.subset hthere)).2
  rw [← hkey, ← hother] at hless
  exact Nat.lt_irrefl _ hless

/-- A dropped segment gets a box if its group is recovered, and only then. -/
theorem assigned_iff (h : Sized width (width * height))
    (hdecoded : Decoded width (width * height) segments support)
    (hdropped : CoconutMaskRecovery.dropped segments support ordinal = true) :
    (∃ box, Assigned index (width * height) segments support boxes ordinal box) ↔
      RecoverableGroup index (width * height) segments support boxes (key segments ordinal) := by
  refine ⟨fun ⟨box, hassigned⟩ => (mem_assignments hassigned).1, fun hrecover => ?_⟩
  obtain ⟨group, hgroup, hkey⟩ := exists_group (member_of_dropped hdropped)
  obtain ⟨hcount, hsize, hsplit, hsurvives⟩ := group_split hdecoded.distinct hgroup
  have hown : ordinal ∈ droppedOf segments support (key segments ordinal) :=
    mem_droppedOf.mpr ⟨hdropped, rfl⟩
  rw [← hkey] at hrecover hown
  have hpos : group.dropped ≠ 0 := hcount ▸ (List.length_pos_of_mem hown).ne'
  have hle : group.dropped ≤ group.members.length := by
    rw [hsplit, List.length_append, ← hcount]
    exact Nat.le_add_right _ _
  have hspec := ((@remaining_spec index _ _ 0 _ (boxesWith boxes group.key)) h hpos hle (members_eq hgroup ▸ membersOf_nodup) hsurvives
    fun ordinal hordinal own hsupport =>
      hdecoded.held_member ((hsurvives ordinal).mpr hordinal).1 hsupport).1
  rw [hsize] at hspec
  have hlength := (hspec hrecover).2
  have hfirst : (assignments index (width * height) segments support boxes group.key).map Prod.fst =
      droppedOf segments support group.key := by
    rw [assignments, if_pos hrecover]
    exact List.map_fst_zip (hcount ▸ hlength.ge)
  obtain ⟨pair, hpair, rfl⟩ := List.mem_map.mp (hfirst ▸ hown)
  exact ⟨pair.2, assigned_of_mem hpair⟩

end

end CoconutMaskRecovery

end Mmltk.Coconut
