import Mmltk.Coconut.NativeImage

namespace Mmltk.Coconut

open Mmltk.Foundation
open Mmltk.Dataset (RowMajorMaskBounds MaskError)

/-! The table of ids: every listable segment is found, and every search ends. -/

def segmentHash (id : Nat) : Nat := id * 2654435761

/-- The id in a slot, if there is one. -/
def idIn (segments : List SegmentEntry) (slot : Nat) : Option Nat :=
  if (segments.getD slot default).id = 0 then none else some (segments.getD slot default).id

namespace CoconutNativeWorkspace

variable {B : Type} {segments : List SegmentEntry} {id slot : Nat}

/-- In a table of a power of two the search is one around its size. -/
theorem segmentLoop_eq {exponent : Nat} (h : segments.length = 2 ^ exponent) (hid : id ≠ 0)
    (fuel : Nat) : segmentLoop segments id fuel slot =
      probe segments.length (idIn segments) id fuel slot := by
  induction fuel generalizing slot with
  | zero => rfl
  | succ fuel ih =>
      rw [segmentLoop, probe, idIn, ih]
      have hnext : (slot + 1) &&& (segments.length - 1) = (slot + 1) % segments.length := by
        rw [h, Nat.and_two_pow_sub_one_eq_mod]
      cases hentry : segments.getD slot default with
      | mk stored index =>
          rcases eq_or_ne stored 0 with rfl | hstored
          · rw [if_neg (by simp), if_pos rfl]
          · simp only [ne_eq, hstored, not_false_eq_true, true_and, if_false]
            rcases eq_or_ne stored id with rfl | hne
            · rw [if_neg (by simp), if_pos rfl]
            · rw [if_pos hne, if_neg hne, hnext]

theorem idIn_set (hslot : slot < segments.length) (entry : SegmentEntry) (hentry : entry.id ≠ 0) :
    idIn (segments.set slot entry) = Function.update (idIn segments) slot (some entry.id) := by
  funext other
  rw [idIn]
  rcases eq_or_ne other slot with rfl | hne
  · rw [Function.update_self, List.getD_eq_getElem?_getD, List.getElem?_set_self hslot,
      Option.getD_some, if_neg hentry]
  · rw [Function.update_of_ne hne, List.getD_eq_getElem?_getD, List.getElem?_set_ne hne.symm,
      ← List.getD_eq_getElem?_getD, idIn]

end CoconutNativeWorkspace

/-- A segment that can be listed has this id, before some place of the record. -/
def ListedBefore (all : List CoconutSegment) (count id : Nat) : Prop :=
  ∃ index < count, ∃ segment, all[index]? = some segment ∧
    CoconutNativeWorkspace.listable segment = true ∧ segment.id = id

/-- No other segment that can be listed has its id, before some place of the record. -/
def Alone (all : List CoconutSegment) (count index : Nat) (segment : CoconutSegment) : Prop :=
  CoconutNativeWorkspace.listable segment = true ∧
    ∀ other < count, other ≠ index → ∀ item, all[other]? = some item →
      CoconutNativeWorkspace.listable item = true → item.id ≠ segment.id

/-- A table whose searches end, with the ids of the first segments of a record. -/
structure Table (all : List CoconutSegment) (count : Nat) (segments : List SegmentEntry) : Prop where
  power : ∃ exponent, segments.length = 2 ^ exponent
  chained : Chained segments.length segmentHash (idIn segments)
  few : (occupied segments.length (idIn segments)).card ≤ count
  entry : ∀ slot < segments.length, ∀ id ∈ idIn segments slot,
    ∃ segment, all[(segments.getD slot default).index]? = some segment ∧
      (segments.getD slot default).index < count ∧
      CoconutNativeWorkspace.listable segment = true ∧ segment.id = id ∧
      ¬ ListedBefore all (segments.getD slot default).index id
  present : ∀ id, ListedBefore all count id → ∃ slot < segments.length, idIn segments slot = some id

theorem idIn_some {segments : List SegmentEntry} {slot id : Nat}
    (h : idIn segments slot = some id) : (segments.getD slot default).id = id ∧ id ≠ 0 := by
  rw [idIn] at h
  split at h
  · contradiction
  · next hne => exact ⟨Option.some.inj h, Option.some.inj h ▸ hne⟩

theorem idIn_none {segments : List SegmentEntry} {slot : Nat} :
    idIn segments slot = none ↔ (segments.getD slot default).id = 0 := by
  rw [idIn]
  split <;> simp_all

namespace Table

variable {B : Type} {all : List CoconutSegment} {count id : Nat}
  {workspace : CoconutNativeWorkspace B}

/-- A search ends at the segment's entry, or where it would be. -/
theorem segmentEntry_spec (h : Table all count workspace.segments)
    (hroom : count < workspace.segments.length) (hid : id ≠ 0) :
    ∃ slot < workspace.segments.length, workspace.segmentEntry id = some slot ∧
      ((workspace.segments.getD slot default).id = id ∧ idIn workspace.segments slot = some id ∨
        (workspace.segments.getD slot default).id = 0 ∧ ¬ ListedBefore all count id ∧
          Chained workspace.segments.length segmentHash
            (Function.update (idIn workspace.segments) slot (some id))) := by
  obtain ⟨exponent, hpower⟩ := h.power
  obtain ⟨slot, hslot, hprobe, hfound⟩ := probe_ends (exists_free (h.few.trans_lt hroom)) h.chained id
  refine ⟨slot, hslot, ?_, ?_⟩
  · rw [CoconutNativeWorkspace.segmentEntry, CoconutNativeWorkspace.segmentLoop_eq hpower hid,
      ← hprobe, segmentHash]
    refine congrArg _ ?_
    rw [hpower, Nat.and_two_pow_sub_one_eq_mod]
  · rcases hfound with hsome | ⟨hnone, habsent, hchained⟩
    · exact .inl ⟨(idIn_some hsome).1, hsome⟩
    · refine .inr ⟨idIn_none.mp hnone, fun hlisted => ?_, hchained⟩
      obtain ⟨other, hother, hstored⟩ := h.present id hlisted
      exact habsent other hother hstored

end Table

theorem listedBefore_succ {all : List CoconutSegment} {count id : Nat} {segment : CoconutSegment}
    (h : all[count]? = some segment) : ListedBefore all (count + 1) id ↔
      ListedBefore all count id ∨
        CoconutNativeWorkspace.listable segment = true ∧ segment.id = id := by
  constructor
  · intro ⟨index, hindex, item, hitem, hlistable, hid⟩
    rcases Nat.eq_or_lt_of_le (Nat.le_of_lt_succ hindex) with rfl | hless
    · obtain rfl := Option.some.inj (h.symm.trans hitem)
      exact .inr ⟨hlistable, hid⟩
    · exact .inl ⟨index, hless, item, hitem, hlistable, hid⟩
  · rintro (⟨index, hindex, rest⟩ | ⟨hlistable, hid⟩)
    · exact ⟨index, Nat.lt_succ_of_lt hindex, rest⟩
    · exact ⟨count, Nat.lt_succ_self _, segment, h, hlistable, hid⟩

theorem alone_succ {all : List CoconutSegment} {count index : Nat} {segment item : CoconutSegment}
    (h : all[count]? = some segment) (hindex : index < count) :
    Alone all (count + 1) index item ↔ Alone all count index item ∧
      (CoconutNativeWorkspace.listable segment = true → segment.id ≠ item.id) := by
  constructor
  · intro ⟨hlistable, halone⟩
    exact ⟨⟨hlistable, fun other hother => halone other (Nat.lt_succ_of_lt hother)⟩,
      halone count (Nat.lt_succ_self _) (Nat.ne_of_gt hindex) segment h⟩
  · intro ⟨⟨hlistable, halone⟩, hlast⟩
    refine ⟨hlistable, fun other hother hne found hfound => ?_⟩
    rcases Nat.eq_or_lt_of_le (Nat.le_of_lt_succ hother) with rfl | hless
    · obtain rfl := Option.some.inj (h.symm.trans hfound)
      exact hlast
    · exact halone other hless hne found hfound

theorem alone_last {all : List CoconutSegment} {count : Nat} {segment : CoconutSegment} :
    Alone all (count + 1) count segment ↔ CoconutNativeWorkspace.listable segment = true ∧
      ¬ ListedBefore all count segment.id := by
  refine and_congr_right fun _ => ⟨?_, ?_⟩
  · intro halone ⟨index, hindex, item, hitem, hlistable, hid⟩
    exact halone index (Nat.lt_succ_of_lt hindex) (Nat.ne_of_lt hindex) item hitem hlistable hid
  · intro hnone other hother hne item hitem hlistable hid
    exact hnone ⟨other, lt_of_le_of_ne (Nat.le_of_lt_succ hother) hne, item, hitem, hlistable, hid⟩

/-- A support that nothing was found for. -/
def fresh (B : Type) (valid : Bool) : CoconutSegmentSupport B := ⟨0, {}, ⟨[], []⟩, none, false, valid⟩

/-- A workspace whose table and supports are those of the first segments. -/
structure Listed {B : Type} (all : List CoconutSegment) (count : Nat)
    (workspace : CoconutNativeWorkspace B) : Prop where
  table : Table all count workspace.segments
  length_le : all.length ≤ workspace.support.length
  supports : ∀ index < count, ∀ segment, all[index]? = some segment →
    ∃ valid, workspace.support[index]? = some (fresh B valid) ∧
      (valid = true ↔ Alone all count index segment)
  unlisted : workspace.unlistedSegment = 0

namespace Table

variable {all : List CoconutSegment} {count : Nat} {segments : List SegmentEntry}
  {segment : CoconutSegment}

theorem skip (h : Table all count segments) (hsegment : all[count]? = some segment)
    (hold : CoconutNativeWorkspace.listable segment = true → ListedBefore all count segment.id) :
    Table all (count + 1) segments := by
  refine ⟨h.power, h.chained, Nat.le_succ_of_le h.few, fun slot hslot id hid => ?_, fun id hlisted => ?_⟩
  · obtain ⟨item, hitem, hless, hrest⟩ := h.entry slot hslot id hid
    exact ⟨item, hitem, Nat.lt_succ_of_lt hless, hrest⟩
  · rcases (listedBefore_succ hsegment).mp hlisted with hbefore | ⟨hlistable, rfl⟩
    · exact h.present id hbefore
    · exact h.present _ (hold hlistable)

theorem getD_set {slot other : Nat} (hslot : slot < segments.length) (entry : SegmentEntry) :
    (segments.set slot entry).getD other default =
      if other = slot then entry else segments.getD other default := by
  rw [List.getD_eq_getElem?_getD, List.getD_eq_getElem?_getD]
  split
  · next hsame => rw [hsame, List.getElem?_set_self hslot, Option.getD_some]
  · next hne => rw [List.getElem?_set_ne (Ne.symm hne)]

theorem store {slot : Nat} (h : Table all count segments) (hsegment : all[count]? = some segment)
    (hlistable : CoconutNativeWorkspace.listable segment = true) (hid : segment.id ≠ 0)
    (hslot : slot < segments.length) (hfree : (segments.getD slot default).id = 0)
    (hnew : ¬ ListedBefore all count segment.id)
    (hchained : Chained segments.length segmentHash
      (Function.update (idIn segments) slot (some segment.id))) :
    Table all (count + 1) (segments.set slot ⟨segment.id, count⟩) := by
  have hids : idIn (segments.set slot ⟨segment.id, count⟩) =
      Function.update (idIn segments) slot (some segment.id) :=
    CoconutNativeWorkspace.idIn_set hslot ⟨segment.id, count⟩ hid
  refine ⟨?_, ?_, ?_, fun other hother id hstored => ?_, fun id hlisted => ?_⟩
  · rw [List.length_set]
    exact h.power
  · rw [List.length_set, hids]
    exact hchained
  · rw [List.length_set, hids]
    exact (occupied_update_le slot).trans (Nat.succ_le_succ h.few)
  · rw [List.length_set] at hother
    rw [hids] at hstored
    rw [getD_set hslot]
    rcases eq_or_ne other slot with rfl | hne
    · rw [Function.update_self, Option.mem_some_iff] at hstored
      rw [if_pos rfl]
      exact ⟨segment, hsegment, Nat.lt_succ_self _, hlistable, hstored, hstored ▸ hnew⟩
    · rw [Function.update_of_ne hne] at hstored
      rw [if_neg hne]
      obtain ⟨item, hitem, hless, hrest⟩ := h.entry other hother id hstored
      exact ⟨item, hitem, Nat.lt_succ_of_lt hless, hrest⟩
  · rw [List.length_set, hids]
    rcases (listedBefore_succ hsegment).mp hlisted with hbefore | ⟨-, rfl⟩
    · obtain ⟨other, hother, hstored⟩ := h.present id hbefore
      have hne : other ≠ slot := fun hsame => by
        rw [hsame, idIn_none.mpr hfree] at hstored
        contradiction
      exact ⟨other, hother, (Function.update_of_ne hne _ _).trans hstored⟩
    · exact ⟨slot, hslot, Function.update_self _ _ _⟩

end Table

theorem listable_id_ne {segment : CoconutSegment}
    (h : CoconutNativeWorkspace.listable segment = true) : segment.id ≠ 0 := by
  simp only [CoconutNativeWorkspace.listable, Bool.and_eq_true, decide_eq_true_eq] at h
  exact h.1.2

namespace Listed

variable {B : Type} {all : List CoconutSegment} {count : Nat}
  {workspace : CoconutNativeWorkspace B} {segment : CoconutSegment}

/-- The supports of the segments before, and a new one for the next. -/
theorem supports_succ {support : List (CoconutSegmentSupport B)} {valid : Bool}
    (hsegment : all[count]? = some segment)
    (hlast : support[count]? = some (fresh B valid))
    (hvalid : valid = true ↔ Alone all (count + 1) count segment)
    (hbefore : ∀ index < count, ∀ item, all[index]? = some item →
      ∃ valid, support[index]? = some (fresh B valid) ∧
        (valid = true ↔ Alone all (count + 1) index item)) :
    ∀ index < count + 1, ∀ item, all[index]? = some item →
      ∃ valid, support[index]? = some (fresh B valid) ∧
        (valid = true ↔ Alone all (count + 1) index item) := by
  intro index hindex item hitem
  rcases Nat.eq_or_lt_of_le (Nat.le_of_lt_succ hindex) with rfl | hless
  · obtain rfl := Option.some.inj (hsegment.symm.trans hitem)
    exact ⟨valid, hlast, hvalid⟩
  · exact hbefore index hless item hitem

/-- One more segment: a new entry, or nothing to list, or two segments that are not valid. -/
theorem listSegment_spec (h : Listed all count workspace)
    (hroom : count < workspace.segments.length) (hsegment : all[count]? = some segment) :
    ∃ after, workspace.listSegment count segment = .ok after ∧
      after.segments.length = workspace.segments.length ∧ Listed all (count + 1) after := by
  have hcount : count < workspace.support.length :=
    (List.getElem?_eq_some_iff.mp hsegment).1.trans_le h.length_le
  have hreset : (workspace.support.modify count (CoconutNativeWorkspace.resetSupport · segment))[count]? =
      some (fresh B (CoconutNativeWorkspace.listable segment)) := by
    rw [List.getElem?_modify_eq, List.getElem?_eq_getElem hcount]
    rfl
  have hkept : ∀ index < count, (workspace.support.modify count
      (CoconutNativeWorkspace.resetSupport · segment))[index]? = workspace.support[index]? :=
    fun index hindex => List.getElem?_modify_ne _ _ (Nat.ne_of_gt hindex)
  rw [CoconutNativeWorkspace.listSegment]
  cases hlistable : CoconutNativeWorkspace.listable segment with
  | false =>
      refine ⟨_, rfl, rfl, h.table.skip hsegment (by rw [hlistable]; nofun), ?_, ?_, h.unlisted⟩
      · rw [List.length_modify]
        exact h.length_le
      · refine supports_succ hsegment hreset ?_ fun index hindex item hitem => ?_
        · rw [alone_last, hlistable]
          exact iff_of_false nofun fun h => nomatch h.1
        · obtain ⟨valid, hvalid, halone⟩ := h.supports index hindex item hitem
          refine ⟨valid, (hkept index hindex).trans hvalid, ?_⟩
          rw [halone, alone_succ hsegment hindex, hlistable]
          exact ⟨fun h => ⟨h, nofun⟩, And.left⟩
  | true =>
      have hid := listable_id_ne hlistable
      obtain ⟨slot, hslot, hentry, hfound⟩ := h.table.segmentEntry_spec hroom hid
      have hlook : CoconutNativeWorkspace.segmentEntry { workspace with
          support := workspace.support.modify count
            (CoconutNativeWorkspace.resetSupport · segment) } segment.id = some slot := hentry
      rw [if_neg (by simp), hlook]
      rw [hlistable] at hreset
      rcases hfound with ⟨hsame, hstored⟩ | ⟨hfree, hnew, hchained⟩
      · obtain ⟨first, hfirst, hless, hfirstListable, hfirstId, -⟩ :=
          h.table.entry slot hslot _ hstored
        refine ⟨_, if_pos (by rw [hsame]; exact hid), rfl, ?_, ?_, ?_, h.unlisted⟩
        · exact h.table.skip hsegment fun _ => ⟨_, hless, first, hfirst, hfirstListable, hfirstId⟩
        · rw [List.length_modify, List.length_modify, List.length_modify]
          exact h.length_le
        · refine (@supports_succ _ _ _ _ _ false) hsegment ?_ ?_ fun index hindex item hitem => ?_
          · rw [List.getElem?_modify_eq, List.getElem?_modify_ne _ _ (Nat.ne_of_lt hless), hreset]
            rfl
          · rw [alone_last]
            exact iff_of_false nofun fun h =>
              h.2 ⟨_, hless, first, hfirst, hfirstListable, hfirstId⟩
          · obtain ⟨valid, hvalid, halone⟩ := h.supports index hindex item hitem
            rw [alone_succ hsegment hindex, List.getElem?_modify_ne _ _ (Nat.ne_of_gt hindex)]
            rcases eq_or_ne index (workspace.segments.getD slot default).index with rfl | hne
            · obtain rfl := Option.some.inj (hfirst.symm.trans hitem)
              refine ⟨false, ?_, iff_of_false nofun fun h => h.2 hlistable hfirstId.symm⟩
              rw [List.getElem?_modify_eq, hkept _ hindex, hvalid]
              rfl
            · refine ⟨valid, ?_, ?_⟩
              · rw [List.getElem?_modify_ne _ _ hne.symm, hkept _ hindex, hvalid]
              · rw [halone]
                refine ⟨fun hitemAlone => ⟨hitemAlone, fun _ hsameId => ?_⟩, And.left⟩
                exact hitemAlone.2 _ hless hne.symm first hfirst hfirstListable
                  (hfirstId.trans hsameId)
      · refine ⟨_, if_neg (by rw [hfree]; nofun), List.length_set, ?_, ?_, ?_, h.unlisted⟩
        · exact h.table.store hsegment hlistable hid hslot hfree hnew hchained
        · rw [List.length_modify]
          exact h.length_le
        · refine supports_succ hsegment hreset ?_ fun index hindex item hitem => ?_
          · rw [alone_last]
            exact iff_of_true rfl ⟨hlistable, hnew⟩
          · obtain ⟨valid, hvalid, halone⟩ := h.supports index hindex item hitem
            refine ⟨valid, (hkept index hindex).trans hvalid, ?_⟩
            rw [halone, alone_succ hsegment hindex]
            refine ⟨fun hitemAlone => ⟨hitemAlone, fun _ hsameId => ?_⟩, And.left⟩
            exact hnew ⟨index, hindex, item, hitem, hitemAlone.1, hsameId.symm⟩

theorem listSegments_spec (rest : List CoconutSegment) (h : Listed all count workspace)
    (hrest : all.drop count = rest) (hroom : all.length < workspace.segments.length) :
    ∃ after, workspace.listSegments count rest = .ok after ∧
      after.segments.length = workspace.segments.length ∧ Listed all (count + rest.length) after := by
  induction rest generalizing count workspace with
  | nil => exact ⟨workspace, rfl, rfl, h⟩
  | cons segment rest ih =>
      have hsegment : all[count]? = some segment := by
        rw [← Nat.add_zero count, ← List.getElem?_drop, hrest]
        rfl
      have hlt := (List.getElem?_eq_some_iff.mp hsegment).1
      obtain ⟨middle, hstep, hlength, hlisted⟩ := h.listSegment_spec (by omega) hsegment
      obtain ⟨after, hafter, hsame, hall⟩ := ih hlisted
        (by rw [← List.drop_drop, hrest]; rfl) (hlength ▸ hroom)
      refine ⟨after, ?_, hsame.trans hlength, ?_⟩
      · rw [CoconutNativeWorkspace.listSegments, hstep]
        exact hafter
      · rw [List.length_cons, Nat.add_comm rest.length 1, ← Nat.add_assoc]
        exact hall

end Listed

theorem le_bitCeil (value : Nat) : value ≤ bitCeil value := Nat.le_pow_clog Nat.one_lt_two value

theorem idIn_replicate (size : Nat) :
    idIn (List.replicate size ⟨0, 0⟩) = fun _ => none := by
  funext slot
  rw [idIn_none, List.getD_eq_getElem?_getD, List.getElem?_replicate]
  split <;> rfl

theorem table_empty (all : List CoconutSegment) (value : Nat) :
    Table all 0 (List.replicate (bitCeil value) ⟨0, 0⟩) := by
  refine ⟨⟨_, List.length_replicate⟩, ?_, ?_, fun slot _ id hid => ?_, fun id hlisted => ?_⟩
  · rw [idIn_replicate]
    exact chained_empty
  · rw [idIn_replicate]
    refine Nat.le_of_eq (Finset.card_eq_zero.mpr (Finset.filter_false_of_mem fun _ _ => ?_))
    exact Bool.false_ne_true
  · rw [idIn_replicate] at hid
    contradiction
  · obtain ⟨index, hindex, -⟩ := hlisted
    exact absurd hindex (Nat.not_lt_zero _)

namespace CoconutNativeWorkspace

variable {B : Type} (workspace : CoconutNativeWorkspace B) (segments : List CoconutSegment)

/-- A table of more slots than there are segments lists them all. -/
theorem listed_start : ∃ listed, (supports
      { segments := List.replicate (bitCeil (max 2 (segments.length * 2))) ⟨0, 0⟩
        support := workspace.support
        unlistedSegment := 0 } segments.length).listSegments 0 segments = .ok listed ∧
    segments.length < listed.segments.length ∧ Listed segments segments.length listed := by
  have hroom : segments.length < bitCeil (max 2 (segments.length * 2)) := by
    have hle := le_bitCeil (max 2 (segments.length * 2))
    omega
  have hstart : Listed segments 0 (supports
      { segments := List.replicate (bitCeil (max 2 (segments.length * 2))) ⟨0, 0⟩
        support := workspace.support
        unlistedSegment := 0 } segments.length) := by
    refine ⟨table_empty segments _, ?_, fun index hindex => absurd hindex (Nat.not_lt_zero _), rfl⟩
    simp only [supports, List.length_append, List.length_replicate]
    omega
  obtain ⟨listed, hlisted, hlength, hall⟩ := hstart.listSegments_spec segments rfl
    (by simpa [supports] using hroom)
  rw [Nat.zero_add] at hall
  refine ⟨listed, hlisted, ?_, hall⟩
  rw [hlength]
  simpa [supports] using hroom

end CoconutNativeWorkspace

end Mmltk.Coconut
