import Mathlib.Data.List.Induction
import Mathlib.Data.List.InsertIdx
import Mmltk.Transport.RecordRing

namespace Mmltk.Transport

open Mmltk.Foundation

variable {V : Type} {schema : EventSchema} {encode : ServerRecord V → List UInt8}
  {record prior : ServerRecord V} {kept : List (ServerRecord V)}

/-! The queue both sides are meant to keep. -/

def ServerRecord.latestState : ServerRecord V → Option (SystemEvent V)
  | .systemEvent event => if event.delivery = .latestState then some event else none
  | _ => none

def ServerRecord.delivery : ServerRecord V → EventDelivery
  | .systemEvent event => event.delivery
  | _ => .critical

def pendingPolicy (V : Type) : Coalescing (ServerRecord V) (Nat × Nat) where
  capacity := kBrowserRecordRingCapacity
  key record := record.latestState.map fun event => (event.systemId, event.eventId)
  revision record := (record.latestState.map fun event => event.stateRevision).getD 0
  transient record := record.delivery = .transient

@[simp] theorem pendingPolicy_transient (record : ServerRecord V) :
    (pendingPolicy V).transient record = decide (record.delivery = .transient) := rfl

theorem latestState_eq_some {event : SystemEvent V} (h : record.latestState = some event) :
    record = .systemEvent event ∧ event.delivery = .latestState := by
  cases record with
  | systemEvent other =>
      rw [ServerRecord.latestState] at h
      split at h
      · next hdelivery =>
          cases h
          exact ⟨rfl, hdelivery⟩
      · cases h
  | bootstrap _ => cases h
  | intentReply _ => cases h
  | interactionRejected _ => cases h
  | integrationControl _ => cases h

theorem key_eq_some {key : Nat × Nat} :
    (pendingPolicy V).key record = some key ↔
      ∃ event, record.latestState = some event ∧ (event.systemId, event.eventId) = key :=
  Option.map_eq_some_iff

theorem replaces_none (h : record.latestState = none) (prior : ServerRecord V) :
    (pendingPolicy V).replaces record prior = false := by
  rw [Coalescing.replaces]
  show ((record.latestState.map _).isSome && _) = false
  rw [h]
  rfl

theorem replaces_some {event : SystemEvent V} (h : record.latestState = some event) :
    (pendingPolicy V).replaces record prior = true ↔
      ∃ other, prior.latestState = some other ∧ other.systemId = event.systemId ∧
        other.eventId = event.eventId := by
  rw [Coalescing.replaces_iff]
  constructor
  · rintro ⟨key, hkey, hprior⟩
    obtain ⟨event', hevent, rfl⟩ := key_eq_some.mp hkey
    obtain ⟨other, hother, hsame⟩ := key_eq_some.mp hprior
    rw [h] at hevent
    cases hevent
    exact ⟨other, hother, congrArg Prod.fst hsame, congrArg Prod.snd hsame⟩
  · rintro ⟨other, hother, hsystem, hid⟩
    refine ⟨(event.systemId, event.eventId), key_eq_some.mpr ⟨event, h, rfl⟩,
      key_eq_some.mpr ⟨other, hother, ?_⟩⟩
    rw [hsystem, hid]

theorem findIdx?_congr {α : Type} {left right : α → Bool} {list : List α}
    (h : ∀ value ∈ list, left value = right value) : list.findIdx? left = list.findIdx? right := by
  induction list with
  | nil => rfl
  | cons value rest ih =>
      rw [List.findIdx?_cons, List.findIdx?_cons, h value (by simp),
        ih fun other hother => h other (List.mem_cons_of_mem _ hother)]

/-! The native record. -/

theorem outputRecord_latest {event : SystemEvent V} (h : record.latestState = some event) :
    outputRecord encode record =
      ⟨encode record, .critical, event.systemId, event.eventId, event.stateRevision⟩ := by
  obtain ⟨rfl, hdelivery⟩ := latestState_eq_some h
  rw [outputRecord]
  simp only [priority, hdelivery]
  rfl

theorem outputRecord_discrete (h : record.latestState = none) :
    (outputRecord encode record).stateSystem = 0 ∧
      (outputRecord encode record).stateEvent = 0 ∧
      ((outputRecord encode record).priority = .transient ↔ record.delivery = .transient) := by
  have hcritical : BrowserRecordPriority.critical = .transient ↔ EventDelivery.critical = .transient :=
    Iff.intro (fun h => nomatch h) (fun h => nomatch h)
  cases record with
  | systemEvent event =>
      have hdelivery : event.delivery ≠ .latestState := by
        intro hlatest
        rw [ServerRecord.latestState, if_pos hlatest] at h
        cases h
      have hrecord : outputRecord encode (.systemEvent event) =
          ⟨encode (.systemEvent event), priority event.delivery, 0, 0, 0⟩ := if_neg hdelivery
      rw [hrecord]
      refine ⟨rfl, rfl, ?_⟩
      show priority event.delivery = .transient ↔ event.delivery = .transient
      rw [priority]
      split
      · next hother =>
          constructor
          · exact fun hpriority => nomatch hpriority
          · exact fun hsame => absurd hsame hother
      · next hsame =>
          constructor
          · exact fun _ => not_not.mp hsame
          · exact fun _ => rfl
  | bootstrap _ => exact ⟨rfl, rfl, hcritical⟩
  | intentReply _ => exact ⟨rfl, rfl, hcritical⟩
  | interactionRejected _ => exact ⟨rfl, rfl, hcritical⟩
  | integrationControl _ => exact ⟨rfl, rfl, hcritical⟩

theorem priority_transient_iff :
    (outputRecord encode record).priority = .transient ↔ record.delivery = .transient := by
  cases h : record.latestState with
  | none => exact (outputRecord_discrete h).2.2
  | some event =>
      obtain ⟨rfl, hdelivery⟩ := latestState_eq_some h
      rw [outputRecord_latest h]
      constructor
      · exact fun hpriority => nomatch hpriority
      · intro htransient
        change event.delivery = .transient at htransient
        rw [hdelivery] at htransient
        cases htransient

theorem latest_nonzero {event : SystemEvent V} (hadmits : schema.Admits record)
    (h : record.latestState = some event) : event.systemId ≠ 0 ∧ event.eventId ≠ 0 := by
  obtain ⟨rfl, hdelivery⟩ := latestState_eq_some h
  apply schema.nonzero
  rw [show schema.delivery event.systemId event.eventId = some event.delivery from hadmits]
  rfl

theorem same_eq_replaces {event : SystemEvent V} (h : record.latestState = some event)
    (hnonzero : event.systemId ≠ 0) (prior : ServerRecord V) :
    BrowserRecordRing.same (outputRecord encode record) (outputRecord encode prior) =
      (pendingPolicy V).replaces record prior := by
  rw [Bool.eq_iff_iff, replaces_some h, BrowserRecordRing.same, Bool.and_eq_true,
    decide_eq_true_eq, decide_eq_true_eq, outputRecord_latest h]
  cases hprior : prior.latestState with
  | none =>
      rw [(outputRecord_discrete hprior).1]
      constructor
      · rintro ⟨hzero, -⟩
        exact absurd hzero.symm hnonzero
      · rintro ⟨other, hother, -⟩
        cases hother
  | some other =>
      rw [outputRecord_latest hprior]
      constructor
      · intro hsame
        exact ⟨other, rfl, hsame⟩
      · rintro ⟨other', hother, hsame⟩
        cases hother
        exact hsame

/-- What the ring answers to each verdict. -/
def answer : Verdict → BrowserRecordPush
  | .kept => .enqueued
  | .stale => .enqueued
  | .dropped => .dropped
  | .refused => .closePeer

open BrowserRecordRing in
theorem append_refines {ring : BrowserRecordRing} (h : Holds ring (kept.map (outputRecord encode)))
    (record : ServerRecord V) :
    Holds (ring.append (outputRecord encode record)).1
        (((pendingPolicy V).append kept record).1.map (outputRecord encode)) ∧
      (ring.append (outputRecord encode record)).2 =
        answer ((pendingPolicy V).append kept record).2 := by
  rw [Coalescing.append]
  by_cases hfull : kept.length = (pendingPolicy V).capacity
  · rw [append_full h (by rw [List.length_map]; exact hfull), if_pos hfull]
    refine ⟨h, ?_⟩
    show (if (outputRecord encode record).priority = .transient then _ else _) =
      answer (if decide (record.delivery = .transient) = true then _ else _)
    by_cases htransient : record.delivery = .transient
    · rw [if_pos (priority_transient_iff.mpr htransient), if_pos (by simpa using htransient)]
      rfl
    · rw [if_neg (fun hpriority => htransient (priority_transient_iff.mp hpriority)),
        if_neg (by simpa using htransient)]
      rfl
  · rw [if_neg hfull]
    have happended := h.append (outputRecord encode record) (by rw [List.length_map]; exact hfull)
    refine ⟨?_, happended.2⟩
    rw [List.map_append]
    exact happended.1

open BrowserRecordRing in
theorem push_refines {ring : BrowserRecordRing} (h : Holds ring (kept.map (outputRecord encode)))
    (hadmits : schema.Admits record) :
    Holds (ring.push (outputRecord encode record)).1
        (((pendingPolicy V).push kept record).1.map (outputRecord encode)) ∧
      (ring.push (outputRecord encode record)).2 =
        answer ((pendingPolicy V).push kept record).2 := by
  cases hlatest : record.latestState with
  | none =>
      have hring : ring.push (outputRecord encode record) =
          ring.append (outputRecord encode record) :=
        if_neg fun hstate => hstate.1 (outputRecord_discrete hlatest).1
      have hpolicy : (pendingPolicy V).push kept record =
          (pendingPolicy V).append kept record := by
        rw [Coalescing.push, List.findIdx?_eq_none_iff.mpr fun prior _ => replaces_none hlatest prior]
      rw [hring, hpolicy]
      exact append_refines h record
  | some event =>
      have hnonzero := latest_nonzero hadmits hlatest
      have hstate : (outputRecord encode record).stateSystem ≠ 0 ∧
          (outputRecord encode record).stateEvent ≠ 0 := by
        rw [outputRecord_latest hlatest]
        exact hnonzero
      have hindex : (kept.map (outputRecord encode)).findIdx? (same (outputRecord encode record)) =
          kept.findIdx? ((pendingPolicy V).replaces record) := by
        rw [List.findIdx?_map]
        exact findIdx?_congr fun prior _ => same_eq_replaces hlatest hnonzero.1 prior
      have hfind := findState_eq (outputRecord encode record) h (Nat.zero_add ring.size)
      rw [List.drop_zero, hindex] at hfind
      rw [push, if_pos hstate, hfind, Coalescing.push]
      cases hsearch : kept.findIdx? ((pendingPolicy V).replaces record) with
      | none => exact append_refines h record
      | some index =>
          obtain ⟨hlt, hreplaces, -⟩ := List.findIdx?_eq_some_iff_getElem.mp hsearch
          obtain ⟨other, hother, -⟩ := (replaces_some hlatest).mp hreplaces
          simp only [Option.bind_some, Nat.zero_add, List.getElem?_map,
            List.getElem?_eq_getElem hlt, Option.map_some]
          have hprior : (outputRecord encode kept[index]).stateRevision =
              (pendingPolicy V).revision kept[index] := by
            rw [outputRecord_latest hother]
            show other.stateRevision = (kept[index].latestState.map _).getD 0
            rw [hother]
            rfl
          have hrecord : (outputRecord encode record).stateRevision =
              (pendingPolicy V).revision record := by
            rw [outputRecord_latest hlatest]
            show event.stateRevision = (record.latestState.map _).getD 0
            rw [hlatest]
            rfl
          rw [hprior, hrecord]
          split
          · exact ⟨h, rfl⟩
          · have hoffset : index < ring.size := by
              rw [← h.length_eq, List.length_map]
              exact hlt
            have hremoved := h.remove hoffset
            rw [List.eraseIdx_map] at hremoved
            exact append_refines hremoved record

/-! The frontend queue. -/

theorem applicationEvent_latest (schema : EventSchema) {event : SystemEvent V}
    (h : record.latestState = some event) :
    applicationEvent schema record =
      .systemEvent ⟨.latestState, event.stateRevision,
        ⟨schema.variant event.systemId event.eventId, event.value⟩⟩ := by
  obtain ⟨rfl, hdelivery⟩ := latestState_eq_some h
  rw [← hdelivery]
  rfl

/-- One variant of the event type stands for one identity of the schema. -/
theorem sameState_eq {event : SystemEvent V} (h : record.latestState = some event)
    (hadmits : schema.Admits record) (hprior : schema.Admits prior)
    (value : V) :
    sameState ⟨.latestState, event.stateRevision,
        ⟨schema.variant event.systemId event.eventId, value⟩⟩ (applicationEvent schema prior) =
      if (pendingPolicy V).replaces record prior then some ((pendingPolicy V).revision prior)
      else none := by
  obtain ⟨rfl, hdelivery⟩ := latestState_eq_some h
  have hknown : (schema.delivery event.systemId event.eventId).isSome := by
    rw [show schema.delivery event.systemId event.eventId = some event.delivery from hadmits]
    rfl
  cases hlatest : prior.latestState with
  | none =>
      have hdiffers : (pendingPolicy V).replaces (.systemEvent event) prior ≠ true := by
        intro hreplaces
        obtain ⟨other, hother, -⟩ := (replaces_some h).mp hreplaces
        rw [hlatest] at hother
        cases hother
      rw [if_neg hdiffers]
      cases prior with
      | systemEvent other =>
          have hother : other.delivery ≠ .latestState := by
            intro hsame
            rw [ServerRecord.latestState, if_pos hsame] at hlatest
            cases hlatest
          exact if_neg fun hboth => hother hboth.1
      | bootstrap _ => rfl
      | intentReply _ => rfl
      | interactionRejected _ => rfl
      | integrationControl _ => rfl
  | some other =>
      obtain ⟨rfl, hother⟩ := latestState_eq_some hlatest
      have hknown' : (schema.delivery other.systemId other.eventId).isSome := by
        rw [show schema.delivery other.systemId other.eventId = some other.delivery from hprior]
        rfl
      have hrevision : (pendingPolicy V).revision (.systemEvent other) = other.stateRevision := by
        show ((ServerRecord.systemEvent other).latestState.map _).getD 0 = _
        rw [hlatest]
        rfl
      rw [applicationEvent, sameState, hrevision]
      apply if_congr _ rfl rfl
      rw [replaces_some h]
      constructor
      · intro hsame
        have hidentity := schema.injective _ _ _ _ hknown' hknown hsame.2
        exact ⟨other, hlatest, hidentity⟩
      · intro hsame
        obtain ⟨other', hother', hsystem, hevent⟩ := hsame
        rw [hlatest] at hother'
        cases hother'
        refine ⟨hother, ?_⟩
        show schema.variant other.systemId other.eventId =
          schema.variant event.systemId event.eventId
        rw [hsystem, hevent]

theorem frontend_findState_eq {event : SystemEvent V} (h : record.latestState = some event)
    (hadmits : schema.Admits record) (hkept : ∀ prior ∈ kept, schema.Admits prior)
    (value : V) (start : Nat) :
    findState ⟨.latestState, event.stateRevision,
        ⟨schema.variant event.systemId event.eventId, value⟩⟩ start
        (kept.map (applicationEvent schema)) =
      (kept.findIdx? ((pendingPolicy V).replaces record)).bind fun index =>
        kept[index]?.map fun prior => (start + index, (pendingPolicy V).revision prior) := by
  induction kept generalizing start with
  | nil => rfl
  | cons prior rest ih =>
      have hrest := ih (fun other hother => hkept other (List.mem_cons_of_mem _ hother)) (start + 1)
      rw [List.map_cons, findState, sameState_eq h hadmits (hkept prior (by simp)) value,
        List.findIdx?_cons]
      cases hreplaces : (pendingPolicy V).replaces record prior with
      | true => rfl
      | false =>
          simp only [Bool.false_eq_true, if_false]
          rw [hrest]
          cases rest.findIdx? ((pendingPolicy V).replaces record) with
          | none => rfl
          | some index =>
              have hshift : start + 1 + index = start + (index + 1) := by omega
              simp [hshift]

/-- What the frontend makes of each verdict. -/
def settle (schema : EventSchema) (result : List (ServerRecord V) × Verdict) :
    Except String (List (TransportEvent V)) :=
  if result.2 = .refused then
    .error "essential application event continuity capacity exceeded"
  else .ok (result.1.map (applicationEvent schema))

theorem retainAtEnd_refines (hcritical : record.delivery ≠ .transient) :
    retainAtEnd (kept.map (applicationEvent schema)) (applicationEvent schema record) =
      settle schema ((pendingPolicy V).append kept record) := by
  rw [retainAtEnd, List.length_map, Coalescing.append]
  by_cases hfull : kept.length = 64
  · have htransient : (pendingPolicy V).transient record = false := decide_eq_false hcritical
    rw [if_pos hfull, if_pos (show kept.length = (pendingPolicy V).capacity from hfull), htransient]
    rfl
  · rw [if_neg hfull, if_neg (show ¬ kept.length = (pendingPolicy V).capacity from hfull), settle,
      if_neg (fun h => by cases h), List.map_append]
    rfl

theorem retainEvent_refines (hadmits : schema.Admits record)
    (hkept : ∀ prior ∈ kept, schema.Admits prior) :
    retainEvent (kept.map (applicationEvent schema)) (applicationEvent schema record) =
      settle schema ((pendingPolicy V).push kept record) := by
  cases hlatest : record.latestState with
  | none =>
      have hpolicy : (pendingPolicy V).push kept record =
          (pendingPolicy V).append kept record := by
        rw [Coalescing.push, List.findIdx?_eq_none_iff.mpr fun prior _ => replaces_none hlatest prior]
      rw [hpolicy]
      cases record with
      | systemEvent event =>
          have hdelivery : event.delivery ≠ .latestState := by
            intro hsame
            rw [ServerRecord.latestState, if_pos hsame] at hlatest
            cases hlatest
          rw [applicationEvent, retainEvent]
          simp only
          rw [if_neg hdelivery, List.length_map]
          by_cases htransient : event.delivery = .transient
          · by_cases hfull : kept.length = 64
            · have hdrop : (pendingPolicy V).transient (.systemEvent event) = true :=
                decide_eq_true htransient
              rw [if_pos ⟨htransient, hfull⟩, Coalescing.append,
                if_pos (show kept.length = (pendingPolicy V).capacity from hfull), hdrop]
              rfl
            · rw [if_neg (fun hboth => hfull hboth.2), retainAtEnd, List.length_map, if_neg hfull,
                Coalescing.append, if_neg (show ¬ kept.length = (pendingPolicy V).capacity from hfull),
                settle, if_neg (fun h => by cases h), List.map_append]
              rfl
          · rw [if_neg (fun hboth => htransient hboth.1)]
            have hcritical : (ServerRecord.systemEvent event).delivery ≠ .transient := htransient
            exact retainAtEnd_refines hcritical
      | bootstrap value => exact retainAtEnd_refines (fun h => by cases h)
      | intentReply value => exact retainAtEnd_refines (fun h => by cases h)
      | interactionRejected value => exact retainAtEnd_refines (fun h => by cases h)
      | integrationControl value => exact retainAtEnd_refines (fun h => by cases h)
  | some event =>
      have hcritical : record.delivery ≠ .transient := by
        obtain ⟨rfl, hdelivery⟩ := latestState_eq_some hlatest
        intro htransient
        change event.delivery = .transient at htransient
        rw [hdelivery] at htransient
        cases htransient
      have hrevision : (pendingPolicy V).revision record = event.stateRevision := by
        show (record.latestState.map _).getD 0 = _
        rw [hlatest]
        rfl
      have hfind := frontend_findState_eq hlatest hadmits hkept event.value 0
      have hevent := applicationEvent_latest schema hlatest
      rw [hevent, retainEvent, if_pos rfl, hfind, Coalescing.push, ← hevent]
      cases hsearch : kept.findIdx? ((pendingPolicy V).replaces record) with
      | none => exact retainAtEnd_refines hcritical
      | some index =>
          obtain ⟨hlt, -, -⟩ := List.findIdx?_eq_some_iff_getElem.mp hsearch
          simp only [Option.bind_some, Nat.zero_add, List.getElem?_eq_getElem hlt,
            Option.map_some, hrevision, ge_iff_le]
          split
          · rfl
          · rw [List.eraseIdx_map]
            exact retainAtEnd_refines hcritical

/-! Both sides under one sequence of requests. -/

structure Agree (schema : EventSchema) (encode : ServerRecord V → List UInt8)
    (trace : Coalescing.Trace (ServerRecord V) (Nat × Nat)) (native : NativeSide)
    (frontend : FrontendSide V) : Prop where
  ring : native.ring.Holds (trace.queue.map (outputRecord encode))
  sent : native.sent = trace.taken.map (outputRecord encode)
  native_closed : native.closed = trace.closed
  pending : frontend.pending = trace.queue.map (applicationEvent schema)
  delivered : frontend.delivered = trace.taken.map (applicationEvent schema)
  frontend_closed : frontend.closed = trace.closed
  admitted : ∀ record ∈ trace.queue, schema.Admits record

theorem Agree.initial : Agree schema encode .initial .initial .initial where
  ring := .empty
  sent := rfl
  native_closed := rfl
  pending := rfl
  delivered := rfl
  frontend_closed := rfl
  admitted _ hmem := (List.not_mem_nil hmem).elim

section Step

open Coalescing

variable {trace : Trace (ServerRecord V) (Nat × Nat)} {native : NativeSide}
  {frontend : FrontendSide V}

theorem push_admitted (hkept : ∀ prior ∈ kept, schema.Admits prior)
    (hadmits : schema.Admits record) :
    ∀ prior ∈ ((pendingPolicy V).push kept record).1, schema.Admits prior := by
  have happend : ∀ {queue : List (ServerRecord V)}, (∀ prior ∈ queue, prior ∈ kept) →
      ∀ prior ∈ ((pendingPolicy V).append queue record).1, schema.Admits prior := by
    intro queue hqueue prior hmem
    rw [Coalescing.append] at hmem
    split at hmem
    · exact hkept prior (hqueue prior hmem)
    · rcases List.mem_append.mp hmem with hold | hnew
      · exact hkept prior (hqueue prior hold)
      · rw [List.mem_singleton] at hnew
        exact hnew ▸ hadmits
  rcases push_cases (pendingPolicy V) kept record with
    ⟨-, hpush⟩ | ⟨front, prior, back, hqueue, -, -, hpush⟩
  · rw [hpush]
    exact happend fun _ hmem => hmem
  · rw [hpush]
    split
    · exact hkept
    · apply happend
      intro other hmem
      rw [hqueue]
      rcases List.mem_append.mp hmem with hfront | hback
      · exact List.mem_append_left _ hfront
      · exact List.mem_append_right _ (List.mem_cons_of_mem _ hback)

theorem Agree.push (h : Agree schema encode trace native frontend)
    (hadmits : schema.Admits record) :
    Agree schema encode ((pendingPolicy V).step trace (.push record))
      (native.step encode (.push record)) (frontend.step schema (.push record)) := by
  rw [Coalescing.step, NativeSide.step, FrontendSide.step, h.native_closed, h.frontend_closed]
  by_cases hclosed : trace.closed = true
  · rw [if_pos hclosed, if_pos hclosed, if_pos hclosed]
    exact h
  · obtain ⟨hring, hanswer⟩ := push_refines h.ring hadmits
    have hretain := retainEvent_refines hadmits h.admitted
    have hadmitted := push_admitted h.admitted hadmits
    have hopen : trace.closed = false := Bool.eq_false_iff.mpr hclosed
    have hbounded : trace.queue.length ≤ (pendingPolicy V).capacity := by
      have hsize := h.ring.size_le
      rw [← h.ring.length_eq, List.length_map] at hsize
      exact hsize
    rw [if_neg hclosed, if_neg hclosed, if_neg hclosed]
    simp only [h.pending, hretain, hanswer, settle]
    cases hverdict : ((pendingPolicy V).push trace.queue record).2 with
    | kept =>
        exact ⟨hring, h.sent, hopen.symm, rfl, h.delivered, rfl, hadmitted⟩
    | stale =>
        have hsame := push_unchanged (by rw [hverdict]; exact fun h => by cases h) hbounded
        rw [hsame] at hring ⊢
        exact ⟨hring, h.sent, hopen.symm, rfl, h.delivered, rfl, h.admitted⟩
    | dropped =>
        have hsame := push_unchanged (by rw [hverdict]; exact fun h => by cases h) hbounded
        rw [hsame] at hring ⊢
        exact ⟨hring, h.sent, hopen.symm, rfl, h.delivered, rfl, h.admitted⟩
    | refused =>
        have hsame := push_unchanged (by rw [hverdict]; exact fun h => by cases h) hbounded
        rw [hsame] at hring
        exact ⟨hring, h.sent, rfl, rfl, h.delivered, rfl, h.admitted⟩

theorem Agree.pop (h : Agree schema encode trace native frontend) :
    Agree schema encode ((pendingPolicy V).step trace .pop)
      (native.step encode .pop) (frontend.step schema .pop) := by
  rw [Coalescing.step, NativeSide.step, FrontendSide.step, h.native_closed, h.frontend_closed]
  by_cases hclosed : trace.closed = true
  · rw [if_pos hclosed, if_pos hclosed, if_pos hclosed]
    exact h
  · rw [if_neg hclosed, if_neg hclosed, if_neg hclosed, h.pending]
    have hring := h.ring
    cases hqueue : trace.queue with
    | nil =>
        rw [hqueue] at hring
        simp only [BrowserRecordRing.pop_nil hring, Option.toList_none, List.append_nil]
        exact ⟨h.ring, h.sent, rfl, h.pending, h.delivered, h.frontend_closed, h.admitted⟩
    | cons record rest =>
        rw [hqueue] at hring
        obtain ⟨hrest, hrecord⟩ := BrowserRecordRing.Holds.pop hring
        have hadmitted := h.admitted
        rw [hqueue] at hadmitted
        simp only [hrecord, List.map_cons]
        refine ⟨hrest, ?_, rfl, rfl, ?_, rfl, ?_⟩
        · rw [h.sent, List.map_append]
          rfl
        · rw [h.delivered, List.map_append]
          rfl
        · exact fun other hmem => hadmitted other (List.mem_cons_of_mem _ hmem)

end Step

open Coalescing in
theorem run_agree (encode : ServerRecord V → List UInt8) (requests : List (Request (ServerRecord V)))
    (hadmits : ∀ record, .push record ∈ requests → schema.Admits record) :
    Agree schema encode ((pendingPolicy V).run requests) (.run encode requests)
      (.run schema requests) := by
  induction requests using List.reverseRecOn with
  | nil => exact .initial
  | append_singleton earlier request ih =>
      have h := ih fun record hmem => hadmits record (List.mem_append_left _ hmem)
      rw [Coalescing.run, NativeSide.run, FrontendSide.run, List.foldl_append, List.foldl_append,
        List.foldl_append]
      cases request with
      | push record => exact h.push (hadmits record (by simp))
      | pop => exact h.pop

open Coalescing in
/-- Both sides hold what the one coalescing queue holds: at most 64 records, one for each
latest-state identity with the newest revision since it was last taken, the others in push order.
A transient record is dropped when 64 are held; only a record that then needs a place of its own
and may not be dropped ends the connection. -/
theorem pending_records_agree (schema : EventSchema) (encode : ServerRecord V → List UInt8)
    (requests : List (Request (ServerRecord V)))
    (hadmits : ∀ record, .push record ∈ requests → schema.Admits record) :
    Agree schema encode ((pendingPolicy V).run requests) (.run encode requests)
        (.run schema requests) ∧
      Sound (pendingPolicy V) ((pendingPolicy V).run requests) ∧
      (∀ record, ((pendingPolicy V).run requests).closed = false → record.latestState = none →
        (pendingPolicy V).run (requests ++ [.push record]) =
          if ((pendingPolicy V).run requests).queue.length < kBrowserRecordRingCapacity then
            { (pendingPolicy V).run requests with
              queue := ((pendingPolicy V).run requests).queue ++ [record],
              stored := ((pendingPolicy V).run requests).stored ++ [record] }
          else if record.delivery = .transient then (pendingPolicy V).run requests
          else { (pendingPolicy V).run requests with closed := true }) ∧
      ∀ record, ((pendingPolicy V).run requests).closed = false →
        (((pendingPolicy V).run (requests ++ [.push record])).closed = true ↔
          ((pendingPolicy V).run requests).queue.length = kBrowserRecordRingCapacity ∧
            record.delivery ≠ .transient ∧
            ∀ prior ∈ ((pendingPolicy V).run requests).queue,
              (pendingPolicy V).replaces record prior = false) := by
  refine ⟨run_agree encode requests hadmits, run_sound requests, ?_, ?_⟩
  · intro record hopen hlatest
    have hdiscrete : (pendingPolicy V).discrete record = true := by
      show (record.latestState.map _).isNone = true
      rw [hlatest]
      rfl
    rw [run_push_discrete requests hdiscrete hopen]
    simp only [pendingPolicy_transient, decide_eq_true_eq]
    rfl
  · intro record hopen
    rw [run_push_closed_iff requests record hopen]
    simp only [pendingPolicy_transient, decide_eq_false_iff_not]
    rfl

/-! A schema of one transient event and one state. -/

def progressSchema : EventSchema where
  delivery system event :=
    if system = 1 ∧ event = 1 then some .transient
    else if system = 1 ∧ event = 2 then some .latestState
    else none
  variant _ event := event
  nonzero system event h := by
    split at h
    · next hfirst => omega
    · split at h
      · next hsecond => omega
      · cases h
  injective system event system' event' h h' hvariant := by
    have hsystem : ∀ {system event : Nat},
        (if system = 1 ∧ event = 1 then some EventDelivery.transient
          else if system = 1 ∧ event = 2 then some EventDelivery.latestState
          else none).isSome → system = 1 := by
      intro system event h
      split at h
      · next hfirst => exact hfirst.1
      · split at h
        · next hsecond => exact hsecond.1
        · cases h
    exact ⟨(hsystem h).trans (hsystem h').symm, hvariant⟩

def progress (revision : Nat) : ServerRecord Nat :=
  .systemEvent ⟨1, 2, .latestState, revision, revision⟩

def tick : ServerRecord Nat :=
  .systemEvent ⟨1, 1, .transient, 0, 0⟩

theorem pending_records_agree_progress :
    Coalescing.Sound (pendingPolicy Nat)
      ((pendingPolicy Nat).run [.push (progress 1), .push tick, .push (progress 2), .pop]) :=
  (pending_records_agree progressSchema (fun _ => []) _ (by
    intro record hmem
    simp only [List.mem_cons, Coalescing.Request.push.injEq, List.not_mem_nil, or_false,
      reduceCtorEq] at hmem
    rcases hmem with rfl | rfl | rfl
    · rfl
    · rfl
    · rfl)).2.1

def crowded : List (Coalescing.Request (ServerRecord Nat)) :=
  List.replicate 64 (.push (.bootstrap 0)) ++ [.push tick]

/-- With 64 records held a transient one is lost on both sides though the connection goes on, and
once a state has been taken an older revision of it is held again. -/
theorem transient_record_lost :
    (progressSchema.Admits tick ∧
      (FrontendSide.run progressSchema crowded).closed = false ∧
      applicationEvent progressSchema tick ∉ (FrontendSide.run progressSchema crowded).delivered ∧
      applicationEvent progressSchema tick ∉ (FrontendSide.run progressSchema crowded).pending ∧
      (NativeSide.run (fun _ => []) crowded).closed = false ∧
      outputRecord (fun _ => []) tick ∉ (NativeSide.run (fun _ => []) crowded).sent ∧
      ∀ slot < 64, (NativeSide.run (fun _ => []) crowded).ring.records slot ≠
        some (outputRecord (fun _ => []) tick)) ∧
    (FrontendSide.run progressSchema
        [.push (progress 5), .pop, .push (progress 3)]).pending =
      [applicationEvent progressSchema (progress 3)] := by
  refine ⟨⟨rfl, ?_, ?_, ?_, ?_, ?_, ?_⟩, ?_⟩
  all_goals decide +kernel

end Mmltk.Transport
