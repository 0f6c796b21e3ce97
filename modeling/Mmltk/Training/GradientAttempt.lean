import Mmltk.Training.GradientSums

namespace Mmltk.Training

namespace Reducer

variable {M : Type} [AddCommMonoid M] {layout : BucketLayout} {count : Nat} {reducer : Reducer M}
  {slot bucket parameter : Nat}

/-! Submitting collectives. -/

structure Launched (layout : BucketLayout) (reducer : Reducer M) : Prop where
  order : reducer.submitted.map Collective.bucket = List.range reducer.nextBucket
  bound : reducer.nextBucket ≤ layout.size
  ready : ∀ bucket < reducer.nextBucket,
    reducer.bucketClosed bucket = reducer.expected ∧ reducer.countsSubmitted = true
  payload : ∀ collective ∈ reducer.submitted,
    collective.values = (layout.parameters collective.bucket).map (produced reducer.hooked)

/-- No collective that could be submitted waits. -/
def Waiting (layout : BucketLayout) (reducer : Reducer M) : Prop :=
  reducer.countsSubmitted = true → reducer.nextBucket = layout.size ∨
    reducer.bucketClosed reducer.nextBucket ≠ reducer.expected

theorem Launched.next (h : Launched layout reducer) (hbucket : reducer.nextBucket < layout.size)
    (hclosed : reducer.bucketClosed reducer.nextBucket = reducer.expected)
    (hcounts : reducer.countsSubmitted = true)
    (hvalues : ∀ parameter ∈ layout.parameters reducer.nextBucket,
      reducer.values parameter = produced reducer.hooked parameter) :
    Launched layout (reducer.launchNext layout) where
  order := by
    show (reducer.submitted ++ [_]).map _ = List.range (reducer.nextBucket + 1)
    rw [List.map_append, h.order, List.range_succ]
    rfl
  bound := hbucket
  ready bucket hlt := by
    rcases Nat.lt_succ_iff_lt_or_eq.mp hlt with hearlier | heq
    · exact h.ready bucket hearlier
    · exact heq ▸ ⟨hclosed, hcounts⟩
  payload collective hmem := by
    rcases List.mem_append.mp hmem with hold | hnew
    · exact h.payload collective hold
    · rw [List.mem_singleton] at hnew
      rw [hnew]
      exact List.map_congr_left hvalues

theorem launchLoop_spec (h : Launched layout reducer) (hcounts : reducer.countsSubmitted = true)
    (hvalues : ∀ bucket < layout.size, reducer.bucketClosed bucket = reducer.expected →
      ∀ parameter ∈ layout.parameters bucket,
        reducer.values parameter = produced reducer.hooked parameter)
    {left : Nat} (hleft : reducer.nextBucket + left = layout.size) :
    Launched layout (launchLoop layout left reducer) ∧
      Waiting layout (launchLoop layout left reducer) ∧
      ∃ submitted nextBucket, launchLoop layout left reducer =
        { reducer with submitted := submitted, nextBucket := nextBucket } := by
  induction left generalizing reducer with
  | zero => exact ⟨h, fun _ => .inl hleft, reducer.submitted, reducer.nextBucket, rfl⟩
  | succ left ih =>
      rw [launchLoop]
      split
      · next hclosed =>
          have hbucket : reducer.nextBucket < layout.size := by omega
          have hnext := h.next hbucket hclosed hcounts (hvalues _ hbucket hclosed)
          obtain ⟨hlaunched, hwaiting, submitted, nextBucket, heq⟩ :=
            @ih (reducer.launchNext layout) hnext hcounts hvalues
              (by show reducer.nextBucket + 1 + left = _; omega)
          exact ⟨hlaunched, hwaiting, submitted, nextBucket, heq⟩
      · next hopen => exact ⟨h, fun _ => .inr hopen, reducer.submitted, reducer.nextBucket, rfl⟩

/-! An attempt under way. -/

structure Underway (layout : BucketLayout) (count : Nat) (reducer : Reducer M) : Prop where
  active : reducer.active = true
  direct : reducer.direct = false
  handedOff : reducer.handedOff = false
  failure : reducer.failure = false
  expected : reducer.expected = count
  admitted_le : reducer.admitted ≤ reducer.expected
  counting : Counting layout reducer.slotCount reducer.slots reducer.closings reducer.bucketClosed
    reducer.admitted reducer.finished
  accounted : Accounted layout reducer.slotCount reducer.slots reducer.values reducer.hostUsage
    reducer.hooked reducer.admitted
  launched : Launched layout reducer

theorem Underway.closed_of_full (h : Underway layout count reducer) (hbucket : bucket < layout.size)
    (hfull : reducer.bucketClosed bucket = reducer.expected)
    (harmed : (reducer.slots slot).armed = true) : (reducer.slots slot).closed bucket = true := by
  apply h.counting.all_closed_of_full hbucket _ harmed
  rw [hfull]
  exact h.admitted_le

theorem Underway.launchReady (h : Underway layout count reducer) :
    Underway layout count (reducer.launchReady layout) ∧
      Waiting layout (reducer.launchReady layout) ∧
      ∃ submitted nextBucket, reducer.launchReady layout =
        { reducer with submitted := submitted, nextBucket := nextBucket } := by
  rw [Reducer.launchReady]
  split
  · next hquiet =>
      refine ⟨h, ?_, reducer.submitted, reducer.nextBucket, rfl⟩
      intro hcounts
      rcases hquiet with hnot | hdirect
      · rw [hcounts] at hnot
        cases hnot
      · rw [h.direct] at hdirect
        cases hdirect
  · next hloud =>
      have hcounts : reducer.countsSubmitted = true := by
        cases hcase : reducer.countsSubmitted with
        | true => rfl
        | false => exact absurd (.inl hcase) hloud
      have hbound := h.launched.bound
      have hvalues : ∀ bucket < layout.size, reducer.bucketClosed bucket = reducer.expected →
          ∀ parameter ∈ layout.parameters bucket,
            reducer.values parameter = produced reducer.hooked parameter := by
        intro bucket hbucket hfull parameter hparameter
        exact h.accounted.values_eq (fun slot harmed => h.closed_of_full hbucket hfull harmed)
          hparameter
      have hleft : reducer.nextBucket + (layout.size - reducer.nextBucket) = layout.size := by omega
      obtain ⟨hlaunched, hwaiting, submitted, nextBucket, heq⟩ :=
        launchLoop_spec h.launched hcounts hvalues hleft
      rw [heq] at hlaunched hwaiting ⊢
      exact ⟨⟨h.active, h.direct, h.handedOff, h.failure, h.expected, h.admitted_le, h.counting,
        h.accounted, hlaunched⟩, hwaiting, submitted, nextBucket, rfl⟩

/-! Closing buckets. -/

/-- What closing some buckets of one slot changes, and what it leaves as it was. -/
structure Closes (layout : BucketLayout) (reducer next : Reducer M) (slot : Nat)
    (buckets : List Nat) : Prop where
  slotCount : next.slotCount = reducer.slotCount
  expected : next.expected = reducer.expected
  admitted : next.admitted = reducer.admitted
  finished : next.finished = reducer.finished
  countsSubmitted : next.countsSubmitted = reducer.countsSubmitted
  hooked : next.hooked = reducer.hooked
  others : ∀ other, other ≠ slot → next.slots other = reducer.slots other
  armed : (next.slots slot).armed = (reducer.slots slot).armed
  contribution : (next.slots slot).contribution = (reducer.slots slot).contribution
  remaining : (next.slots slot).remaining = (reducer.slots slot).remaining
  closed_iff : ∀ bucket, (next.slots slot).closed bucket = true ↔
    (reducer.slots slot).closed bucket = true ∨ bucket ∈ buckets
  gradients : ∀ parameter, (∀ bucket ∈ buckets, parameter ∉ layout.parameters bucket) →
    (next.slots slot).gradients parameter = (reducer.slots slot).gradients parameter

omit [AddCommMonoid M] in
theorem Closes.nil (reducer : Reducer M) (slot : Nat) : Closes layout reducer reducer slot [] where
  slotCount := rfl
  expected := rfl
  admitted := rfl
  finished := rfl
  countsSubmitted := rfl
  hooked := rfl
  others _ _ := rfl
  armed := rfl
  contribution := rfl
  remaining := rfl
  closed_iff bucket := by simp
  gradients _ _ := rfl

omit [AddCommMonoid M] in
theorem Closes.cons {middle next : Reducer M} {buckets : List Nat}
    (hfirst : Closes layout reducer middle slot [bucket])
    (hrest : Closes layout middle next slot buckets) :
    Closes layout reducer next slot (bucket :: buckets) where
  slotCount := hrest.slotCount.trans hfirst.slotCount
  expected := hrest.expected.trans hfirst.expected
  admitted := hrest.admitted.trans hfirst.admitted
  finished := hrest.finished.trans hfirst.finished
  countsSubmitted := hrest.countsSubmitted.trans hfirst.countsSubmitted
  hooked := hrest.hooked.trans hfirst.hooked
  others other hne := (hrest.others other hne).trans (hfirst.others other hne)
  armed := hrest.armed.trans hfirst.armed
  contribution := hrest.contribution.trans hfirst.contribution
  remaining := hrest.remaining.trans hfirst.remaining
  closed_iff index := by
    rw [hrest.closed_iff, hfirst.closed_iff, List.mem_singleton, List.mem_cons, or_assoc]
  gradients parameter hout := by
    rw [hrest.gradients parameter fun index hmem => hout index (List.mem_cons_of_mem _ hmem),
      hfirst.gradients parameter fun index hmem => ?_]
    rw [List.mem_singleton.mp hmem]
    exact hout bucket List.mem_cons_self

theorem closeBucket_slot (layout : BucketLayout) (reducer : Reducer M) (slot bucket : Nat) :
    (reducer.closeBucket layout slot bucket).slots slot = { reducer.slots slot with
      gradients := fun parameter =>
        if parameter ∈ layout.parameters bucket then none
        else (reducer.slots slot).gradients parameter,
      closed := Function.update (reducer.slots slot).closed bucket true } :=
  Function.update_self _ _ _

theorem closeBucket_closes (layout : BucketLayout) (reducer : Reducer M) (slot bucket : Nat) :
    Closes layout reducer (reducer.closeBucket layout slot bucket) slot [bucket] where
  slotCount := rfl
  expected := rfl
  admitted := rfl
  finished := rfl
  countsSubmitted := rfl
  hooked := rfl
  others other hne := Function.update_of_ne hne _ _
  armed := by rw [closeBucket_slot]
  contribution := by rw [closeBucket_slot]
  remaining := by rw [closeBucket_slot]
  closed_iff index := by
    rw [closeBucket_slot, List.mem_singleton]
    by_cases heq : index = bucket
    · rw [heq]
      simp
    · simp [heq]
  gradients parameter hout := by
    rw [closeBucket_slot]
    exact if_neg (hout bucket (List.mem_singleton.mpr rfl))

theorem Underway.closeBucket (h : Underway layout count reducer) (hbucket : bucket < layout.size)
    (harmed : (reducer.slots slot).armed = true)
    (hopen : (reducer.slots slot).closed bucket = false) :
    Underway layout count (reducer.closeBucket layout slot bucket) where
  active := h.active
  direct := h.direct
  handedOff := h.handedOff
  failure := h.failure
  expected := h.expected
  admitted_le := h.admitted_le
  counting := h.counting.closeBucket harmed hopen hbucket harmed rfl rfl
  accounted := h.accounted.closeBucket (h.counting.range slot harmed) harmed rfl harmed rfl rfl
  launched := by
    refine ⟨h.launched.order, h.launched.bound, ?_, h.launched.payload⟩
    intro index hindex
    obtain ⟨hfull, hcounts⟩ := h.launched.ready index hindex
    have hlt := Nat.lt_of_lt_of_le hindex h.launched.bound
    have hne : index ≠ bucket := by
      intro heq
      rw [← heq, h.closed_of_full hlt hfull harmed] at hopen
      cases hopen
    exact ⟨(Function.update_of_ne hne _ _).trans hfull, hcounts⟩

theorem Underway.close (h : Underway layout count reducer) (hwaiting : Waiting layout reducer)
    (hbucket : bucket < layout.size) (harmed : (reducer.slots slot).armed = true) :
    Underway layout count (reducer.close layout slot bucket) ∧
      Waiting layout (reducer.close layout slot bucket) ∧
      Closes layout reducer (reducer.close layout slot bucket) slot [bucket] := by
  rw [Reducer.close]
  split
  · next hclosed =>
      refine ⟨h, hwaiting, ?_⟩
      refine ⟨rfl, rfl, rfl, rfl, rfl, rfl, fun _ _ => rfl, rfl, rfl, rfl, ?_, fun _ _ => rfl⟩
      intro index
      rw [List.mem_singleton]
      constructor
      · exact .inl
      · intro hor
        rcases hor with hindex | heq
        · exact hindex
        · exact heq ▸ hclosed
  · next hopen =>
      have hclose := h.closeBucket hbucket harmed (Bool.eq_false_iff.mpr hopen)
      obtain ⟨hunderway, hwaiting', submitted, nextBucket, heq⟩ := hclose.launchReady
      have hcloses := closeBucket_closes layout reducer slot bucket
      refine ⟨hunderway, hwaiting', ?_⟩
      rw [heq]
      exact ⟨hcloses.slotCount, hcloses.expected, hcloses.admitted, hcloses.finished,
        hcloses.countsSubmitted, hcloses.hooked, hcloses.others, hcloses.armed,
        hcloses.contribution, hcloses.remaining, hcloses.closed_iff, hcloses.gradients⟩

theorem Underway.closeList (h : Underway layout count reducer) (hwaiting : Waiting layout reducer)
    (harmed : (reducer.slots slot).armed = true) {buckets : List Nat}
    (hbuckets : ∀ bucket ∈ buckets, bucket < layout.size) :
    Underway layout count
        (buckets.foldl (fun reducer bucket => reducer.close layout slot bucket) reducer) ∧
      Waiting layout
        (buckets.foldl (fun reducer bucket => reducer.close layout slot bucket) reducer) ∧
      Closes layout reducer
        (buckets.foldl (fun reducer bucket => reducer.close layout slot bucket) reducer)
        slot buckets := by
  induction buckets generalizing reducer with
  | nil => exact ⟨h, hwaiting, .nil reducer slot⟩
  | cons bucket rest ih =>
      obtain ⟨hunderway, hwaiting', hcloses⟩ :=
        h.close hwaiting (hbuckets bucket List.mem_cons_self) harmed
      obtain ⟨hlast, hwaiting'', hrest⟩ := ih hunderway hwaiting' (hcloses.armed.trans harmed)
        fun index hmem => hbuckets index (List.mem_cons_of_mem _ hmem)
      exact ⟨hlast, hwaiting'', hcloses.cons hrest⟩

/-! What a slot still expects. -/

structure Tracked (layout : BucketLayout) (slot : Slot M) (hooked : List (Hook M)) : Prop where
  remaining : ∀ bucket < layout.size, slot.closed bucket = false → slot.remaining bucket =
    ((layout.parameters bucket).filter fun parameter => (slot.gradients parameter).isNone).length
  full : ∀ bucket < layout.size, slot.closed bucket = true →
    ∀ parameter ∈ layout.parameters bucket,
      ∃ gradient, ⟨slot.contribution, parameter, gradient⟩ ∈ hooked

omit [AddCommMonoid M] in
theorem Tracked.later {slot : Slot M} {hooked : List (Hook M)} (h : Tracked layout slot hooked)
    (more : List (Hook M)) : Tracked layout slot (hooked ++ more) where
  remaining := h.remaining
  full bucket hbucket hclosed parameter hparameter := by
    obtain ⟨gradient, hmem⟩ := h.full bucket hbucket hclosed parameter hparameter
    exact ⟨gradient, List.mem_append_left _ hmem⟩

/-- The state between two calls. -/
structure Attempt (layout : BucketLayout) (count : Nat) (reducer : Reducer M) : Prop
    extends Underway layout count reducer where
  waiting : Waiting layout reducer
  tracked : ∀ slot, (reducer.slots slot).armed = true →
    Tracked layout (reducer.slots slot) reducer.hooked

theorem Attempt.check (h : Attempt layout count reducer) : reducer.check = .ok () := by
  rw [Reducer.check, h.failure]
  rfl

omit [AddCommMonoid M] in
theorem slotAt_ok {value : Slot M} (h : reducer.slotAt slot = .ok value) :
    slot < reducer.slotCount ∧ value = reducer.slots slot := by
  rw [slotAt] at h
  split at h
  · next hslot =>
      cases h
      exact ⟨hslot, rfl⟩
  · cases h

/-! The calls. -/

theorem Attempt.arm (h : Attempt layout count reducer) {next : Reducer M}
    (hcall : reducer.arm layout slot = .ok next) : Attempt layout count next := by
  rw [Reducer.arm, h.check] at hcall
  change (reducer.slotAt slot >>= _) = _ at hcall
  cases hslot : reducer.slotAt slot with
  | error message =>
      rw [hslot] at hcall
      cases hcall
  | ok value =>
      obtain ⟨hlt, rfl⟩ := slotAt_ok hslot
      rw [hslot] at hcall
      change (if _ then _ else _) = _ at hcall
      split at hcall
      · cases hcall
      · next hguard =>
          simp only [Bool.or_eq_true, decide_eq_true_eq, not_or, Bool.not_eq_true] at hguard
          obtain ⟨⟨-, hidle⟩, hroom⟩ := hguard
          cases hcall
          have hadmitted := h.admitted_le
          have hother : ∀ {other : Nat} {value : Slot M}, other ≠ slot →
              Function.update reducer.slots slot value other = reducer.slots other :=
            fun hne => Function.update_of_ne hne _ _
          refine ⟨⟨h.active, h.direct, h.handedOff, h.failure, h.expected, ?_, ?_, ?_, ?_⟩,
            h.waiting, ?_⟩
          · show reducer.admitted + 1 ≤ reducer.expected
            omega
          · exact h.counting.arm hlt hidle rfl rfl fun _ => rfl
          · exact h.accounted.arm hidle rfl rfl
          · exact ⟨h.launched.order, h.launched.bound, h.launched.ready, h.launched.payload⟩
          · intro other harmed
            change (Function.update reducer.slots slot _ other).armed = true at harmed
            show Tracked layout (Function.update reducer.slots slot _ other) reducer.hooked
            by_cases heq : other = slot
            · subst heq
              rw [Function.update_self]
              refine ⟨?_, fun _ _ hclosed => nomatch hclosed⟩
              intro bucket _ _
              rw [List.filter_eq_self.mpr]
              intro parameter _
              rw [h.accounted.idle other hidle parameter]
              rfl
            · rw [hother heq] at harmed ⊢
              exact h.tracked other harmed

/-- A hook's gradient is new, and its bucket still open. -/
theorem hook_guard {next : Reducer M} {gradient : M} (hcheck : reducer.check = .ok ())
    (hcall : reducer.hook layout slot parameter gradient = .ok next) :
    slot < reducer.slotCount ∧ (reducer.slots slot).armed = true ∧
      (reducer.slots slot).gradients parameter = none ∧
      (reducer.slots slot).closed (layout.bucket parameter) = false ∧
      next = if reducer.direct then reducer.produce slot parameter gradient
        else if (((reducer.produce slot parameter gradient).countDown slot
            (layout.bucket parameter)).slots slot).remaining (layout.bucket parameter) = 0 then
          ((reducer.produce slot parameter gradient).countDown slot
            (layout.bucket parameter)).close layout slot (layout.bucket parameter)
        else (reducer.produce slot parameter gradient).countDown slot (layout.bucket parameter) := by
  rw [Reducer.hook, hcheck] at hcall
  change (reducer.slotAt slot >>= _) = _ at hcall
  cases hslot : reducer.slotAt slot with
  | error message =>
      rw [hslot] at hcall
      cases hcall
  | ok value =>
      obtain ⟨hlt, rfl⟩ := slotAt_ok hslot
      rw [hslot] at hcall
      change (if _ then _ else _) = _ at hcall
      split at hcall
      · cases hcall
      · next hguard =>
          simp only [Bool.or_eq_true, not_or, Bool.not_eq_true, Bool.not_eq_eq_eq_not,
            Bool.not_true, Option.isSome_eq_false_iff, Option.isNone_iff_eq_none]
            at hguard
          obtain ⟨⟨⟨-, harmed⟩, hnone⟩, hopen⟩ := hguard
          refine ⟨hlt, Bool.eq_true_of_not_eq_false harmed, hnone, hopen, ?_⟩
          change (if reducer.direct = true then _ else if _ then _ else _) = _ at hcall
          split at hcall
          · next hdirect =>
              cases hcall
              rw [if_pos hdirect]
          · next hdirect =>
              rw [if_neg hdirect]
              split at hcall
              · next hzero =>
                  cases hcall
                  rw [if_pos hzero]
              · next hzero =>
                  cases hcall
                  rw [if_neg hzero]

theorem Underway.produce (h : Underway layout count reducer)
    (hparameter : parameter < layout.parameterCount) (harmed : (reducer.slots slot).armed = true)
    (hnone : (reducer.slots slot).gradients parameter = none)
    (hopen : (reducer.slots slot).closed (layout.bucket parameter) = false) (gradient : M) :
    Underway layout count (reducer.produce slot parameter gradient) where
  active := h.active
  direct := h.direct
  handedOff := h.handedOff
  failure := h.failure
  expected := h.expected
  admitted_le := h.admitted_le
  counting := h.counting.update_slot rfl rfl rfl
  accounted := h.accounted.produce (h.counting.range slot harmed) harmed
    (h.counting.contribution_lt slot harmed)
    (fun other harmed_other hsame => h.counting.distinct slot other harmed harmed_other hsame)
    hparameter hnone hopen gradient rfl harmed rfl rfl
  launched := by
    refine ⟨h.launched.order, h.launched.bound, h.launched.ready, ?_⟩
    intro collective hmem
    rw [h.launched.payload collective hmem]
    apply List.map_congr_left
    intro other hother
    have hrange : collective.bucket ∈ List.range reducer.nextBucket := by
      rw [← h.launched.order]
      exact List.mem_map_of_mem hmem
    have hlaunched := List.mem_range.mp hrange
    have hclosed := h.closed_of_full (Nat.lt_of_lt_of_le hlaunched h.launched.bound)
      (h.launched.ready _ hlaunched).1 harmed
    have hne : parameter ≠ other := by
      intro heq
      rw [heq, layout.bucket_eq hother, hclosed] at hopen
      cases hopen
    show produced reducer.hooked other = produced (reducer.hooked ++ _) other
    rw [produced_append, produced_singleton_of_ne _ _ hne, add_zero]

theorem Underway.countDown (h : Underway layout count reducer) (slot bucket : Nat) :
    Underway layout count (reducer.countDown slot bucket) where
  active := h.active
  direct := h.direct
  handedOff := h.handedOff
  failure := h.failure
  expected := h.expected
  admitted_le := h.admitted_le
  counting := h.counting.update_slot rfl rfl rfl
  accounted := h.accounted.update_slot rfl rfl rfl rfl
  launched := ⟨h.launched.order, h.launched.bound, h.launched.ready, h.launched.payload⟩

omit [AddCommMonoid M] in
theorem length_filter_update {list : List Nat} (hnodup : list.Nodup) (hmem : parameter ∈ list)
    {gradients : Nat → Option M} (hnone : gradients parameter = none) (gradient : M) :
    (list.filter fun other => (Function.update gradients parameter (some gradient) other).isNone).length
      = (list.filter fun other => (gradients other).isNone).length - 1 := by
  have herase : (list.filter fun other =>
      (Function.update gradients parameter (some gradient) other).isNone) =
      (list.filter fun other => (gradients other).isNone).erase parameter := by
    rw [(hnodup.filter _).erase_eq_filter, List.filter_filter]
    apply List.filter_congr
    intro other _
    by_cases heq : other = parameter
    · subst heq
      simp
    · simp [heq]
  rw [herase, List.length_erase_of_mem]
  rw [List.mem_filter, hnone]
  exact ⟨hmem, rfl⟩

omit [AddCommMonoid M] in
theorem filter_update_of_notMem {list : List Nat} (hout : parameter ∉ list)
    (gradients : Nat → Option M) (gradient : M) :
    (list.filter fun other => (Function.update gradients parameter (some gradient) other).isNone) =
      list.filter fun other => (gradients other).isNone := by
  apply List.filter_congr
  intro other hother
  have hne : other ≠ parameter := fun heq => hout (heq ▸ hother)
  rw [Function.update_of_ne hne]

omit [AddCommMonoid M] in
theorem counted_slot (reducer : Reducer M) (slot parameter bucket : Nat) (gradient : M) :
    ((reducer.produce slot parameter gradient).countDown slot bucket).slots slot =
      { reducer.slots slot with
        gradients := Function.update (reducer.slots slot).gradients parameter (some gradient),
        remaining := Function.update (reducer.slots slot).remaining bucket
          ((reducer.slots slot).remaining bucket - 1) } := by
  rw [countDown, produce]
  simp only [Function.update_self]

omit [AddCommMonoid M] in
theorem counted_slot_of_ne {other : Nat} (reducer : Reducer M) (parameter bucket : Nat)
    (gradient : M) (hne : other ≠ slot) :
    ((reducer.produce slot parameter gradient).countDown slot bucket).slots other =
      reducer.slots other := by
  rw [countDown, produce]
  simp only [Function.update_of_ne hne]

theorem Attempt.counted (h : Attempt layout count reducer)
    (hparameter : parameter < layout.parameterCount) (harmed : (reducer.slots slot).armed = true)
    (hnone : (reducer.slots slot).gradients parameter = none)
    (hopen : (reducer.slots slot).closed (layout.bucket parameter) = false) (gradient : M) :
    Attempt layout count
      ((reducer.produce slot parameter gradient).countDown slot (layout.bucket parameter)) where
  toUnderway := (h.produce hparameter harmed hnone hopen gradient).countDown _ _
  waiting := h.waiting
  tracked other harmed_other := by
    by_cases heq : other = slot
    · subst heq
      rw [counted_slot]
      have htracked := h.tracked other harmed
      refine ⟨?_, ?_⟩
      · intro bucket hbucket hbucket_open
        show Function.update _ _ _ bucket = _
        by_cases hsame : bucket = layout.bucket parameter
        · rw [hsame, Function.update_self, htracked.remaining _ (layout.bucket_lt hparameter) hopen]
          exact (length_filter_update (layout.nodup_parameters _) (layout.mem_bucket hparameter)
            hnone gradient).symm
        · have hout : parameter ∉ layout.parameters bucket :=
            fun hmem => hsame (layout.bucket_eq hmem).symm
          rw [Function.update_of_ne hsame, htracked.remaining bucket hbucket hbucket_open]
          exact congrArg List.length (filter_update_of_notMem hout _ gradient).symm
      · intro bucket hbucket hclosed index hindex
        obtain ⟨earlier, hmem⟩ := htracked.full bucket hbucket hclosed index hindex
        exact ⟨earlier, List.mem_append_left _ hmem⟩
    · rw [counted_slot_of_ne _ _ _ _ heq] at harmed_other ⊢
      exact (h.tracked other harmed_other).later _

/-- The last gradient of a bucket closes it. -/
theorem Attempt.close (h : Attempt layout count reducer) (hbucket : bucket < layout.size)
    (harmed : (reducer.slots slot).armed = true)
    (hopen : (reducer.slots slot).closed bucket = false)
    (hzero : (reducer.slots slot).remaining bucket = 0) :
    Attempt layout count (reducer.close layout slot bucket) := by
  obtain ⟨hunderway, hwaiting, hcloses⟩ := h.toUnderway.close h.waiting hbucket harmed
  refine ⟨hunderway, hwaiting, ?_⟩
  intro other harmed_other
  rw [hcloses.hooked]
  by_cases heq : other = slot
  · subst heq
    have htracked := h.tracked other harmed
    refine ⟨?_, ?_⟩
    · intro index hindex hindex_open
      have hnot : ¬ ((reducer.slots other).closed index = true ∨ index ∈ [bucket]) := by
        rw [← hcloses.closed_iff, hindex_open]
        exact Bool.false_ne_true
      obtain ⟨hindex_was, hne⟩ := not_or.mp hnot
      rw [List.mem_singleton] at hne
      rw [hcloses.remaining, htracked.remaining index hindex (Bool.eq_false_iff.mpr hindex_was)]
      congr 1
      apply List.filter_congr
      intro parameter hparameter
      rw [hcloses.gradients]
      intro closing hclosing hmem
      rw [List.mem_singleton] at hclosing
      rw [hclosing] at hmem
      exact hne ((layout.bucket_eq hparameter).symm.trans (layout.bucket_eq hmem))
    · intro index hindex hclosed parameter hparameter
      rw [hcloses.contribution]
      rcases (hcloses.closed_iff index).mp hclosed with hbefore | hnew
      · exact htracked.full index hindex hbefore parameter hparameter
      · rw [List.mem_singleton] at hnew
        subst hnew
        have hempty := htracked.remaining index hbucket hopen
        rw [hzero] at hempty
        have hsome : ((reducer.slots other).gradients parameter).isNone = false := by
          rw [← Bool.not_eq_true]
          exact List.filter_eq_nil_iff.mp (List.length_eq_zero_iff.mp hempty.symm) parameter
            hparameter
        obtain ⟨gradient, hgradient⟩ := Option.isSome_iff_exists.mp
          (Option.isNone_eq_false_iff.mp hsome)
        have hlt := layout.lt_parameterCount hparameter
        have hparameter_open : (reducer.slots other).closed (layout.bucket parameter) = false := by
          rw [layout.bucket_eq hparameter]
          exact hopen
        exact ⟨gradient,
          (h.accounted.recorded other parameter harmed hlt hparameter_open gradient).mp hgradient⟩
  · rw [hcloses.others other heq] at harmed_other ⊢
    exact h.tracked other harmed_other

theorem Attempt.hook (h : Attempt layout count reducer) {next : Reducer M}
    (hparameter : parameter < layout.parameterCount) {gradient : M}
    (hcall : reducer.hook layout slot parameter gradient = .ok next) :
    Attempt layout count next := by
  obtain ⟨-, harmed, hnone, hopen, hnext⟩ := hook_guard h.check hcall
  rw [h.direct, if_neg Bool.false_ne_true] at hnext
  have hcounted := h.counted hparameter harmed hnone hopen gradient
  split at hnext
  · next hzero =>
      rw [hnext]
      apply hcounted.close (layout.bucket_lt hparameter) _ _ hzero
      · rw [counted_slot]
        exact harmed
      · rw [counted_slot]
        exact hopen
  · rw [hnext]
    exact hcounted

theorem Attempt.collect (h : Attempt layout count reducer) {next : Reducer M} {sameStream : Bool}
    {exclusive : Nat → Bool} (hcall : reducer.collect layout slot sameStream exclusive = .ok next) :
    Attempt layout count next := by
  rw [Reducer.collect, h.check] at hcall
  change (reducer.slotAt slot >>= _) = _ at hcall
  cases hslot : reducer.slotAt slot with
  | error message =>
      rw [hslot] at hcall
      cases hcall
  | ok value =>
      obtain ⟨-, rfl⟩ := slotAt_ok hslot
      rw [hslot] at hcall
      change (if _ then _ else _) = _ at hcall
      split at hcall
      · cases hcall
      next hguard =>
      rw [h.direct, if_neg Bool.false_ne_true] at hcall
      cases hcall
      have harmed : (reducer.slots slot).armed = true := by
        simpa using hguard
      obtain ⟨hunderway, hwaiting, hcloses⟩ := h.toUnderway.closeList h.waiting harmed
        (fun bucket hmem => List.mem_range.mp hmem : ∀ bucket ∈ List.range layout.size, _)
      change Underway layout count (reducer.closeAll layout slot) at hunderway
      change Waiting layout (reducer.closeAll layout slot) at hwaiting
      change Closes layout reducer (reducer.closeAll layout slot) slot _ at hcloses
      generalize reducer.closeAll layout slot = closed at *
      have harmed' : (closed.slots slot).armed = true := hcloses.armed.trans harmed
      have hall : ∀ bucket < layout.size, (closed.slots slot).closed bucket = true := by
        intro bucket hbucket
        exact (hcloses.closed_iff bucket).mpr (.inr (List.mem_range.mpr hbucket))
      have hnone : ∀ parameter, (closed.slots slot).gradients parameter = none := by
        intro parameter
        cases hgradient : (closed.slots slot).gradients parameter with
        | none => rfl
        | some gradient =>
            have hproduced : ∃ hook ∈ closed.hooked, hook.parameter = parameter := by
              rw [hunderway.accounted.usage_iff]
              refine .inr ⟨slot, hunderway.counting.range slot harmed', ?_⟩
              rw [hgradient]
              rfl
            obtain ⟨hook, hmem, rfl⟩ := hproduced
            have hlt := (hunderway.accounted.valid hook hmem).2
            rw [hunderway.accounted.closed_none slot _ harmed' (hall _ (layout.bucket_lt hlt)) _
              (layout.mem_bucket hlt)] at hgradient
            cases hgradient
      refine ⟨⟨hunderway.active, hunderway.direct, hunderway.handedOff, hunderway.failure,
        hunderway.expected, hunderway.admitted_le, hunderway.counting.disarm harmed' hall rfl,
        hunderway.accounted.disarm hnone rfl rfl, ⟨hunderway.launched.order,
          hunderway.launched.bound, hunderway.launched.ready, hunderway.launched.payload⟩⟩,
        hwaiting, ?_⟩
      intro other harmed_other
      change (Function.update closed.slots slot _ other).armed = true at harmed_other
      show Tracked layout (Function.update closed.slots slot _ other) closed.hooked
      by_cases heq : other = slot
      · subst heq
        rw [Function.update_self] at harmed_other
        cases harmed_other
      · rw [Function.update_of_ne heq, hcloses.others other heq] at harmed_other ⊢
        rw [hcloses.hooked]
        exact h.tracked other harmed_other

theorem Attempt.contributeEmpty (h : Attempt layout count reducer) {next : Reducer M}
    (hcall : reducer.contributeEmpty layout = .ok next) : Attempt layout count next := by
  rw [Reducer.contributeEmpty, h.check] at hcall
  change (if _ then _ else _) = _ at hcall
  split at hcall
  · cases hcall
  next hguard =>
  cases hcall
  simp only [Bool.or_eq_true, decide_eq_true_eq, not_or] at hguard
  have hadmitted := h.admitted_le
  have hroom := hguard.2
  have hempty : Underway layout count (reducer.closeEmpty layout) := by
    refine ⟨h.active, h.direct, h.handedOff, h.failure, h.expected, ?_, h.counting.closeEmpty,
      h.accounted.later (Nat.le_succ _), ⟨h.launched.order, h.launched.bound, ?_,
        h.launched.payload⟩⟩
    · show reducer.admitted + 1 ≤ reducer.expected
      omega
    · intro bucket hbucket
      -- A launched bucket counts every expected contribution, so none could still be admitted.
      have hlt := Nat.lt_of_lt_of_le hbucket h.launched.bound
      have hfull := (h.launched.ready bucket hbucket).1
      have hle := h.counting.bucketClosed_le hlt
      omega
  obtain ⟨hunderway, hwaiting, submitted, nextBucket, heq⟩ := hempty.launchReady
  refine ⟨hunderway, hwaiting, ?_⟩
  rw [heq]
  exact h.tracked

theorem Attempt.enableGradientLaunchAfterCounts (h : Attempt layout count reducer)
    {next : Reducer M} (hcall : reducer.enableGradientLaunchAfterCounts layout = .ok next) :
    Attempt layout count next := by
  rw [Reducer.enableGradientLaunchAfterCounts, h.check] at hcall
  change (if _ then _ else _) = _ at hcall
  split at hcall
  · cases hcall
  cases hcall
  have henabled : Underway layout count { reducer with countsSubmitted := true } := by
    refine ⟨h.active, h.direct, h.handedOff, h.failure, h.expected, h.admitted_le, h.counting,
      h.accounted, ⟨h.launched.order, h.launched.bound, ?_, h.launched.payload⟩⟩
    exact fun bucket hbucket => ⟨(h.launched.ready bucket hbucket).1, rfl⟩
  obtain ⟨hunderway, hwaiting, submitted, nextBucket, heq⟩ := henabled.launchReady
  refine ⟨hunderway, hwaiting, ?_⟩
  rw [heq]
  exact h.tracked

theorem Attempt.step (h : Attempt layout count reducer) (call : Call layout M) :
    Attempt layout count (reducer.step layout call) := by
  rw [Reducer.step]
  cases hcall : reducer.call layout call with
  | error message => exact h
  | ok next =>
      cases call with
      | arm slot => exact h.arm hcall
      | hook slot parameter gradient => exact h.hook parameter.isLt hcall
      | collect slot sameStream exclusive => exact h.collect hcall
      | contributeEmpty => exact h.contributeEmpty hcall
      | enableGradientLaunchAfterCounts => exact h.enableGradientLaunchAfterCounts hcall

theorem Attempt.run (h : Attempt layout count reducer) (calls : List (Call layout M)) :
    Attempt layout count (reducer.run layout calls) := by
  induction calls generalizing reducer with
  | nil => exact h
  | cons call rest ih => exact ih (h.step call)

end Reducer

end Mmltk.Training
