import Mmltk.Training.GradientAttempt

namespace Mmltk.Training

namespace Reducer

variable {M : Type} [AddCommMonoid M] {layout : BucketLayout} {count : Nat} {reducer : Reducer M}
  {slot : Nat}

/-! From an idle reducer into an attempt and back. -/

structure Ready (reducer : Reducer M) : Prop where
  inactive : reducer.active = false
  failure : reducer.failure = false
  idle : ∀ slot, (reducer.slots slot).armed = false
  empty : ∀ slot parameter, (reducer.slots slot).gradients parameter = none

theorem Ready.initial (distributed directLayout : Bool) (slotCount : Nat) :
    Ready (initial distributed directLayout slotCount : Reducer M) where
  inactive := rfl
  failure := rfl
  idle _ := rfl
  empty _ _ := rfl

/-- Not the direct mode, for attempts of `count` contributions. -/
def Shared (reducer : Reducer M) (count : Nat) : Prop :=
  reducer.distributed = true ∨ count ≠ 1 ∨ reducer.slotCount ≠ 1 ∨ reducer.directLayout = false

theorem Ready.beginAttempt (h : Ready reducer) (hcount : 0 < count)
    (hshared : reducer.Shared count) :
    ∃ begun, reducer.beginAttempt count = .ok begun ∧ Attempt layout count begun := by
  have hdirect : (!reducer.distributed && count = 1 && reducer.slotCount = 1 &&
      reducer.directLayout) = false := by
    rcases hshared with hdistributed | hcount_ne | hslots | hlayout
    · rw [hdistributed]
      rfl
    · rw [decide_eq_false hcount_ne, Bool.and_false]
      rfl
    · rw [decide_eq_false hslots, Bool.and_false]
      rfl
    · rw [hlayout, Bool.and_false]
  have hcheck : reducer.check = .ok () := by
    rw [check, h.failure]
    rfl
  rw [Reducer.beginAttempt, hcheck]
  refine ⟨_, if_neg ?_, ?_⟩
  · rw [h.inactive, decide_eq_false (Nat.ne_of_gt hcount)]
    exact Bool.false_ne_true
  have hunarmed : ∀ slot, (reducer.slots slot).armed = true → False := by
    intro slot harmed
    rw [h.idle slot] at harmed
    cases harmed
  refine ⟨⟨rfl, hdirect, rfl, h.failure, rfl, Nat.zero_le _, ?_, ?_, ?_⟩, ?_, ?_⟩
  · refine ⟨?_, ?_, ?_, ?_, List.nodup_nil, ?_, ?_, ?_, ?_⟩
    · exact fun slot harmed => (hunarmed slot harmed).elim
    · exact fun slot harmed => (hunarmed slot harmed).elim
    · exact fun slot _ harmed => (hunarmed slot harmed).elim
    · show 0 + (armedSlots reducer.slotCount reducer.slots).card = 0
      rw [armedSlots, Finset.filter_false_of_mem]
      · rfl
      · exact fun slot _ harmed => hunarmed slot harmed
    · exact fun closing hmem => (List.not_mem_nil hmem).elim
    · exact fun slot _ harmed => (hunarmed slot harmed).elim
    · exact fun contribution hlt => absurd hlt (Nat.not_lt_zero _)
    · exact fun _ _ => rfl
  · refine ⟨fun slot _ => h.empty slot, ?_, ?_, List.Pairwise.nil, ?_, ?_, fun _ => .inl rfl, ?_⟩
    · exact fun slot _ harmed => (hunarmed slot harmed).elim
    · exact fun slot _ harmed => (hunarmed slot harmed).elim
    · exact fun hook hmem => (List.not_mem_nil hmem).elim
    · intro parameter
      simp only [hdirect, Bool.false_eq_true, if_false]
      rw [pending_eq_zero fun slot => h.empty slot parameter, add_zero]
      rfl
    · intro parameter
      constructor
      · intro hexists
        obtain ⟨hook, hmem, -⟩ := hexists
        exact (List.not_mem_nil hmem).elim
      · intro hor
        rcases hor with hused | ⟨slot, -, hsome⟩
        · cases hused
        · rw [h.empty slot parameter] at hsome
          cases hsome
  · exact ⟨rfl, Nat.zero_le _, fun bucket hlt => absurd hlt (Nat.not_lt_zero _),
      fun collective hmem => (List.not_mem_nil hmem).elim⟩
  · exact fun hcounts => by cases hcounts
  · exact fun slot harmed => (hunarmed slot harmed).elim

theorem Attempt.finishes (h : Attempt layout count reducer)
    (hfinished : reducer.finished = reducer.expected) (hcounts : reducer.countsSubmitted = true) :
    reducer.admitted = count ∧ reducer.nextBucket = layout.size := by
  have hadmitted_le := h.admitted_le
  have hcounted := h.counting.counted
  have hadmitted : reducer.finished = reducer.admitted := by omega
  have hexpected : reducer.admitted = reducer.expected := by omega
  refine ⟨hexpected.trans h.expected, ?_⟩
  rcases h.waiting hcounts with hall | hopen
  · exact hall
  · have hbound := h.launched.bound
    by_contra hne
    apply hopen
    rw [h.counting.bucketClosed_of_finished hadmitted (Nat.lt_of_le_of_ne hbound hne), hexpected]

theorem Attempt.finishAttempt_iff (h : Attempt layout count reducer) (reduced : Reduced M) :
    (∃ result, reducer.finishAttempt layout reduced = .ok result) ↔
      reducer.finished = reducer.expected ∧ reducer.countsSubmitted = true := by
  rw [finishAttempt, h.check]
  simp only [bind, Except.bind]
  rw [h.active, h.handedOff, h.direct]
  constructor
  · intro hexists
    obtain ⟨result, hresult⟩ := hexists
    split at hresult
    · cases hresult
    · next hguard =>
        simp only [Bool.not_true, Bool.false_or, Bool.not_false, Bool.true_and, Bool.or_eq_true,
          decide_eq_true_eq, not_or, not_not, Bool.not_eq_true', Bool.not_eq_false] at hguard
        exact ⟨hguard.1.2, hguard.1.1⟩
  · intro hboth
    obtain ⟨hfinished, hcounts⟩ := hboth
    have hnext := (h.finishes hfinished hcounts).2
    rw [if_neg]
    · exact ⟨_, rfl⟩
    · simp [hfinished, hcounts, hnext]

/-! What the caller of an attempt can rely on. -/

structure Orderly (layout : BucketLayout) (count : Nat) (reducer : Reducer M) : Prop where
  admitted_le : reducer.admitted ≤ count
  closed_once : reducer.closings.Nodup
  closed_valid : ∀ closing ∈ reducer.closings,
    closing.contribution < reducer.admitted ∧ closing.bucket < layout.size
  closed_count : ∀ bucket < layout.size,
    reducer.bucketClosed bucket = (closers reducer.closings bucket).length
  submitted_in_order :
    reducer.submitted.map Collective.bucket = List.range reducer.nextBucket
  submitted_bound : reducer.nextBucket ≤ layout.size
  submitted_after : ∀ bucket < reducer.nextBucket, reducer.countsSubmitted = true ∧
    ∀ contribution < count, ⟨contribution, bucket⟩ ∈ reducer.closings
  submitted_values : ∀ collective ∈ reducer.submitted,
    collective.values = (layout.parameters collective.bucket).map (produced reducer.hooked)
  added_once : ∀ parameter,
    reducer.values parameter + pending reducer.slotCount reducer.slots parameter =
      produced reducer.hooked parameter
  hooked_once : reducer.hooked.Pairwise fun left right =>
    ¬ (left.contribution = right.contribution ∧ left.parameter = right.parameter)
  hook_accepted : ∀ slot (parameter : Fin layout.parameterCount) gradient,
    (reducer.slots slot).armed = true →
    (∀ other, ⟨(reducer.slots slot).contribution, parameter, other⟩ ∉ reducer.hooked) →
    (reducer.step layout (.hook slot parameter gradient)).hooked =
      reducer.hooked ++ [⟨(reducer.slots slot).contribution, parameter, gradient⟩]
  finishes_iff : ∀ reduced, (∃ result, reducer.finishAttempt layout reduced = .ok result) ↔
    reducer.finished = count ∧ reducer.countsSubmitted = true
  finished : reducer.finished = count →
    (∀ contribution < count, ∀ bucket < layout.size,
      ⟨contribution, bucket⟩ ∈ reducer.closings) ∧
    (reducer.countsSubmitted = true →
      reducer.submitted.map Collective.bucket = List.range layout.size) ∧
    ∀ parameter < layout.parameterCount,
      reducer.values parameter = produced reducer.hooked parameter ∧
      (reducer.hostUsage parameter = 1 ↔ ∃ hook ∈ reducer.hooked, hook.parameter = parameter)

theorem Attempt.hook_accepted (h : Attempt layout count reducer)
    (parameter : Fin layout.parameterCount) (gradient : M)
    (harmed : (reducer.slots slot).armed = true)
    (hfresh : ∀ other, ⟨(reducer.slots slot).contribution, parameter, other⟩ ∉ reducer.hooked) :
    (reducer.step layout (.hook slot parameter gradient)).hooked =
      reducer.hooked ++ [⟨(reducer.slots slot).contribution, parameter, gradient⟩] := by
  have hbucket := layout.bucket_lt parameter.isLt
  have hopen : (reducer.slots slot).closed (layout.bucket parameter) = false := by
    cases hclosed : (reducer.slots slot).closed (layout.bucket parameter) with
    | false => rfl
    | true =>
        obtain ⟨earlier, hmem⟩ := (h.tracked slot harmed).full _ hbucket hclosed _
          (layout.mem_bucket parameter.isLt)
        exact absurd hmem (hfresh earlier)
  have hnone : (reducer.slots slot).gradients parameter = none := by
    cases hgradient : (reducer.slots slot).gradients parameter with
    | none => rfl
    | some earlier =>
        have hmem := (h.accounted.recorded slot parameter harmed parameter.isLt hopen earlier).mp
          hgradient
        exact absurd hmem (hfresh earlier)
  have hslot : reducer.slotAt slot = .ok (reducer.slots slot) :=
    if_pos (h.counting.range slot harmed)
  have hcall : reducer.hook layout slot parameter gradient =
      .ok (if (((reducer.produce slot parameter gradient).countDown slot
            (layout.bucket parameter)).slots slot).remaining (layout.bucket parameter) = 0 then
          ((reducer.produce slot parameter gradient).countDown slot
            (layout.bucket parameter)).close layout slot (layout.bucket parameter)
        else (reducer.produce slot parameter gradient).countDown slot
          (layout.bucket parameter)) := by
    rw [Reducer.hook, h.check]
    change (reducer.slotAt slot >>= _) = _
    rw [hslot]
    change (if _ then _ else _) = _
    have hguard : (!true || !true || (none : Option M).isSome || false) = false := rfl
    rw [h.active, harmed, hnone, hopen, hguard, if_neg Bool.false_ne_true]
    change (if reducer.direct = true then _ else if _ then _ else _) = _
    rw [h.direct, if_neg Bool.false_ne_true]
    split
    · rfl
    · rfl
  have hcounted := h.counted parameter.isLt harmed hnone hopen gradient
  have hstep : reducer.step layout (.hook slot parameter gradient) =
      if (((reducer.produce slot parameter gradient).countDown slot
            (layout.bucket parameter)).slots slot).remaining (layout.bucket parameter) = 0 then
          ((reducer.produce slot parameter gradient).countDown slot
            (layout.bucket parameter)).close layout slot (layout.bucket parameter)
        else (reducer.produce slot parameter gradient).countDown slot
          (layout.bucket parameter) := by
    rw [Reducer.step, call, hcall]
  rw [hstep]
  split
  · have harmed' : ((((reducer.produce slot parameter gradient).countDown slot
        (layout.bucket parameter)).slots slot).armed) = true := by
      rw [counted_slot]
      exact harmed
    exact (hcounted.toUnderway.close hcounted.waiting hbucket harmed').2.2.hooked
  · rfl

theorem Attempt.orderly (h : Attempt layout count reducer) : Orderly layout count reducer where
  admitted_le := h.expected ▸ h.admitted_le
  closed_once := h.counting.nodup
  closed_valid := h.counting.valid
  closed_count := h.counting.bucketClosed_eq
  submitted_in_order := h.launched.order
  submitted_bound := h.launched.bound
  submitted_after bucket hbucket := by
    obtain ⟨hfull, hcounts⟩ := h.launched.ready bucket hbucket
    have hlt := Nat.lt_of_lt_of_le hbucket h.launched.bound
    have hadmitted := h.admitted_le
    have hle := h.counting.bucketClosed_le hlt
    refine ⟨hcounts, fun contribution hcontribution => ?_⟩
    apply h.counting.closed_by_all hlt
    · omega
    · rw [← h.expected] at hcontribution
      omega
  submitted_values := h.launched.payload
  added_once := h.accounted.sums
  hooked_once := h.accounted.distinct
  hook_accepted slot parameter gradient harmed hfresh :=
    h.hook_accepted parameter gradient harmed hfresh
  finishes_iff reduced := by
    rw [h.finishAttempt_iff reduced, h.expected]
  finished hfinished := by
    have hadmitted_le := h.admitted_le
    have hcounted := h.counting.counted
    have hexpected := h.expected
    have hadmitted : reducer.finished = reducer.admitted := by omega
    refine ⟨?_, ?_, ?_⟩
    · intro contribution hcontribution bucket hbucket
      exact h.counting.closed_of_finished hadmitted hbucket (by omega)
    · intro hcounts
      rw [h.launched.order, (h.finishes (by omega) hcounts).2]
    · intro parameter hparameter
      have hbucket := layout.bucket_lt hparameter
      have hclosed : ∀ slot, (reducer.slots slot).armed = true →
          (reducer.slots slot).closed (layout.bucket parameter) = true := by
        intro slot harmed
        apply h.closed_of_full hbucket _ harmed
        rw [h.counting.bucketClosed_of_finished hadmitted hbucket]
        omega
      refine ⟨h.accounted.values_eq hclosed (layout.mem_bucket hparameter), ?_⟩
      rw [h.accounted.usage_iff parameter]
      constructor
      · exact .inl
      · intro hor
        rcases hor with hused | ⟨slot, -, hsome⟩
        · exact hused
        · have hnone : (reducer.slots slot).gradients parameter = none := by
            cases harmed : (reducer.slots slot).armed with
            | false => exact h.accounted.idle slot harmed parameter
            | true =>
                exact h.accounted.closed_none slot _ harmed (hclosed slot harmed) parameter
                  (layout.mem_bucket hparameter)
          rw [hnone] at hsome
          cases hsome

end Reducer

end Mmltk.Training
