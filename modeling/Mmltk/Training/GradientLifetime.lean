import Mmltk.Training.GradientOutcome

namespace Mmltk.Training

namespace Reducer

variable {M : Type} {layout : BucketLayout} {count : Nat} {start reducer next : Reducer M}

/-! Outside an attempt, and after its end, every call is refused or does nothing. -/

structure Quiet (layout : BucketLayout) (reducer : Reducer M) : Prop where
  failure : reducer.failure = false
  idle : ∀ slot, (reducer.slots slot).armed = false
  ended : reducer.active = false ∨ (reducer.admitted = reducer.expected ∧
    reducer.countsSubmitted = true ∧ reducer.nextBucket = layout.size)

theorem Ready.quiet (h : Ready reducer) : Quiet layout reducer :=
  ⟨h.failure, h.idle, .inl h.inactive⟩

/-! The master gradients change at the beginning and at the end of an attempt only. -/

@[simp] theorem launchReady_masterGrad (reducer : Reducer M) :
    (reducer.launchReady layout).masterGrad = reducer.masterGrad := by
  have hloop : ∀ (left : Nat) (reducer : Reducer M),
      (launchLoop layout left reducer).masterGrad = reducer.masterGrad := by
    intro left
    induction left with
    | zero => exact fun _ => rfl
    | succ left ih =>
        intro reducer
        rw [launchLoop]
        split
        · exact ih _
        · rfl
  rw [launchReady]
  split
  · rfl
  · exact hloop _ _

variable [AddCommMonoid M]

@[simp] theorem close_masterGrad (reducer : Reducer M) (slot bucket : Nat) :
    (reducer.close layout slot bucket).masterGrad = reducer.masterGrad := by
  rw [close]
  split
  · rfl
  · rw [launchReady_masterGrad]
    rfl

@[simp] theorem closeAll_masterGrad (reducer : Reducer M) (slot : Nat) :
    (reducer.closeAll layout slot).masterGrad = reducer.masterGrad := by
  apply List.foldlRecOn (motive := fun after : Reducer M => after.masterGrad = reducer.masterGrad)
  · rfl
  · exact fun after hafter bucket _ => (close_masterGrad after slot bucket).trans hafter

theorem step_masterGrad (reducer : Reducer M) (call : Call layout M) :
    (reducer.step layout call).masterGrad = reducer.masterGrad := by
  rw [step]
  split
  · next hnext =>
      cases call <;> simp only [Reducer.call, arm, hook, collect, contributeEmpty,
        enableGradientLaunchAfterCounts, bind, Except.bind] at hnext <;> repeat' split at hnext
      all_goals cases hnext
      all_goals simp [produce, countDown, disarm, collectDirect, closeEmpty]
  · rfl

theorem Quiet.step (h : Quiet layout reducer) (call : Call layout M) :
    reducer.step layout call = reducer := by
  have hslot : ∀ {slot value}, reducer.slotAt slot = .ok value → value.armed = false :=
    fun hvalue => (slotAt_ok hvalue).2 ▸ h.idle _
  have hended := h.ended
  rw [Reducer.step]
  split
  · next after hafter =>
      cases call with
      | enableGradientLaunchAfterCounts =>
          simp only [Reducer.call, enableGradientLaunchAfterCounts, bind, Except.bind] at hafter
          repeat' split at hafter
          all_goals cases hafter
          obtain ⟨-, hcounts, hnext⟩ := hended.resolve_left (by simp_all)
          have hsame : { reducer with countsSubmitted := true } = reducer := by rw [← hcounts]
          rw [hsame, launchReady, hnext, Nat.sub_self, launchLoop, ite_self]
      | _ =>
          simp only [Reducer.call, arm, hook, collect, contributeEmpty, bind, Except.bind] at hafter
          repeat' split at hafter
          all_goals grind
  · rfl

/-! Attempt after attempt. -/

inductive Lived (layout : BucketLayout) (start : Reducer M) : Reducer M → Prop
  | start : Lived layout start start
  | begin {reducer next : Reducer M} {count : Nat} (h : Lived layout start reducer)
      (hshared : reducer.Shared count) (hbegin : reducer.beginAttempt count = .ok next) :
      Lived layout start next
  | call {reducer : Reducer M} (h : Lived layout start reducer) (call : Call layout M) :
      Lived layout start (reducer.step layout call)
  | finish {reducer : Reducer M} {reduced : Reduced M} {finished : Reducer M × List M}
      (h : Lived layout start reducer)
      (hfinish : reducer.finishAttempt layout reduced = .ok finished) :
      Lived layout start finished.1
  | finalize {reducer next : Reducer M} {released : Bool} (h : Lived layout start reducer)
      (hfinalize : reducer.finalizeAttempt layout released = .ok next) : Lived layout start next

/-- A finished attempt that waits for its projection. -/
structure HandedOver (layout : BucketLayout) (reducer : Reducer M) : Prop
    extends Quiet layout reducer where
  active : reducer.active = true
  handedOff : reducer.handedOff = true
  empty : ∀ slot parameter, (reducer.slots slot).gradients parameter = none
  cleared : ∀ parameter, reducer.masterGrad parameter = none
  outcome : reducer.distributed = false → ∀ parameter < layout.parameterCount,
    (reducer.hostUsage parameter ≠ 0 ↔ ∃ hook ∈ reducer.hooked, hook.parameter = parameter) ∧
    (reducer.hostUsage parameter ≠ 0 →
      reducer.gradient parameter = some (produced reducer.hooked parameter))

theorem Attempt.handedOver (h : Attempt layout count reducer)
    (hcleared : ∀ parameter, reducer.masterGrad parameter = none) {reduced : Reduced M}
    {finished : Reducer M × List M}
    (hfinish : reducer.finishAttempt layout reduced = .ok finished) :
    HandedOver layout finished.1 := by
  obtain ⟨hfinished, hcounts⟩ := (h.finishAttempt_iff reduced).mp ⟨finished, hfinish⟩
  have hadmitted_le := h.admitted_le
  have hcounted := h.counting.counted
  have hidle : ∀ slot, (reducer.slots slot).armed = false := by
    intro slot
    cases harmed : (reducer.slots slot).armed with
    | false => rfl
    | true =>
        have hpositive := Finset.card_pos.mpr ⟨slot, h.counting.mem_armedSlots.mpr harmed⟩
        omega
  have hfinal := (h.orderly.finished (hfinished.trans h.expected)).2.2
  rw [finishAttempt, h.check] at hfinish
  change (if _ then _ else _) = _ at hfinish
  split at hfinish
  · cases hfinish
  cases hfinish
  have hadmitted : reducer.admitted = reducer.expected := by omega
  refine ⟨⟨h.failure, hidle, .inr ⟨hadmitted, hcounts, (h.finishes hfinished hcounts).2⟩⟩, h.active,
    rfl, fun slot => h.accounted.idle slot (hidle slot), hcleared, ?_⟩
  intro (hlocal : reducer.distributed = false) parameter hparameter
  obtain ⟨hvalue, hused⟩ := hfinal parameter hparameter
  have hcases := h.accounted.usage_cases parameter
  simp only [hlocal, Bool.false_eq_true, if_false, h.direct, ← hused, hvalue]
  refine ⟨by omega, fun hne => ?_⟩
  simp [hne]

/-- A parameter that got gradients ends with their sum, any other with none. -/
def Projected (layout : BucketLayout) (reducer next : Reducer M) : Prop :=
  ∀ parameter < layout.parameterCount,
    ((∃ hook ∈ reducer.hooked, hook.parameter = parameter) →
      next.masterGrad parameter = some (produced reducer.hooked parameter)) ∧
    ((¬ ∃ hook ∈ reducer.hooked, hook.parameter = parameter) → next.masterGrad parameter = none)

theorem HandedOver.finalizes (h : HandedOver layout reducer) {released : Bool}
    (hfinalize : reducer.finalizeAttempt layout released = .ok next) :
    Ready next ∧ (reducer.distributed = false → Projected layout reducer next) := by
  simp only [finalizeAttempt, bind, Except.bind] at hfinalize
  repeat' split at hfinalize
  all_goals cases hfinalize
  refine ⟨⟨rfl, h.failure, h.idle, h.empty⟩, fun hlocal parameter hparameter => ?_⟩
  obtain ⟨hused, hgradient⟩ := h.outcome hlocal parameter hparameter
  rw [← hused]
  refine ⟨fun hne => ?_, fun hzero => ?_⟩
  · simp [hparameter, hne, hgradient hne]
  · simp [hzero, h.cleared parameter]

inductive Phase (layout : BucketLayout) (reducer : Reducer M) : Prop
  | idle (h : Ready reducer)
  | collecting {count : Nat} (h : Attempt layout count reducer)
      (hcleared : ∀ parameter, reducer.masterGrad parameter = none)
  | handedOver (h : HandedOver layout reducer)

theorem Lived.phase (h : Lived layout start reducer) (hready : Ready start) :
    Phase layout reducer := by
  induction h with
  | start => exact .idle hready
  | @begin reducer next count _ hshared hbegin ih =>
      cases ih with
      | idle h =>
          rcases Nat.eq_zero_or_pos count with rfl | hcount
          · simp [beginAttempt, check, h.failure, bind, Except.bind] at hbegin
          obtain ⟨begun, hbegun, hattempt⟩ := @Ready.beginAttempt _ _ layout _ _ h hcount hshared
          cases hbegun.symm.trans hbegin
          refine .collecting hattempt ?_
          simp only [beginAttempt, check, h.failure, bind, Except.bind] at hbegin
          repeat' split at hbegin
          all_goals cases hbegin
          all_goals exact fun _ => rfl
      | collecting h => simp [beginAttempt, check, h.failure, h.active, bind, Except.bind] at hbegin
      | handedOver h => simp [beginAttempt, check, h.failure, h.active, bind, Except.bind] at hbegin
  | call _ call ih =>
      cases ih with
      | idle h =>
          rw [h.quiet.step]
          exact .idle h
      | collecting h hcleared =>
          exact .collecting (h.step call) fun parameter => by rw [step_masterGrad, hcleared]
      | handedOver h =>
          rw [h.toQuiet.step]
          exact .handedOver h
  | finish _ hfinish ih =>
      cases ih with
      | idle h => simp [finishAttempt, check, h.failure, h.inactive, bind, Except.bind] at hfinish
      | collecting h hcleared => exact .handedOver (h.handedOver hcleared hfinish)
      | handedOver h =>
          simp [finishAttempt, check, h.failure, h.handedOff, bind, Except.bind] at hfinish
  | finalize _ hfinalize ih =>
      cases ih with
      | idle h =>
          simp [finalizeAttempt, check, h.failure, h.inactive, bind, Except.bind] at hfinalize
      | collecting h =>
          simp [finalizeAttempt, check, h.failure, h.handedOff, bind, Except.bind] at hfinalize
      | handedOver h => exact .idle (h.finalizes hfinalize).1

end Reducer

end Mmltk.Training
