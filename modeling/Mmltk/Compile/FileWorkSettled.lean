import Mathlib.Algebra.BigOperators.Group.Finset.Piecewise
import Mmltk.Compile.FileWorkCounts

namespace Mmltk.Compile

open Mmltk.Foundation

namespace FileWorkQueue

variable {queue : FileWorkQueue} {index id : Nat}

structure Invariant (queue : FileWorkQueue) : Prop where
  placed : queue.Placed
  counted : queue.Counted

theorem Counted.fresh (h : queue.Counted) : queue.carrier queue.started = none :=
  carrier_eq_none fun hlive => absurd (h.threads.fresh _ hlive) (Nat.lt_irrefl _)

/-- A thread with its record at some stage, and what there is to count. -/
theorem Invariant.at_stage (h : queue.Invariant) (hlive : id ∈ queue.activities.live)
    {stage : Stage} (hstage : (queue.activities.get id).stage = stage) (howns : stage.Owns) :
    (queue.activities.get id).index < queue.capacity ∧
      (queue.activities.get id).stage.Owns ∧ Busy (queue.record id).state := by
  subst hstage
  obtain ⟨-, -, hindex, -⟩ := h.placed.tracked (carrier_of_live hlive howns.carries)
  obtain ⟨-, -, htracks⟩ := h.placed.at_stage hlive rfl howns
  exact ⟨hindex, howns, htracks.busy howns⟩

theorem Invariant.commit (h : queue.Invariant) (hlive : id ∈ queue.activities.live)
    (hstage : (queue.activities.get id).stage = .claimed) : (queue.commit id).Invariant := by
  refine ⟨h.placed.commit hlive hstage, ?_⟩
  obtain ⟨hindex, howns, hbusy⟩ := h.at_stage hlive hstage trivial
  have hlent := h.counted.not_lent hlive fun _ _ hcalling =>
    absurd (hstage.symm.trans hcalling) nofun
  by_cases hstopping : queue.stopping = true
  · rw [commit_stopped hstopping]
    exact h.counted.proceed hindex hlive howns hlent hbusy (queue.record id).state hbusy trivial
  · rw [commit_running hstopping]
    exact h.counted.proceed hindex hlive howns hlent hbusy .running (.inr (.inl rfl)) trivial

theorem Invariant.bindFailed (h : queue.Invariant) (hlive : id ∈ queue.activities.live)
    (hstage : (queue.activities.get id).stage = .claimed) (hcompile : queue.mode.isRuntime = false)
    (failure : Failure) : (queue.bindFailed id failure).Invariant := by
  refine ⟨h.placed.bindFailed hlive hstage hcompile failure, ?_⟩
  obtain ⟨hindex, howns, hbusy⟩ := h.at_stage hlive hstage trivial
  have hlent := h.counted.not_lent hlive fun _ _ hcalling =>
    absurd (hstage.symm.trans hcalling) nofun
  rw [bindFailed_eq]
  exact h.counted.proceed hindex hlive howns hlent hbusy (queue.record id).state hbusy trivial

theorem Invariant.callReturned (h : queue.Invariant) (hlive : id ∈ queue.activities.live)
    (hstage : (queue.activities.get id).stage = .running) (error : Option Failure) :
    (queue.callReturned id error).Invariant := by
  refine ⟨h.placed.callReturned hlive hstage error, ?_⟩
  obtain ⟨hindex, howns, hbusy⟩ := h.at_stage hlive hstage trivial
  have hlent := h.counted.not_lent hlive fun _ _ hcalling =>
    absurd (hstage.symm.trans hcalling) nofun
  rw [callReturned_eq]
  exact h.counted.proceed hindex hlive howns hlent hbusy (queue.record id).state hbusy trivial

theorem Invariant.complete (h : queue.Invariant) (hlive : id ∈ queue.activities.live)
    (hstage : (∃ error, (queue.activities.get id).stage = .ended error) ∨
      ∃ failure, (queue.activities.get id).stage = .refused failure) :
    (queue.complete id).Invariant := by
  refine ⟨h.placed.complete hlive hstage, ?_⟩
  rcases hstage with ⟨error, hstage⟩ | ⟨failure, hstage⟩
  · obtain ⟨hindex, howns, hbusy⟩ := h.at_stage hlive hstage trivial
    have hlent := h.counted.not_lent hlive fun _ _ hcalling =>
      absurd (hstage.symm.trans hcalling) nofun
    rw [complete_ended hstage]
    exact h.counted.proceed hindex hlive howns hlent hbusy .completing (.inr (.inr rfl)) trivial
  · obtain ⟨hindex, howns, hbusy⟩ := h.at_stage hlive hstage trivial
    have hlent := h.counted.not_lent hlive fun _ _ hcalling =>
      absurd (hstage.symm.trans hcalling) nofun
    rw [complete_refused hstage]
    exact h.counted.proceed hindex hlive howns hlent hbusy .completing (.inr (.inr rfl)) trivial

theorem Invariant.takeOperation (h : queue.Invariant) (hlive : id ∈ queue.activities.live)
    {error : Option Failure} (hstage : (queue.activities.get id).stage = .finishing error) :
    (queue.takeOperation id).Invariant := by
  refine ⟨h.placed.takeOperation hlive hstage, ?_⟩
  obtain ⟨hindex, howns, hbusy⟩ := h.at_stage hlive hstage trivial
  have hlent := h.counted.not_lent hlive fun _ _ hcalling =>
    absurd (hstage.symm.trans hcalling) nofun
  rw [takeOperation_eq hstage]
  exact h.counted.proceed hindex hlive howns hlent hbusy (queue.record id).state hbusy trivial

theorem Invariant.callbackReturned (h : queue.Invariant) (hlive : id ∈ queue.activities.live)
    {operation : Operation} {error : Option Failure}
    (hstage : (queue.activities.get id).stage = .calling operation error)
    (hlent : (queue.activities.get id).lent = false) (thrown : Option Failure) :
    (queue.callbackReturned id thrown).Invariant := by
  refine ⟨h.placed.callbackReturned hlive hstage thrown, ?_⟩
  obtain ⟨hindex, howns, hbusy⟩ := h.at_stage hlive hstage trivial
  rw [callbackReturned_eq hstage]
  exact h.counted.proceed hindex hlive howns hlent hbusy (queue.record id).state hbusy trivial

theorem Invariant.retire (h : queue.Invariant) (hlive : id ∈ queue.activities.live)
    {operation : Operation} {error : Option Failure}
    (hstage : (queue.activities.get id).stage = .retiring operation error) :
    (queue.retire id).Invariant := by
  obtain ⟨hindex, -, -⟩ := h.at_stage hlive hstage trivial
  obtain ⟨-, -, hcompleting, hoperation, -⟩ := h.placed.at_stage hlive hstage trivial
  exact ⟨h.placed.retire hlive hstage,
    h.counted.retire hindex hlive hstage hcompleting hoperation⟩

theorem Invariant.run (h : queue.Invariant) {action : QueueAction}
    (henabled : action.Enabled queue) : (action.run queue).1.Invariant := by
  have hfresh := h.counted.fresh
  cases action with
  | tryReserveRecord kind interruption opened =>
      rw [QueueAction.run]
      rcases tryReserveRecord_cases queue kind interruption opened with
        ⟨reply, heq⟩ | ⟨index, hindex, hfree, -, heq⟩
      · rwa [heq]
      · rw [heq]
        exact ⟨h.placed.reserveAt hindex hfree hfresh kind, h.counted.reserveAt hindex hfree kind⟩
  | release index =>
      rw [QueueAction.run]
      rcases release_cases queue index with heq | ⟨hindex, hreserved, heq⟩
      · rwa [heq]
      · rw [heq]
        exact ⟨h.placed.releaseAt hindex hreserved hfresh, h.counted.releaseAt hindex hreserved⟩
  | submit index operation interruption refused =>
      rw [QueueAction.run]
      rcases submit_cases queue index operation interruption refused with
        ⟨failure, heq⟩ | ⟨hindex, hreserved, hrunning, ⟨failure, heq⟩ | ⟨hclass, heq⟩⟩
      · rwa [heq]
      · rw [heq]
        exact ⟨h.placed.setRecord rfl rfl rfl,
          h.counted.submitRefused hindex hreserved hrunning⟩
      · rw [heq]
        exact ⟨h.placed.submitAt hindex hreserved hfresh operation,
          h.counted.submitAt hindex hreserved hrunning hclass⟩
  | dispatchOne grant =>
      rw [QueueAction.run]
      rcases dispatchOne_cases queue grant with heq | ⟨index, hindex, stage, hqueued, hstage, heq⟩
      · rwa [heq]
      · have howns : stage.Owns := by
          rcases hstage with rfl | ⟨failure, rfl⟩
          · trivial
          · trivial
        rw [heq]
        exact ⟨h.placed.dispatchAt hindex hqueued hfresh henabled hstage,
          h.counted.dispatchAt hindex hqueued henabled howns⟩
  | takeTask index =>
      exact ⟨h.placed.setRecord rfl rfl rfl, h.counted.takeTask henabled.1 henabled.2⟩
  | dispatch index =>
      rw [QueueAction.run]
      rcases dispatch_cases queue index with ⟨heq, hstate⟩ | ⟨hqueued, heq⟩
      · rw [heq]
        exact ⟨h.placed.setRecord rfl rfl rfl,
          h.counted.dispatchLate henabled.1 henabled.2 hstate⟩
      · rw [heq]
        exact ⟨h.placed.dispatchTask henabled.1 hqueued hfresh,
          h.counted.dispatchTask henabled.1 hqueued henabled.2⟩
  | commit id => exact h.commit henabled.1 henabled.2
  | bindFailed id failure => exact h.bindFailed henabled.1 henabled.2.1 henabled.2.2 failure
  | callReturned id error => exact h.callReturned henabled.1 henabled.2 error
  | complete id => exact h.complete henabled.1 henabled.2
  | takeOperation id =>
      obtain ⟨hlive, error, hstage⟩ := henabled
      exact h.takeOperation hlive hstage
  | callbackReturned id thrown =>
      obtain ⟨hlive, ⟨operation, error, hstage⟩, hlent⟩ := henabled
      exact h.callbackReturned hlive hstage hlent thrown
  | retire id =>
      obtain ⟨hlive, operation, error, hstage⟩ := henabled
      exact h.retire hlive hstage
  | availableReturned id =>
      obtain ⟨hlive, context, error, hstage⟩ := henabled
      exact ⟨h.placed.availableReturned hlive hstage, h.counted.availableReturned hlive hstage⟩
  | unnotify id =>
      exact ⟨h.placed.unnotify henabled.2, h.counted.unnotify henabled.1 henabled.2⟩
  | leave id => exact ⟨h.placed.leave henabled.2, h.counted.leave henabled.1 henabled.2⟩
  | lend id =>
      obtain ⟨hlive, hservice, hlent, hstage⟩ := henabled
      exact ⟨h.placed.lend _ _, h.counted.lend hlive hservice hlent hstage⟩
  | resume id => exact ⟨h.placed.lend _ _, h.counted.resume henabled.1 henabled.2⟩
  | cancel => exact ⟨h.placed.cancel, h.counted.cancel⟩
  | cancelQueued index =>
      rw [QueueAction.run]
      rcases cancelQueued_cases queue index with heq | ⟨hqueued, heq⟩
      · rwa [heq]
      · rw [heq]
        exact ⟨h.placed.cancelAt henabled.1 hqueued hfresh henabled.2,
          h.counted.cancelAt henabled.1 hqueued henabled.2⟩
  | stopServices =>
      exact ⟨h.placed.activities rfl rfl (fun hstopping => hstopping) rfl rfl rfl fun _ => rfl,
        h.counted.stopServices⟩

theorem Invariant.constructed (mode : QueueMode) (capacity : Nat) :
    (constructed mode capacity).Invariant where
  placed := by
    refine ⟨fun completion hlt => absurd hlt (Nat.not_lt_zero _),
      fun index _ hheld => absurd rfl hheld, fun id custody hcustody => ?_⟩
    have hnone : (FileWorkQueue.constructed mode capacity).carrier id = none :=
      carrier_eq_none fun hlive => absurd hlive (Finset.notMem_empty id)
    cases hnone.symm.trans hcustody
  counted := by
    have hzero : ∀ measure : FileRecord → Nat, measure .initial = 0 →
        0 = (FileWorkQueue.constructed mode capacity).records.total measure :=
      fun measure hinitial => (Store.total_eq_zero fun _ _ => hinitial).symm
    refine ⟨⟨rfl, hzero _ rfl, fun _ => hzero _ rfl, fun _ => hzero _ rfl,
        fun _ _ hheld => absurd rfl hheld⟩,
      ⟨(by intros; contradiction), rfl, rfl, (by intros; contradiction),
        (by intros; contradiction)⟩, fun _ => ?_, fun _ _ => ?_, fun _ _ => ?_⟩
    · exact iff_of_false Bool.false_ne_true fun hheld => absurd hheld.2 (Nat.lt_irrefl _)
    · funext kind
      simp [FileWorkQueue.constructed, demanded]
    · exact ⟨(by intros; contradiction), fun _ hqueued => (by cases hqueued), fun hqueued =>
        hqueued.elim (absurd · Bool.false_ne_true) (absurd · Bool.false_ne_true)⟩

theorem Reachable.invariant (h : Reachable queue) : queue.Invariant := by
  induction h with
  | constructed mode capacity _ => exact .constructed mode capacity
  | step action _ henabled ih => exact ih.run henabled

/-! What holds of an accepted operation in every state. -/

/-- The callback was called and the completion settled, once each. -/
def Settled (queue : FileWorkQueue) (history : History) (operation : Operation) : Prop :=
  ∃ first thrown, queue.Ended history first ∧ history.calls = operation.called first ∧
    history.results = [operation.after first thrown]

theorem Ended.executions_le {history : History} {error : Option Failure}
    (h : queue.Ended history error) : history.executions ≤ 1 := by
  rcases h with ⟨failure, -, hnever, -⟩ | ⟨-, honce⟩
  · rw [hnever]
    exact Nat.zero_le _
  · exact Nat.le_of_eq honce

theorem called_length_le (operation : Operation) (error : Option Failure) :
    (operation.called error).length ≤ 1 := by
  rw [Operation.called]
  split
  · exact Nat.le_refl _
  · exact Nat.zero_le _

/-- Never more than once: the executions, the calls of the callback and the settlements. -/
def Once (history : History) : Prop :=
  history.executions ≤ 1 ∧ history.calls.length ≤ 1 ∧ history.results.length ≤ 1

theorem once_of_fresh {history : History} {operation : Operation}
    (h : history.Fresh operation) : Once history := by
  rw [Once, h.executions, h.calls, h.results]
  exact ⟨Nat.zero_le _, Nat.zero_le _, Nat.zero_le _⟩

theorem Called.once {history : History} {operation : Operation} {error : Option Failure}
    (h : queue.Called history operation error) (hresults : history.results.length ≤ 1) :
    Once history := by
  obtain ⟨-, first, thrown, hended, hcalls, -⟩ := h
  refine ⟨hended.executions_le, ?_, hresults⟩
  rw [hcalls]
  exact called_length_le operation first

theorem Tracks.once {record : FileRecord} {history : History} {stage : Stage}
    (h : queue.Tracks record history stage) : Once history := by
  cases stage with
  | claimed => exact once_of_fresh h.2
  | refused failure => exact once_of_fresh h.2.1
  | running =>
      obtain ⟨-, -, -, hexecutions, hcalls, hresults⟩ := h
      rw [Once, hexecutions, hcalls, hresults]
      exact ⟨Nat.le_refl _, Nat.zero_le _, Nat.zero_le _⟩
  | ended error =>
      obtain ⟨-, -, hended, hcalls, hresults⟩ := h
      rw [Once, hcalls, hresults]
      exact ⟨hended.executions_le, Nat.zero_le _, Nat.zero_le _⟩
  | finishing error =>
      obtain ⟨-, -, hended, hcalls, hresults⟩ := h
      rw [Once, hcalls, hresults]
      exact ⟨hended.executions_le, Nat.zero_le _, Nat.zero_le _⟩
  | calling operation error =>
      obtain ⟨-, -, -, hended, hcalls, hresults⟩ := h
      rw [Once, hcalls, hresults]
      exact ⟨hended.executions_le, called_length_le operation error, Nat.zero_le _⟩
  | retiring operation error =>
      obtain ⟨-, -, hcalled, hresults⟩ := h
      apply hcalled.once
      rw [hresults]
      split
      · exact Nat.zero_le _
      · exact Nat.le_refl _
  | notifying context error =>
      obtain ⟨⟨operation, hcalled⟩, hresults, -⟩ := h
      apply hcalled.once
      rw [hresults]
      exact Nat.zero_le _
  | notified => exact h.elim
  | leaving => exact h.elim

theorem Located.once {completion : Nat} (h : queue.Located completion) :
    Once (queue.histories completion) := by
  rw [Located] at h
  split at h
  · obtain ⟨-, -, ⟨-, hopened⟩ | ⟨-, hfresh⟩⟩ := h
    · rw [hopened]
      exact ⟨Nat.zero_le _, Nat.zero_le _, Nat.zero_le _⟩
    · exact once_of_fresh hfresh
  · obtain ⟨index, stage, -, -, -, htracks⟩ := h
    exact htracks.once
  · obtain ⟨-, hexecutions, hcalls, hresults⟩ := h
    rw [Once, hexecutions, hcalls, hresults]
    exact ⟨Nat.zero_le _, Nat.zero_le _, Nat.zero_le _⟩
  · obtain ⟨operation, error, hcalled, hresults⟩ := h
    apply hcalled.once
    rw [hresults]
    exact Nat.le_refl _

theorem Located.settled {completion : Nat} {operation : Operation}
    (h : queue.Located completion) (hdone : (queue.histories completion).place = .done)
    (haccepted : (queue.histories completion).operation = some operation) :
    queue.Settled (queue.histories completion) operation := by
  rw [Located, hdone] at h
  obtain ⟨operation', error, ⟨hsame, first, thrown, hended, hcalls, herror⟩, hresults⟩ := h
  cases hsame.symm.trans haccepted
  exact ⟨first, thrown, hended, hcalls, herror ▸ hresults⟩

/-- Once nothing is pending and nobody is being notified, every accepted operation is settled. -/
theorem Invariant.joined (h : queue.Invariant) (hpending : queue.pending = 0)
    (hnotifying : queue.notifying = 0) {completion : Nat} (hlt : completion < queue.completions)
    {operation : Operation} (haccepted : (queue.histories completion).operation = some operation) :
    (queue.histories completion).place = .done := by
  have hfree : ∀ index < queue.capacity, (queue.records.get index).state = .free := by
    intro index hindex
    by_contra hheld
    have hle := (h.counted.records.bounds hindex).1
    rw [hpending, FileRecord.held, if_neg hheld] at hle
    exact absurd hle (by decide)
  have hlocated := h.placed.located completion hlt
  rw [Located] at hlocated
  split at hlocated
  · obtain ⟨hindex, -, ⟨hreserved, -⟩ | ⟨hqueued, -⟩⟩ := hlocated
    · cases (hfree _ hindex).symm.trans hreserved
    · cases (hfree _ hindex).symm.trans hqueued
  · next id _ =>
      obtain ⟨index, stage, hcarrier, hindex, -, htracks⟩ := hlocated
      by_cases howns : stage.Owns
      · exact absurd (hfree _ hindex) (htracks.busy howns).not_waiting.1
      · obtain ⟨hlive, -, hcustody⟩ := carrier_eq_some.mp hcarrier
        have hle := Store.le_total (fun activity : Activity => activity.stage.notifies) hlive
        rw [← h.counted.threads.notifying, hnotifying] at hle
        have hstage : stage = (queue.activities.get id).stage := congrArg Custody.stage hcustody
        rw [← hstage] at hle
        cases stage with
        | notifying context error => exact absurd hle (Nat.not_succ_le_zero 0)
        | notified => exact htracks.elim
        | leaving => exact htracks.elim
        | _ => exact absurd trivial howns
  · cases hlocated.1.symm.trans haccepted
  · assumption

/-! Nothing is forgotten: what is not settled has somebody to take its next step. -/

/-- The record of an accepted operation stays with it until its callback has returned, and but for
a queue that notifies until its completion has settled. -/
def Kept (queue : FileWorkQueue) (completion : Nat) : Prop :=
  (∃ index < queue.capacity, (queue.records.get index).completion = completion ∧
      (queue.records.get index).state ≠ .free) ∨
    ∃ operation error, queue.Called (queue.histories completion) operation error ∧
      ((queue.histories completion).results = [error] ∨
        (queue.histories completion).results = [] ∧ queue.mode.notifies = true)

theorem Located.kept {completion : Nat} (h : queue.Located completion) {operation : Operation}
    (haccepted : (queue.histories completion).operation = some operation) :
    queue.Kept completion := by
  rw [Located] at h
  split at h
  · obtain ⟨hindex, hcompletion, hstate⟩ := h
    refine .inl ⟨_, hindex, hcompletion, fun hfree => ?_⟩
    rcases hstate with ⟨hreserved, -⟩ | ⟨hqueued, -⟩
    · cases hfree.symm.trans hreserved
    · cases hfree.symm.trans hqueued
  · obtain ⟨index, stage, -, hindex, howned, htracks⟩ := h
    cases stage with
    | notifying context error =>
        obtain ⟨⟨called, hcalled⟩, hresults, hnotifies⟩ := htracks
        exact .inr ⟨called, error, hcalled, .inr ⟨hresults, hnotifies⟩⟩
    | notified => exact htracks.elim
    | leaving => exact htracks.elim
    | claimed | refused failure | running | ended error | finishing error
    | calling called error | retiring called error =>
        exact .inl ⟨index, hindex, howned trivial, (htracks.busy trivial).not_waiting.1⟩
  · cases h.1.symm.trans haccepted
  · obtain ⟨called, error, hcalled, hresults⟩ := h
    exact .inr ⟨called, error, hcalled, .inl hresults⟩

/-- The records a predicate holds of. -/
def count (queue : FileWorkQueue) (holds : FileRecord → Prop) [DecidablePred holds] : Nat :=
  ((Finset.range queue.capacity).filter fun index => holds (queue.records.get index)).card

/-- Two threads never have the same record, and a record that a thread has is neither free nor
reserved nor queued. -/
theorem Invariant.owner (h : queue.Invariant) {custody : Custody}
    (hcarrier : queue.carrier id = some custody) (howns : custody.stage.Owns) :
    custody.index < queue.capacity ∧ Busy (queue.records.get custody.index).state ∧
      ∀ other custody', queue.carrier other = some custody' → custody'.stage.Owns →
        custody'.index = custody.index → other = id := by
  obtain ⟨-, hplace, hindex, howned, htracks⟩ := h.placed.tracked hcarrier
  refine ⟨hindex, htracks.busy howns, fun other custody' hother howns' hsame => ?_⟩
  obtain ⟨-, hplace', -, howned', -⟩ := h.placed.tracked hother
  have hcompletion : custody'.completion = custody.completion := by
    rw [← howned howns, ← howned' howns', hsame]
  rw [hcompletion] at hplace'
  cases hplace.symm.trans hplace'
  rfl

end FileWorkQueue

end Mmltk.Compile
