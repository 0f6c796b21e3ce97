import Mmltk.Compile.FileWorkQueue

namespace Mmltk.Compile

open Mmltk.Foundation

/-! Every completion is in one place: in its reserved or queued record, with the one thread that
took the record up, or settled. -/

/-- The operation of a stage is still to be settled or to give up its record. -/
def Stage.Carries : Stage → Prop
  | .notified | .leaving => False
  | _ => True

instance : DecidablePred Stage.Carries := fun stage => by
  cases stage <;> unfold Stage.Carries <;> infer_instance

/-- The record is not free yet. -/
def Stage.Owns : Stage → Prop
  | .notifying _ _ | .notified | .leaving => False
  | _ => True

theorem Stage.Owns.carries {stage : Stage} (h : stage.Owns) : stage.Carries := by
  cases stage with
  | notifying => trivial
  | notified => exact h
  | leaving => exact h
  | _ => trivial

/-- What the completed callback of an operation is called with. -/
def Operation.called (operation : Operation) (error : Option Failure) : List (Option Failure) :=
  if operation.completed then [error] else []

/-- What a callback that throws makes of an error. -/
def Operation.after (operation : Operation) (error thrown : Option Failure) : Option Failure :=
  error.or (if operation.completed then thrown else none)

structure History.Fresh (history : History) (operation : Operation) : Prop where
  operation : history.operation = some operation
  executions : history.executions = 0
  execution : history.execution = .unstarted
  calls : history.calls = []
  results : history.results = []

structure Custody where
  index : Nat
  completion : Nat
  stage : Stage

namespace FileWorkQueue

/-- What may keep an operation from ever running. -/
def Refusal (queue : FileWorkQueue) (failure : Failure) : Prop :=
  failure = .cancelled ∧ queue.stopping = true ∨ queue.mode.isRuntime = false

/-- How an operation that will not run any more has ended. -/
def Ended (queue : FileWorkQueue) (history : History) (error : Option Failure) : Prop :=
  (∃ failure, history.execution = .refused failure ∧ history.executions = 0 ∧
      error = some failure ∧ queue.Refusal failure) ∨
    history.execution = .ended error ∧ history.executions = 1

/-- The callback has been called, and may have thrown. -/
def Called (queue : FileWorkQueue) (history : History) (operation : Operation)
    (error : Option Failure) : Prop :=
  history.operation = some operation ∧ ∃ first thrown, queue.Ended history first ∧
    history.calls = operation.called first ∧ error = operation.after first thrown

def Tracks (queue : FileWorkQueue) (record : FileRecord) (history : History) : Stage → Prop
  | .claimed => record.state = .waiting ∧ history.Fresh record.operation
  | .refused _ => record.state = .waiting ∧ history.Fresh record.operation ∧
      queue.mode.isRuntime = false
  | .running => record.state = .running ∧ history.operation = some record.operation ∧
      history.execution = .running ∧ history.executions = 1 ∧ history.calls = [] ∧
      history.results = []
  | .ended error => (record.state = .waiting ∨ record.state = .running) ∧
      history.operation = some record.operation ∧ queue.Ended history error ∧
      history.calls = [] ∧ history.results = []
  | .finishing error => record.state = .completing ∧ history.operation = some record.operation ∧
      queue.Ended history error ∧ history.calls = [] ∧ history.results = []
  | .calling operation error => record.state = .completing ∧ operation = record.operation ∧
      history.operation = some operation ∧ queue.Ended history error ∧
      history.calls = operation.called error ∧ history.results = []
  | .retiring operation error => record.state = .completing ∧ operation = record.operation ∧
      queue.Called history operation error ∧
      history.results = if queue.mode.notifies then [] else [error]
  | .notifying _ error => (∃ operation, queue.Called history operation error) ∧
      history.results = [] ∧ queue.mode.notifies = true
  | .notified | .leaving => False

/-- The completion a thread carries. -/
def carrier (queue : FileWorkQueue) (id : Nat) : Option Custody :=
  let activity := queue.activities.get id
  if id ∈ queue.activities.live ∧ activity.stage.Carries then
    some ⟨activity.index, activity.completion, activity.stage⟩
  else none

def Located (queue : FileWorkQueue) (completion : Nat) : Prop :=
  let history := queue.histories completion
  match history.place with
  | .record index => index < queue.capacity ∧ (queue.records.get index).completion = completion ∧
      ((queue.records.get index).state = .reserved ∧ history = .opened index ∨
        (queue.records.get index).state = .queued ∧
          history.Fresh (queue.records.get index).operation)
  | .activity id => ∃ index stage, queue.carrier id = some ⟨index, completion, stage⟩ ∧
      index < queue.capacity ∧
      (stage.Owns → (queue.records.get index).completion = completion) ∧
      queue.Tracks (queue.records.get index) history stage
  | .returned => history.operation = none ∧ history.executions = 0 ∧ history.calls = [] ∧
      history.results = []
  | .done => ∃ operation error, queue.Called history operation error ∧ history.results = [error]

/-- A record is taken up. -/
def Busy (state : RecordState) : Prop :=
  state = .waiting ∨ state = .running ∨ state = .completing

/-- Where the completion of a record is. -/
def Holds (queue : FileWorkQueue) (index : Nat) : Prop :=
  let record := queue.records.get index
  record.state ≠ .free → record.completion < queue.completions ∧
    (record.state = .reserved ∨ record.state = .queued →
      (queue.histories record.completion).place = .record index) ∧
    (Busy record.state → ∃ id stage, (queue.histories record.completion).place = .activity id ∧
        queue.carrier id = some ⟨index, record.completion, stage⟩ ∧ stage.Owns)

structure Placed (queue : FileWorkQueue) : Prop where
  located : ∀ completion < queue.completions, queue.Located completion
  holds : ∀ index < queue.capacity, queue.Holds index
  carried : ∀ id custody, queue.carrier id = some custody →
    custody.completion < queue.completions ∧
      (queue.histories custody.completion).place = .activity id

variable {queue after : FileWorkQueue} {index id completion : Nat}

theorem Refusal.mono {failure : Failure} (h : queue.Refusal failure) (hmode : after.mode = queue.mode)
    (hstopping : queue.stopping = true → after.stopping = true) : after.Refusal failure := by
  rcases h with ⟨hcancelled, hstopped⟩ | hcompile
  · exact .inl ⟨hcancelled, hstopping hstopped⟩
  · exact .inr (hmode ▸ hcompile)

theorem Ended.mono {history : History} {error : Option Failure} (h : queue.Ended history error)
    (hmode : after.mode = queue.mode) (hstopping : queue.stopping = true → after.stopping = true) :
    after.Ended history error := by
  rcases h with ⟨failure, hrefused, hnever, herror, hrefusal⟩ | hran
  · exact .inl ⟨failure, hrefused, hnever, herror, hrefusal.mono hmode hstopping⟩
  · exact .inr hran

theorem Called.mono {history : History} {operation : Operation} {error : Option Failure}
    (h : queue.Called history operation error) (hmode : after.mode = queue.mode)
    (hstopping : queue.stopping = true → after.stopping = true) :
    after.Called history operation error := by
  obtain ⟨hoperation, first, thrown, hended, hcalled, herror⟩ := h
  exact ⟨hoperation, first, thrown, hended.mono hmode hstopping, hcalled, herror⟩

/-- `Tracks` reads the record's state and operation only. -/
theorem Tracks.mono {record record' : FileRecord} {history : History} {stage : Stage}
    (h : queue.Tracks record history stage) (hmode : after.mode = queue.mode)
    (hstopping : queue.stopping = true → after.stopping = true)
    (hstate : stage.Owns → record'.state = record.state)
    (hoperation : stage.Owns → record'.operation = record.operation) :
    after.Tracks record' history stage := by
  cases stage with
  | claimed =>
      rw [Tracks, hstate trivial, hoperation trivial]
      exact h
  | refused failure =>
      rw [Tracks, hstate trivial, hoperation trivial, hmode]
      exact h
  | running =>
      rw [Tracks, hstate trivial, hoperation trivial]
      exact h
  | ended error =>
      rw [Tracks, hstate trivial, hoperation trivial]
      exact ⟨h.1, h.2.1, h.2.2.1.mono hmode hstopping, h.2.2.2⟩
  | finishing error =>
      rw [Tracks, hstate trivial, hoperation trivial]
      exact ⟨h.1, h.2.1, h.2.2.1.mono hmode hstopping, h.2.2.2⟩
  | calling operation error =>
      rw [Tracks, hstate trivial, hoperation trivial]
      exact ⟨h.1, h.2.1, h.2.2.1, h.2.2.2.1.mono hmode hstopping, h.2.2.2.2⟩
  | retiring operation error =>
      rw [Tracks, hstate trivial, hoperation trivial, hmode]
      exact ⟨h.1, h.2.1, h.2.2.1.mono hmode hstopping, h.2.2.2⟩
  | notifying context error =>
      obtain ⟨⟨operation, hcalled⟩, hresults, hnotifies⟩ := h
      exact ⟨⟨operation, hcalled.mono hmode hstopping⟩, hresults, hmode ▸ hnotifies⟩
  | notified => exact h
  | leaving => exact h

theorem Tracks.busy {record : FileRecord} {history : History} {stage : Stage}
    (h : queue.Tracks record history stage) (howns : stage.Owns) : Busy record.state := by
  cases stage with
  | claimed => exact .inl h.1
  | refused failure => exact .inl h.1
  | running => exact .inr (.inl h.1)
  | ended error => exact h.1.imp_right .inl
  | finishing error => exact .inr (.inr h.1)
  | calling operation error => exact .inr (.inr h.1)
  | retiring operation error => exact .inr (.inr h.1)
  | notifying context error => exact howns.elim
  | notified => exact howns.elim
  | leaving => exact howns.elim

theorem Busy.not_waiting {state : RecordState} (h : Busy state) :
    state ≠ .free ∧ ¬(state = .reserved ∨ state = .queued) := by
  rcases h with hwaiting | hrunning | hcompleting
  · subst hwaiting
    exact ⟨nofun, by simp⟩
  · subst hrunning
    exact ⟨nofun, by simp⟩
  · subst hcompleting
    exact ⟨nofun, by simp⟩

/-- What a step leaves as it is: all but one record, one thread and one completion. -/
structure Elsewhere (queue after : FileWorkQueue) (index id completion : Nat) : Prop where
  capacity : after.capacity = queue.capacity
  mode : after.mode = queue.mode
  stopping : queue.stopping = true → after.stopping = true
  completions : queue.completions ≤ after.completions
  fresh : ∀ other < after.completions, other ≠ completion → other < queue.completions
  records : ∀ other, other ≠ index → after.records.get other = queue.records.get other
  carriers : ∀ other, other ≠ id → after.carrier other = queue.carrier other
  histories : ∀ other, other ≠ completion → after.histories other = queue.histories other

/-- The completion was in the record and with the thread that the step is about, if anywhere. -/
structure Here (queue : FileWorkQueue) (index id completion : Nat) : Prop where
  record : index < queue.capacity → (queue.records.get index).state ≠ .free →
    (queue.records.get index).completion = completion
  carrier : ∀ custody, queue.carrier id = some custody → custody.completion = completion
  place : completion < queue.completions →
    (queue.histories completion).place = .record index ∨
      (queue.histories completion).place = .activity id ∧
        ∃ slot stage, queue.carrier id = some ⟨slot, completion, stage⟩ ∧
          (stage.Owns → slot = index)

theorem Located.elsewhere {other : Nat} (h : queue.Located other)
    (helse : Elsewhere queue after index id completion) (hhere : queue.Here index id completion)
    (hother : other ≠ completion) : after.Located other := by
  rw [Located, helse.histories other hother]
  rw [Located] at h
  split at h
  · next place _ =>
      obtain ⟨hplace, hcompletion, hstate⟩ := h
      have hne : place ≠ index := by
        intro heq
        subst heq
        have hheld : (queue.records.get place).state ≠ .free := by
          rcases hstate with hreserved | hqueued
          · exact fun hfree => absurd (hfree.symm.trans hreserved.1) nofun
          · exact fun hfree => absurd (hfree.symm.trans hqueued.1) nofun
        exact hother (hcompletion.symm.trans (hhere.record hplace hheld))
      rw [helse.records place hne, helse.capacity]
      exact ⟨hplace, hcompletion, hstate⟩
  · next place _ =>
      obtain ⟨slot, stage, hcarrier, hslot, howned, htracks⟩ := h
      have hne : place ≠ id := by
        intro heq
        subst heq
        exact hother (hhere.carrier _ hcarrier)
      have hsame : stage.Owns → after.records.get slot = queue.records.get slot := by
        intro howns
        apply helse.records
        intro heq
        subst heq
        have hheld := (htracks.busy howns).not_waiting.1
        exact hother ((howned howns).symm.trans (hhere.record hslot hheld))
      refine ⟨slot, stage, (helse.carriers place hne).trans hcarrier, helse.capacity ▸ hslot, ?_, ?_⟩
      · intro howns
        rw [hsame howns]
        exact howned howns
      · exact htracks.mono helse.mode helse.stopping
          (fun howns => congrArg FileRecord.state (hsame howns))
          (fun howns => congrArg FileRecord.operation (hsame howns))
  · exact h
  · obtain ⟨operation, error, hcalled, hresults⟩ := h
    exact ⟨operation, error, hcalled.mono helse.mode helse.stopping, hresults⟩

/-- A step on one record, one thread and one completion. -/
theorem Placed.step (h : queue.Placed) (helse : Elsewhere queue after index id completion)
    (hhere : queue.Here index id completion)
    (hlocated : completion < after.completions → after.Located completion)
    (hholds : index < after.capacity → after.Holds index)
    (hcarried : ∀ custody, after.carrier id = some custody →
      custody.completion < after.completions ∧
        (after.histories custody.completion).place = .activity id) : after.Placed where
  located other hlt := by
    by_cases heq : other = completion
    · subst heq
      exact hlocated hlt
    · exact (h.located other (helse.fresh other hlt heq)).elsewhere helse hhere heq
  holds other hlt := by
    by_cases heq : other = index
    · subst heq
      exact hholds hlt
    · rw [Holds, helse.records other heq]
      intro hheld
      obtain ⟨hcompletion, hrecord, hactivity⟩ := h.holds other (helse.capacity ▸ hlt) hheld
      have hne : (queue.records.get other).completion ≠ completion := by
        intro hsame
        rw [hsame] at hcompletion hrecord hactivity
        -- the completion is in this record, and so not in the step's
        have hstates : ((queue.records.get other).state = .reserved ∨
            (queue.records.get other).state = .queued) ∨ Busy (queue.records.get other).state := by
          cases hstate : (queue.records.get other).state with
          | free => exact absurd hstate hheld
          | reserved => exact .inl (.inl rfl)
          | queued => exact .inl (.inr rfl)
          | waiting => exact .inr (.inl rfl)
          | running => exact .inr (.inr (.inl rfl))
          | completing => exact .inr (.inr (.inr rfl))
        rcases hhere.place hcompletion with hplace | ⟨hplace, slot, stage, hcarrier, hslot⟩
        · rcases hstates with hwaits | hbusy
          · cases hplace.symm.trans (hrecord hwaits)
            exact heq rfl
          · obtain ⟨thread, stage, hactive, -⟩ := hactivity hbusy
            exact absurd (hplace.symm.trans hactive) nofun
        · rcases hstates with hwaits | hbusy
          · exact absurd (hplace.symm.trans (hrecord hwaits)) nofun
          · obtain ⟨thread, stage', hactive, hthread, howns⟩ := hactivity hbusy
            cases hplace.symm.trans hactive
            cases hcarrier.symm.trans hthread
            exact heq (hslot howns)
      rw [helse.histories _ hne]
      refine ⟨Nat.lt_of_lt_of_le hcompletion helse.completions, hrecord, fun hbusy => ?_⟩
      obtain ⟨thread, stage, hplace, hcarrier, howns⟩ := hactivity hbusy
      have hthread : thread ≠ id := by
        intro hsame
        subst hsame
        exact hne (hhere.carrier _ hcarrier)
      exact ⟨thread, stage, hplace, (helse.carriers thread hthread).trans hcarrier, howns⟩
  carried other custody hcarrier := by
    by_cases heq : other = id
    · subst heq
      exact hcarried custody hcarrier
    · rw [helse.carriers other heq] at hcarrier
      obtain ⟨hcompletion, hplace⟩ := h.carried other custody hcarrier
      have hne : custody.completion ≠ completion := by
        intro hsame
        rw [hsame] at hcompletion hplace
        rcases hhere.place hcompletion with hrecord | ⟨hactivity, -⟩
        · exact absurd (hplace.symm.trans hrecord) nofun
        · cases hplace.symm.trans hactivity
          exact heq rfl
      rw [helse.histories _ hne]
      exact ⟨Nat.lt_of_lt_of_le hcompletion helse.completions, hplace⟩

/-! The parts of a step. -/

theorem Elsewhere.trans {middle : FileWorkQueue} (h : Elsewhere queue middle index id completion)
    (hafter : Elsewhere middle after index id completion) :
    Elsewhere queue after index id completion where
  capacity := hafter.capacity.trans h.capacity
  mode := hafter.mode.trans h.mode
  stopping hstopping := hafter.stopping (h.stopping hstopping)
  completions := Nat.le_trans h.completions hafter.completions
  fresh other hlt hne := h.fresh other (hafter.fresh other hlt hne) hne
  records other hne := (hafter.records other hne).trans (h.records other hne)
  carriers other hne := (hafter.carriers other hne).trans (h.carriers other hne)
  histories other hne := (hafter.histories other hne).trans (h.histories other hne)

theorem setRecord_get {record : FileRecord} :
    (queue.setRecord index record).records.get index = record := by
  rw [setRecord, Store.modify_get]

theorem setRecord_elsewhere (queue : FileWorkQueue) (index id completion : Nat)
    (record : FileRecord) :
    Elsewhere queue (queue.setRecord index record) index id completion where
  capacity := rfl
  mode := rfl
  stopping hstopping := hstopping
  completions := Nat.le_refl _
  fresh _ hlt _ := hlt
  records _ hne := by rw [setRecord, Store.modify_get_of_ne hne]
  carriers _ _ := rfl
  histories _ _ := rfl

theorem setHistory_get {history : History} :
    (queue.setHistory completion history).histories completion = history :=
  Function.update_self _ _ _

theorem setHistory_elsewhere (queue : FileWorkQueue) (index id completion : Nat)
    (history : History) :
    Elsewhere queue (queue.setHistory completion history) index id completion where
  capacity := rfl
  mode := rfl
  stopping hstopping := hstopping
  completions := Nat.le_refl _
  fresh _ hlt _ := hlt
  records _ _ := rfl
  carriers _ _ := rfl
  histories _ hne := Function.update_of_ne hne _ _

theorem carrier_eq_some {custody : Custody} : queue.carrier id = some custody ↔
    id ∈ queue.activities.live ∧ (queue.activities.get id).stage.Carries ∧
      custody = ⟨(queue.activities.get id).index, (queue.activities.get id).completion,
        (queue.activities.get id).stage⟩ := by
  rw [carrier]
  split
  · next h =>
      rw [Option.some_inj, eq_comm]
      exact ⟨fun heq => ⟨h.1, h.2, heq⟩, fun heq => heq.2.2⟩
  · next h => exact ⟨nofun, fun heq => absurd ⟨heq.1, heq.2.1⟩ h⟩

theorem carrier_of_live (hlive : id ∈ queue.activities.live)
    (hcarries : (queue.activities.get id).stage.Carries) :
    queue.carrier id = some ⟨(queue.activities.get id).index,
      (queue.activities.get id).completion, (queue.activities.get id).stage⟩ :=
  carrier_eq_some.mpr ⟨hlive, hcarries, rfl⟩

theorem carrier_eq_none (h : id ∈ queue.activities.live → ¬(queue.activities.get id).stage.Carries) :
    queue.carrier id = none := by
  rw [carrier, if_neg]
  exact fun hcarries => h hcarries.1 hcarries.2

theorem setStage_carrier {stage : Stage} (hlive : id ∈ queue.activities.live)
    (hcarries : stage.Carries) : (queue.setStage id stage).carrier id =
      some ⟨(queue.activities.get id).index, (queue.activities.get id).completion, stage⟩ := by
  rw [carrier_eq_some]
  refine ⟨hlive, ?_, ?_⟩
  · rw [setStage, Store.modify_get]
    exact hcarries
  · rw [setStage, Store.modify_get]

theorem setStage_elsewhere (queue : FileWorkQueue) (index id completion : Nat) (stage : Stage) :
    Elsewhere queue (queue.setStage id stage) index id completion where
  capacity := rfl
  mode := rfl
  stopping hstopping := hstopping
  completions := Nat.le_refl _
  fresh _ hlt _ := hlt
  records _ _ := rfl
  carriers other hne := by
    rw [carrier, carrier, setStage, Store.modify_get_of_ne hne]
    rfl
  histories _ _ := rfl

theorem destroy_elsewhere (queue : FileWorkQueue) (index id completion : Nat) :
    Elsewhere queue { queue with activities := queue.activities.destroy id } index id
      completion where
  capacity := rfl
  mode := rfl
  stopping hstopping := hstopping
  completions := Nat.le_refl _
  fresh _ hlt _ := hlt
  records _ _ := rfl
  carriers other hne := by
    simp only [carrier, Store.destroy_get, Store.destroy_live, Finset.mem_erase, hne, ne_eq,
      not_false_eq_true, true_and]
  histories _ _ := rfl

/-! The steps of a thread with its record. -/

theorem Placed.here_carried (h : queue.Placed) {stage : Stage}
    (hcarrier : queue.carrier id = some ⟨index, completion, stage⟩) (howns : stage.Owns) :
    queue.Here index id completion where
  record hindex hheld := by
    obtain ⟨hcompletion, hplace⟩ := h.carried id _ hcarrier
    have hlocated := h.located completion hcompletion
    rw [Located, hplace] at hlocated
    obtain ⟨slot, stage', hcarrier', -, howned, -⟩ := hlocated
    cases hcarrier.symm.trans hcarrier'
    exact howned howns
  carrier custody hcustody := by
    cases hcarrier.symm.trans hcustody
    rfl
  place hcompletion :=
    .inr ⟨(h.carried id _ hcarrier).2, index, stage, hcarrier, fun _ => rfl⟩

/-- What a thread has, with its record and its completion. -/
theorem Placed.tracked (h : queue.Placed) {stage : Stage}
    (hcarrier : queue.carrier id = some ⟨index, completion, stage⟩) :
    completion < queue.completions ∧ (queue.histories completion).place = .activity id ∧
      index < queue.capacity ∧
      (stage.Owns → (queue.records.get index).completion = completion) ∧
      queue.Tracks (queue.records.get index) (queue.histories completion) stage := by
  obtain ⟨hcompletion, hplace⟩ := h.carried id _ hcarrier
  have hlocated := h.located completion hcompletion
  rw [Located, hplace] at hlocated
  obtain ⟨slot, stage', hcarrier', hslot, howned, htracks⟩ := hlocated
  cases hcarrier.symm.trans hcarrier'
  exact ⟨hcompletion, hplace, hslot, howned, htracks⟩

/-- A thread goes on to another stage, with what it leaves in its record and its history. -/
def proceed (queue : FileWorkQueue) (id : Nat) (record : FileRecord) (stage : Stage)
    (history : History) : FileWorkQueue :=
  let activity := queue.activities.get id
  ((queue.setRecord activity.index record).setStage id stage).setHistory activity.completion history

theorem setRecord_same : queue.setRecord index (queue.records.get index) = queue := by
  simp [setRecord, Store.modify, Function.update_eq_self]

theorem setHistory_same : queue.setHistory completion (queue.histories completion) = queue := by
  simp [setHistory, Function.update_eq_self]

theorem proceed_record {record : FileRecord} {stage : Stage} {history : History} :
    (queue.proceed id record stage history).records.get (queue.activities.get id).index =
      record := by
  show (queue.setRecord _ _).records.get _ = _
  rw [setRecord_get]

theorem proceed_history {record : FileRecord} {stage : Stage} {history : History} :
    (queue.proceed id record stage history).histories (queue.activities.get id).completion =
      history := setHistory_get

theorem Placed.proceed (h : queue.Placed) (hlive : id ∈ queue.activities.live)
    (howns : (queue.activities.get id).stage.Owns) {record : FileRecord} {stage : Stage}
    {history : History} (hcarries : stage.Carries) (hfree : stage.Owns ∨ record.state = .free)
    (hrecord : record.completion = (queue.activities.get id).completion)
    (hplace : history.place = .activity id) (htracks : queue.Tracks record history stage) :
    (queue.proceed id record stage history).Placed := by
  have hcarrier := carrier_of_live hlive howns.carries
  have hafter : (queue.proceed id record stage history).carrier id =
      some ⟨(queue.activities.get id).index, (queue.activities.get id).completion, stage⟩ :=
    setStage_carrier hlive hcarries
  have helse : Elsewhere queue (queue.proceed id record stage history)
      (queue.activities.get id).index id (queue.activities.get id).completion :=
    ((setRecord_elsewhere _ _ _ _ _).trans (setStage_elsewhere _ _ _ _ _)).trans
      (setHistory_elsewhere _ _ _ _ _)
  obtain ⟨hcompletion, -, hindex, -⟩ := h.tracked hcarrier
  have htracked : (queue.proceed id record stage history).Tracks record history stage :=
    htracks.mono rfl (fun hstopping => hstopping) (fun _ => rfl) fun _ => rfl
  apply h.step helse (h.here_carried hcarrier howns)
  · intro _
    rw [Located, proceed_history, hplace]
    refine ⟨_, stage, hafter, hindex, fun _ => ?_, ?_⟩
    · rw [proceed_record]
      exact hrecord
    · rw [proceed_record]
      exact htracked
  · intro _
    rw [Holds, proceed_record]
    intro hheld
    have howns' := hfree.resolve_right hheld
    refine ⟨hrecord.symm ▸ hcompletion, fun hwaits => ?_, fun _ => ?_⟩
    · exact absurd hwaits (htracks.busy howns').not_waiting.2
    · rw [hrecord, proceed_history]
      exact ⟨id, stage, hplace, hafter, howns'⟩
  · intro custody hcustody
    cases hafter.symm.trans hcustody
    refine ⟨hcompletion, ?_⟩
    rw [proceed_history]
    exact hplace

end FileWorkQueue

end Mmltk.Compile
