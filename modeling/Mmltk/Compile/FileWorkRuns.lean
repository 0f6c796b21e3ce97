import Mmltk.Compile.FileWorkInvariant

namespace Mmltk.Compile

open Mmltk.Foundation

namespace FileWorkQueue

variable {queue : FileWorkQueue} {index id : Nat}

/-! What each step of a thread leaves. -/

/-- The record a thread has taken up, and the history of its completion. -/
def record (queue : FileWorkQueue) (id : Nat) : FileRecord :=
  queue.records.get (queue.activities.get id).index

def history (queue : FileWorkQueue) (id : Nat) : History :=
  queue.histories (queue.activities.get id).completion

theorem proceed_same_record (stage : Stage) (history : History) :
    queue.proceed id (queue.record id) stage history =
      (queue.setStage id stage).setHistory (queue.activities.get id).completion history := by
  rw [proceed, record, setRecord_same]

theorem commit_stopped (hstopping : queue.stopping = true) : queue.commit id =
    queue.proceed id (queue.record id) (.ended (some .cancelled))
      { queue.history id with execution := .refused .cancelled } := by
  rw [proceed_same_record, commit, if_pos hstopping]
  rfl

theorem commit_running (hstopping : ¬queue.stopping = true) : queue.commit id =
    queue.proceed id { queue.record id with state := .running } .running
      { queue.history id with
        executions := (queue.history id).executions + 1
        execution := .running } := by
  rw [commit, if_neg hstopping]
  rfl

theorem bindFailed_eq (failure : Failure) : queue.bindFailed id failure =
    queue.proceed id (queue.record id) (.ended (some failure))
      { queue.history id with execution := .refused failure } := by
  rw [proceed_same_record]
  rfl

theorem callReturned_eq (error : Option Failure) : queue.callReturned id error =
    queue.proceed id (queue.record id) (.ended error)
      { queue.history id with execution := .ended error } := by
  rw [proceed_same_record]
  rfl

theorem proceed_same_history (record : FileRecord) (stage : Stage) :
    queue.proceed id record stage (queue.history id) =
      (queue.setRecord (queue.activities.get id).index record).setStage id stage := by
  have hsame := @setHistory_same ((queue.setRecord (queue.activities.get id).index record).setStage
    id stage) (queue.activities.get id).completion
  exact hsame

theorem complete_ended {error : Option Failure}
    (hstage : (queue.activities.get id).stage = .ended error) : queue.complete id =
      queue.proceed id { queue.record id with state := .completing } (.finishing error)
        (queue.history id) := by
  rw [proceed_same_history, complete]
  simp only [hstage]
  rfl

theorem complete_refused {failure : Failure}
    (hstage : (queue.activities.get id).stage = .refused failure) : queue.complete id =
      queue.proceed id { queue.record id with state := .completing } (.finishing (some failure))
        { queue.history id with execution := .refused failure } := by
  rw [complete]
  simp only [hstage]
  rfl

theorem takeOperation_eq {error : Option Failure}
    (hstage : (queue.activities.get id).stage = .finishing error) : queue.takeOperation id =
      queue.proceed id (queue.record id) (.calling (queue.record id).operation error)
        { queue.history id with
          calls := (queue.history id).calls ++ (queue.record id).operation.called error } := by
  rw [proceed_same_record, takeOperation]
  simp only [hstage]
  rfl

theorem callbackReturned_eq {operation : Operation} {error : Option Failure}
    (hstage : (queue.activities.get id).stage = .calling operation error)
    (thrown : Option Failure) : queue.callbackReturned id thrown =
      queue.proceed id (queue.record id) (.retiring operation (operation.after error thrown))
        { queue.history id with
          results := (queue.history id).results ++
            if queue.mode.notifies then [] else [operation.after error thrown] } := by
  rw [proceed_same_record, callbackReturned]
  simp only [hstage]
  rfl

theorem Placed.at_stage (h : queue.Placed) (hlive : id ∈ queue.activities.live) {stage : Stage}
    (hstage : (queue.activities.get id).stage = stage) (howns : stage.Owns) :
    (queue.record id).completion = (queue.activities.get id).completion ∧
      (queue.history id).place = .activity id ∧
      queue.Tracks (queue.record id) (queue.history id) stage := by
  subst hstage
  obtain ⟨-, hplace, -, howned, htracks⟩ := h.tracked (carrier_of_live hlive howns.carries)
  exact ⟨howned howns, hplace, htracks⟩

theorem Placed.commit (h : queue.Placed) (hlive : id ∈ queue.activities.live)
    (hstage : (queue.activities.get id).stage = .claimed) : (queue.commit id).Placed := by
  obtain ⟨howned, hplace, hwaiting, hfresh⟩ := h.at_stage hlive hstage trivial
  by_cases hstopping : queue.stopping = true
  · rw [commit_stopped hstopping]
    refine h.proceed hlive (hstage ▸ trivial) trivial (.inl trivial) howned hplace ⟨.inl hwaiting,
      hfresh.operation, .inl ⟨_, rfl, hfresh.executions, rfl, ?_⟩, hfresh.calls, hfresh.results⟩
    exact .inl ⟨rfl, hstopping⟩
  · rw [commit_running hstopping]
    refine h.proceed hlive (hstage ▸ trivial) trivial (.inl trivial) howned hplace ⟨rfl, hfresh.operation, rfl,
      ?_, hfresh.calls, hfresh.results⟩
    exact congrArg (· + 1) hfresh.executions

theorem Placed.bindFailed (h : queue.Placed) (hlive : id ∈ queue.activities.live)
    (hstage : (queue.activities.get id).stage = .claimed) (hcompile : queue.mode.isRuntime = false)
    (failure : Failure) : (queue.bindFailed id failure).Placed := by
  obtain ⟨howned, hplace, hwaiting, hfresh⟩ := h.at_stage hlive hstage trivial
  rw [bindFailed_eq]
  exact h.proceed hlive (hstage ▸ trivial) trivial (.inl trivial) howned hplace ⟨.inl hwaiting, hfresh.operation,
    .inl ⟨failure, rfl, hfresh.executions, rfl, .inr hcompile⟩, hfresh.calls, hfresh.results⟩

theorem Placed.callReturned (h : queue.Placed) (hlive : id ∈ queue.activities.live)
    (hstage : (queue.activities.get id).stage = .running) (error : Option Failure) :
    (queue.callReturned id error).Placed := by
  obtain ⟨howned, hplace, hrunning, hoperation, -, hexecutions, hcalls, hresults⟩ :=
    h.at_stage hlive hstage trivial
  rw [callReturned_eq]
  exact h.proceed hlive (hstage ▸ trivial) trivial (.inl trivial) howned hplace
    ⟨.inr hrunning, hoperation, .inr ⟨rfl, hexecutions⟩, hcalls, hresults⟩

theorem Placed.complete (h : queue.Placed) (hlive : id ∈ queue.activities.live)
    (hstage : (∃ error, (queue.activities.get id).stage = .ended error) ∨
      ∃ failure, (queue.activities.get id).stage = .refused failure) :
    (queue.complete id).Placed := by
  rcases hstage with ⟨error, hstage⟩ | ⟨failure, hstage⟩
  · obtain ⟨howned, hplace, -, hoperation, hended, hcalls, hresults⟩ :=
      h.at_stage hlive hstage trivial
    rw [complete_ended hstage]
    exact h.proceed hlive (hstage ▸ trivial) trivial (.inl trivial) howned hplace
      ⟨rfl, hoperation, hended, hcalls, hresults⟩
  · obtain ⟨howned, hplace, -, hfresh, hcompile⟩ := h.at_stage hlive hstage trivial
    rw [complete_refused hstage]
    exact h.proceed hlive (hstage ▸ trivial) trivial (.inl trivial) howned hplace ⟨rfl, hfresh.operation,
      .inl ⟨failure, rfl, hfresh.executions, rfl, .inr hcompile⟩, hfresh.calls, hfresh.results⟩

theorem Placed.takeOperation (h : queue.Placed) (hlive : id ∈ queue.activities.live)
    {error : Option Failure} (hstage : (queue.activities.get id).stage = .finishing error) :
    (queue.takeOperation id).Placed := by
  obtain ⟨howned, hplace, hcompleting, hoperation, hended, hcalls, hresults⟩ :=
    h.at_stage hlive hstage trivial
  rw [takeOperation_eq hstage, hcalls]
  exact h.proceed hlive (hstage ▸ trivial) trivial (.inl trivial) howned hplace
    ⟨hcompleting, rfl, hoperation, hended, rfl, hresults⟩

theorem Placed.callbackReturned (h : queue.Placed) (hlive : id ∈ queue.activities.live)
    {operation : Operation} {error : Option Failure}
    (hstage : (queue.activities.get id).stage = .calling operation error)
    (thrown : Option Failure) : (queue.callbackReturned id thrown).Placed := by
  obtain ⟨howned, hplace, hcompleting, hsame, hoperation, hended, hcalls, hresults⟩ :=
    h.at_stage hlive hstage trivial
  rw [callbackReturned_eq hstage, hresults]
  exact h.proceed hlive (hstage ▸ trivial) trivial (.inl trivial) howned hplace
    ⟨hcompleting, hsame, ⟨hoperation, error, thrown, hended, hcalls, rfl⟩, rfl⟩

/-! The other steps on a record and its completion. -/

/-- What the places read of a queue has not changed. -/
theorem Placed.congr {after : FileWorkQueue} (h : queue.Placed)
    (hcapacity : after.capacity = queue.capacity) (hmode : after.mode = queue.mode)
    (hstopping : queue.stopping = true → after.stopping = true)
    (hcompletions : after.completions = queue.completions)
    (hstate : ∀ other, (after.records.get other).state = (queue.records.get other).state)
    (hcompletion : ∀ other, (after.records.get other).completion =
      (queue.records.get other).completion)
    (hoperation : ∀ other, (after.records.get other).operation =
      (queue.records.get other).operation)
    (hcarrier : ∀ other, after.carrier other = queue.carrier other)
    (hhistories : after.histories = queue.histories) : after.Placed where
  located completion hlt := by
    have hbefore := h.located completion (hcompletions ▸ hlt)
    rw [Located] at hbefore ⊢
    rw [hhistories]
    split at hbefore
    · rw [hcapacity, hstate, hcompletion, hoperation]
      exact hbefore
    · obtain ⟨slot, stage, hcustody, hslot, howned, htracks⟩ := hbefore
      refine ⟨slot, stage, (hcarrier _).trans hcustody, hcapacity ▸ hslot, ?_, ?_⟩
      · rw [hcompletion]
        exact howned
      · exact htracks.mono hmode hstopping (fun _ => hstate slot) fun _ => hoperation slot
    · exact hbefore
    · obtain ⟨operation, error, hcalled, hresults⟩ := hbefore
      exact ⟨operation, error, hcalled.mono hmode hstopping, hresults⟩
  holds index hindex := by
    rw [Holds, hstate, hcompletion, hcompletions, hhistories]
    simp only [hcarrier]
    exact h.holds index (hcapacity ▸ hindex)
  carried id custody hcustody := by
    rw [hcompletions, hhistories]
    exact h.carried id custody ((hcarrier id).symm.trans hcustody)

theorem Placed.setRecord (h : queue.Placed) {record : FileRecord}
    (hstate : record.state = (queue.records.get index).state)
    (hcompletion : record.completion = (queue.records.get index).completion)
    (hoperation : record.operation = (queue.records.get index).operation) :
    (queue.setRecord index record).Placed := by
  have hget : ∀ other, (queue.setRecord index record).records.get other =
      if other = index then record else queue.records.get other := by
    intro other
    split
    · next heq => rw [heq, setRecord_get]
    · next hne => exact (setRecord_elsewhere queue index 0 0 record).records other hne
  refine h.congr rfl rfl (fun hstopping => hstopping) rfl ?_ ?_ ?_ (fun _ => rfl) rfl
  · intro other
    rw [hget]
    split
    · next heq => rw [hstate, heq]
    · rfl
  · intro other
    rw [hget]
    split
    · next heq => rw [hcompletion, heq]
    · rfl
  · intro other
    rw [hget]
    split
    · next heq => rw [hoperation, heq]
    · rfl

theorem Placed.here_record (h : queue.Placed) (hfresh : queue.carrier id = none)
    (hindex : index < queue.capacity)
    (hwaits : (queue.records.get index).state = .reserved ∨
      (queue.records.get index).state = .queued) :
    queue.Here index id (queue.records.get index).completion ∧
      (queue.records.get index).completion < queue.completions ∧
      (queue.histories (queue.records.get index).completion).place = .record index ∧
      ((queue.records.get index).state = .reserved →
        queue.histories (queue.records.get index).completion = .opened index) ∧
      ((queue.records.get index).state = .queued →
        (queue.histories (queue.records.get index).completion).Fresh
          (queue.records.get index).operation) := by
  have hheld : (queue.records.get index).state ≠ .free := by
    rcases hwaits with hreserved | hqueued
    · exact fun hfree => by cases hfree.symm.trans hreserved
    · exact fun hfree => by cases hfree.symm.trans hqueued
  obtain ⟨hcompletion, hrecord, -⟩ := h.holds index hindex hheld
  have hplace := hrecord hwaits
  have hlocated := h.located _ hcompletion
  rw [Located, hplace] at hlocated
  refine ⟨⟨fun _ _ => rfl, fun custody hcustody => ?_, fun _ => .inl hplace⟩, hcompletion, hplace,
    fun hreserved => ?_, fun hqueued => ?_⟩
  · cases hfresh.symm.trans hcustody
  · rcases hlocated.2.2 with hopened | hsubmitted
    · exact hopened.2
    · cases hreserved.symm.trans hsubmitted.1
  · rcases hlocated.2.2 with hopened | hsubmitted
    · cases hqueued.symm.trans hopened.1
    · exact hsubmitted.2

/-- The completion stays in its record, reserved or queued. -/
theorem Placed.inRecord (h : queue.Placed) (hindex : index < queue.capacity)
    (hwaits : (queue.records.get index).state = .reserved ∨
      (queue.records.get index).state = .queued)
    (hfresh : queue.carrier queue.started = none) {record : FileRecord} {history : History}
    (hcompletion : record.completion = (queue.records.get index).completion)
    (hplace : history.place = .record index)
    (hstate : record.state = .queued) (hsubmitted : history.Fresh record.operation) :
    ((queue.setRecord index record).setHistory record.completion history).Placed := by
  obtain ⟨hhere, hlt, -⟩ := h.here_record hfresh hindex hwaits
  rw [← hcompletion] at hhere hlt
  have hget : ((queue.setRecord index record).setHistory record.completion
      history).records.get index = record := setRecord_get
  apply h.step ((setRecord_elsewhere _ _ _ _ _).trans (setHistory_elsewhere _ _ _ _ _)) hhere
  · intro _
    rw [Located, setHistory_get, hplace]
    simp only
    rw [hget]
    exact ⟨hindex, rfl, .inr ⟨hstate, hsubmitted⟩⟩
  · intro _
    rw [Holds, hget]
    intro _
    refine ⟨hlt, fun _ => ?_, fun hbusy => ?_⟩
    · rw [setHistory_get]
      exact hplace
    · exact absurd (.inr hstate) hbusy.not_waiting.2
  · intro custody hcustody
    cases hfresh.symm.trans hcustody

/-- The completion of a record that is freed ends up with nobody. -/
theorem Placed.gone {after : FileWorkQueue} {completion : Nat} (h : queue.Placed)
    (helse : Elsewhere queue after index id completion) (hhere : queue.Here index id completion)
    (hcarrier : after.carrier id = none)
    (hfree : index < after.capacity → (after.records.get index).state = .free)
    (hlocated : after.Located completion) : after.Placed := by
  apply h.step helse hhere
  · exact fun _ => hlocated
  · exact fun hindex hheld => absurd (hfree hindex) hheld
  · intro custody hcustody
    exact absurd (hcarrier.symm.trans hcustody) nofun

/-- A thread takes a queued record up. -/
def takeUp (queue : FileWorkQueue) (index : Nat) (record : FileRecord) (service : Bool)
    (stage : Stage) (history : History) : FileWorkQueue :=
  { (queue.setRecord index record).setHistory record.completion history with
    activities :=
      queue.activities.construct queue.started ⟨index, record.completion, service, false, stage⟩
    started := queue.started + 1 }

theorem takeUp_carrier (queue : FileWorkQueue) (index : Nat) (record : FileRecord)
    (service : Bool) {stage : Stage} (history : History) (hcarries : stage.Carries) :
    (queue.takeUp index record service stage history).carrier queue.started =
      some ⟨index, record.completion, stage⟩ := by
  have hget : (queue.takeUp index record service stage history).activities.get queue.started =
      ⟨index, record.completion, service, false, stage⟩ := Store.construct_get
  rw [carrier_eq_some, hget]
  exact ⟨Finset.mem_insert_self _ _, hcarries, rfl⟩

theorem takeUp_elsewhere (queue : FileWorkQueue) (index : Nat) (record : FileRecord)
    (service : Bool) (stage : Stage) (history : History) :
    Elsewhere queue (queue.takeUp index record service stage history) index queue.started
      record.completion where
  capacity := rfl
  mode := rfl
  stopping hstopping := hstopping
  completions := Nat.le_refl _
  fresh _ hlt _ := hlt
  records other hne := (setRecord_elsewhere queue index 0 0 record).records other hne
  carriers other hne := by
    simp only [carrier, takeUp, Store.construct_live, Store.construct_get_of_ne hne,
      Finset.mem_insert, hne, false_or]
  histories _ hne := Function.update_of_ne hne _ _

theorem Placed.takeUp (h : queue.Placed) (hindex : index < queue.capacity)
    (hqueued : (queue.records.get index).state = .queued)
    (hfresh : queue.carrier queue.started = none) {record : FileRecord} {service : Bool}
    {stage : Stage} {history : History} (howns : stage.Owns)
    (hcompletion : record.completion = (queue.records.get index).completion)
    (hplace : history.place = .activity queue.started)
    (htracks : queue.Tracks record history stage) :
    (queue.takeUp index record service stage history).Placed := by
  obtain ⟨hhere, hlt, -⟩ := h.here_record hfresh hindex (.inr hqueued)
  rw [← hcompletion] at hhere hlt
  have hget : (queue.takeUp index record service stage history).records.get index = record :=
    setRecord_get
  have hhistory : (queue.takeUp index record service stage history).histories record.completion =
      history := Function.update_self _ _ _
  have hafter := takeUp_carrier queue index record service history howns.carries
  have htracked : (queue.takeUp index record service stage history).Tracks record history stage :=
    htracks.mono rfl (fun hstopping => hstopping) (fun _ => rfl) fun _ => rfl
  apply h.step (takeUp_elsewhere queue index record service stage history) hhere
  · intro _
    rw [Located, hhistory, hplace]
    refine ⟨index, stage, hafter, hindex, fun _ => ?_, ?_⟩
    · rw [hget]
    · rw [hget]
      exact htracked
  · intro _
    rw [Holds, hget]
    intro _
    refine ⟨hlt, fun hwaits => ?_, fun _ => ?_⟩
    · exact absurd hwaits (htracks.busy howns).not_waiting.2
    · rw [hhistory]
      exact ⟨queue.started, stage, hplace, hafter, howns⟩
  · intro custody hcustody
    cases hafter.symm.trans hcustody
    refine ⟨hlt, ?_⟩
    rw [hhistory]
    exact hplace

/-! The queue's own steps. -/

theorem updateDemand_eq (queue : FileWorkQueue) : queue.updateDemand =
    { queue with demand := if queue.mode.isRuntime then queue.demand else queue.demanded } := by
  rw [updateDemand]
  split
  · rfl
  · rfl

def reserveAt (queue : FileWorkQueue) (index : Nat) (kind : CompileWorkClass) : FileWorkQueue :=
  let opens := decide (queue.classPending kind = 0) && !queue.mode.isRuntime
  { (queue.setRecord index { queue.records.get index with
        completion := queue.completions
        workClass := kind
        state := .reserved }).setHistory queue.completions (.opened index) with
    producers := if opens then Function.update queue.producers kind true else queue.producers
    classPending := Function.update queue.classPending kind (queue.classPending kind + 1)
    pending := queue.pending + 1
    completions := queue.completions + 1 }

theorem tryReserveRecord_cases (queue : FileWorkQueue) (kind : CompileWorkClass)
    (interruption opened : Option String) :
    (∃ reply, queue.tryReserveRecord kind interruption opened = (queue, reply)) ∨
      ∃ index < queue.capacity, (queue.records.get index).state = .free ∧
        queue.stopping = false ∧
        queue.tryReserveRecord kind interruption opened =
          (queue.reserveAt index kind, .reserved index) := by
  rw [tryReserveRecord]
  split
  · exact .inl ⟨_, rfl⟩
  · split
    · exact .inl ⟨_, rfl⟩
    · next hadmitted =>
        split
        · exact .inl ⟨_, rfl⟩
        · next index hfound =>
            simp only
            split
            · exact .inl ⟨_, rfl⟩
            · have hfree := List.find?_some hfound
              have hindex := List.mem_range.mp (List.mem_of_find?_eq_some hfound)
              refine .inr ⟨index, hindex, of_decide_eq_true hfree, ?_, rfl⟩
              rw [checkAdmission] at hadmitted
              by_contra hstopping
              rw [if_pos (Bool.eq_true_of_not_eq_false hstopping)] at hadmitted
              cases hadmitted

theorem Placed.reserveAt (h : queue.Placed) (hindex : index < queue.capacity)
    (hfree : (queue.records.get index).state = .free)
    (hfresh : queue.carrier queue.started = none) (kind : CompileWorkClass) :
    (queue.reserveAt index kind).Placed := by
  have hhere : queue.Here index queue.started queue.completions :=
    ⟨fun _ hheld => absurd hfree hheld,
      fun custody hcustody => absurd (hfresh.symm.trans hcustody) nofun,
      fun hlt => absurd hlt (Nat.lt_irrefl _)⟩
  have helse : Elsewhere queue (queue.reserveAt index kind) index queue.started
      queue.completions :=
    ⟨rfl, rfl, fun hstopping => hstopping, Nat.le_succ _,
      fun other hlt hne => Nat.lt_of_le_of_ne (Nat.le_of_lt_succ hlt) hne,
      fun other hne => (setRecord_elsewhere queue index 0 0 _).records other hne, fun _ _ => rfl,
      fun other hne => Function.update_of_ne hne _ _⟩
  have hget : (queue.reserveAt index kind).records.get index = { queue.records.get index with
      completion := queue.completions, workClass := kind, state := .reserved } := setRecord_get
  have hhistory : (queue.reserveAt index kind).histories queue.completions = .opened index :=
    Function.update_self _ _ _
  apply h.step helse hhere
  · intro _
    have hplace : ((queue.reserveAt index kind).histories queue.completions).place =
        .record index := by rw [hhistory]; rfl
    rw [Located, hplace]
    simp only
    rw [hget, hhistory]
    exact ⟨hindex, rfl, .inl ⟨rfl, rfl⟩⟩
  · intro _
    rw [Holds, hget]
    intro _
    refine ⟨Nat.lt_succ_self _, fun _ => ?_, fun hbusy => ?_⟩
    · rw [hhistory]
      rfl
    · exact absurd (.inl rfl) hbusy.not_waiting.2
  · intro custody hcustody
    exact absurd (hfresh.symm.trans hcustody) nofun

def releaseAt (queue : FileWorkQueue) (index : Nat) : FileWorkQueue :=
  let record := queue.records.get index
  ((queue.setRecord index { record with state := .free }).setHistory record.completion
    { queue.histories record.completion with place := .returned }).retireClass record.workClass

theorem release_cases (queue : FileWorkQueue) (index : Nat) :
    queue.release index = (queue, .quiet) ∨
      index < queue.capacity ∧ (queue.records.get index).state = .reserved ∧
        queue.release index = (queue.releaseAt index, .quiet) := by
  rw [release]
  simp only
  split
  · exact .inl rfl
  · next h =>
      obtain ⟨hindex, hstate⟩ := not_or.mp h
      exact .inr ⟨Nat.lt_of_not_le hindex, Decidable.not_not.mp hstate, rfl⟩

theorem Placed.releaseAt (h : queue.Placed) (hindex : index < queue.capacity)
    (hreserved : (queue.records.get index).state = .reserved)
    (hfresh : queue.carrier queue.started = none) : (queue.releaseAt index).Placed := by
  obtain ⟨hhere, -, hplace, hopened, -⟩ := h.here_record hfresh hindex (.inl hreserved)
  have helse : Elsewhere queue (queue.releaseAt index) index queue.started
      (queue.records.get index).completion :=
    ((setRecord_elsewhere _ _ _ _ _).trans (setHistory_elsewhere _ _ _ _ _)).trans
      ⟨rfl, rfl, fun hstopping => hstopping, Nat.le_refl _, fun _ hlt _ => hlt, fun _ _ => rfl,
        fun _ _ => rfl, fun _ _ => rfl⟩
  have hhistory : (queue.releaseAt index).histories (queue.records.get index).completion =
      { queue.histories (queue.records.get index).completion with place := .returned } :=
    Function.update_self _ _ _
  apply h.gone helse hhere hfresh
  · intro _
    have hget : (queue.releaseAt index).records.get index =
        { queue.records.get index with state := .free } := setRecord_get
    rw [hget]
  · rw [Located, hhistory, hopened hreserved]
    exact ⟨rfl, rfl, rfl, rfl⟩

def submitted (queue : FileWorkQueue) (index : Nat) (operation : Operation) : FileRecord :=
  let record := queue.records.get index
  { record with
    operation := operation
    state := .queued
    dispatchOwner := record.dispatchOwner || queue.mode.isRuntime
    dispatchQueued := record.dispatchQueued || queue.mode.isRuntime }

def submitAt (queue : FileWorkQueue) (index : Nat) (operation : Operation) : FileWorkQueue :=
  let record := queue.records.get index
  { (queue.setRecord index (queue.submitted index operation)).setHistory record.completion
      { queue.histories record.completion with operation := some operation } with
    queued := Function.update queue.queued record.workClass
      (queue.queued record.workClass + 1) }.updateDemand

/-- A submission is refused, by the pool after the owner was set, or the operation is accepted. -/
theorem submit_cases (queue : FileWorkQueue) (index : Nat) (operation : Operation)
    (interruption refused : Option String) :
    (∃ failure, queue.submit index operation interruption refused = (queue, .threw failure)) ∨
      index < queue.capacity ∧ (queue.records.get index).state = .reserved ∧
        queue.stopping = false ∧
        ((∃ failure, queue.submit index operation interruption refused =
            (queue.setRecord index { queue.records.get index with dispatchOwner := false },
              .threw failure)) ∨
          operation.serviceClass = (queue.records.get index).workClass ∧
            queue.submit index operation interruption refused =
              (queue.submitAt index operation, .accepted (queue.records.get index).completion)) := by
  rw [submit]
  simp only
  split
  · exact .inl ⟨_, rfl⟩
  · next hreserved =>
      obtain ⟨hindex, hstate⟩ := not_or.mp hreserved
      split
      · exact .inl ⟨_, rfl⟩
      · split
        · exact .inl ⟨_, rfl⟩
        · next hadmitted =>
            split
            · exact .inl ⟨_, rfl⟩
            · next hclass =>
                refine .inr ⟨Nat.lt_of_not_le hindex, Decidable.not_not.mp hstate, ?_, ?_⟩
                · rw [checkAdmission] at hadmitted
                  by_contra hstopping
                  rw [if_pos (Bool.eq_true_of_not_eq_false hstopping)] at hadmitted
                  cases hadmitted
                · split
                  · exact .inl ⟨_, rfl⟩
                  · exact .inr ⟨Decidable.not_not.mp hclass, rfl⟩

theorem Placed.submitAt (h : queue.Placed) (hindex : index < queue.capacity)
    (hreserved : (queue.records.get index).state = .reserved)
    (hfresh : queue.carrier queue.started = none) (operation : Operation) :
    (queue.submitAt index operation).Placed := by
  obtain ⟨-, -, hplace, hopened, -⟩ := h.here_record hfresh hindex (.inl hreserved)
  have hsubmitted : ({ queue.histories (queue.records.get index).completion with
      operation := some operation } : History).Fresh operation := by
    rw [hopened hreserved]
    exact ⟨rfl, rfl, rfl, rfl, rfl⟩
  have hafter : ((queue.setRecord index (queue.submitted index operation)).setHistory
      (queue.records.get index).completion
      { queue.histories (queue.records.get index).completion with
        operation := some operation }).Placed :=
    h.inRecord hindex (.inl hreserved) hfresh rfl hplace rfl hsubmitted
  rw [FileWorkQueue.submitAt, updateDemand_eq]
  exact ⟨hafter.located, hafter.holds, hafter.carried⟩

theorem start_eq {service : Bool} {stage : Stage} {record : FileRecord}
    (hrecord : queue.records.get index = record) : queue.start index service stage =
      { queue.setHistory record.completion
          { queue.histories record.completion with place := .activity queue.started } with
        activities :=
          queue.activities.construct queue.started ⟨index, record.completion, service, false, stage⟩
        started := queue.started + 1 } := by
  subst hrecord
  rfl

/-- The history of a completion that a thread takes up. -/
def takenHistory (queue : FileWorkQueue) (index : Nat) : History :=
  { queue.histories (queue.records.get index).completion with place := .activity queue.started }

def dispatchAt (queue : FileWorkQueue) (index : Nat) (stage : Stage) : FileWorkQueue :=
  let record := queue.records.get index
  let kind := record.operation.serviceClass
  let queue' := { queue.takeUp index { record with state := .waiting } true stage
      (queue.takenHistory index) with
    queued := Function.update queue.queued kind (queue.queued kind - 1)
    cursor := (index + 1) % queue.capacity
    busyServices := queue.busyServices + 1 }
  { queue' with demand := if queue.mode.isRuntime then queue.demand else queue'.demanded }

theorem selected_some {grant : Except Failure (Option CompileWorkClass)}
    (h : queue.selected grant = some index) :
    index < queue.capacity ∧ (queue.records.get index).state = .queued := by
  rw [selected] at h
  obtain ⟨turn, hturn, hindex⟩ := List.mem_map.mp (List.mem_of_find?_eq_some h)
  have hpos := Nat.lt_of_le_of_lt (Nat.zero_le _) (List.mem_range.mp hturn)
  have hmatches := List.find?_some h
  exact ⟨hindex ▸ Nat.mod_lt _ hpos, of_decide_eq_true (Bool.and_eq_true_iff.mp hmatches).1⟩

theorem dispatchOne_cases (queue : FileWorkQueue)
    (grant : Except Failure (Option CompileWorkClass)) :
    queue.dispatchOne grant = queue ∨
      ∃ index < queue.capacity, ∃ stage, (queue.records.get index).state = .queued ∧
        (stage = .claimed ∨ ∃ failure, stage = .refused failure) ∧
        queue.dispatchOne grant = queue.dispatchAt index stage := by
  unfold dispatchOne
  split
  · exact .inl rfl
  · split
    · exact .inl rfl
    · next index hfound =>
        obtain ⟨hlt, hqueued⟩ := selected_some hfound
        simp only
        rw [updateDemand_eq]
        cases grant with
        | error failure =>
            refine .inr ⟨index, hlt, .refused failure, hqueued, .inr ⟨failure, rfl⟩, ?_⟩
            exact Eq.trans (start_eq (setRecord_get : (queue.claim index).records.get index = _)) rfl
        | ok kind =>
            refine .inr ⟨index, hlt, .claimed, hqueued, .inl rfl, ?_⟩
            exact Eq.trans (start_eq (setRecord_get : (queue.claim index).records.get index = _)) rfl

theorem Placed.dispatchAt (h : queue.Placed) (hindex : index < queue.capacity)
    (hqueued : (queue.records.get index).state = .queued)
    (hfresh : queue.carrier queue.started = none) (hcompile : queue.mode.isRuntime = false)
    {stage : Stage} (hstage : stage = .claimed ∨ ∃ failure, stage = .refused failure) :
    (queue.dispatchAt index stage).Placed := by
  obtain ⟨-, -, -, -, hsubmitted⟩ := h.here_record hfresh hindex (.inr hqueued)
  have hfreshly : (queue.takenHistory index).Fresh (queue.records.get index).operation := by
    have hbefore := hsubmitted hqueued
    exact ⟨hbefore.operation, hbefore.executions, hbefore.execution, hbefore.calls,
      hbefore.results⟩
  have hafter : (queue.takeUp index { queue.records.get index with state := .waiting } true stage
      (queue.takenHistory index)).Placed := by
    rcases hstage with rfl | ⟨failure, rfl⟩
    · exact h.takeUp hindex hqueued hfresh trivial rfl rfl ⟨rfl, hfreshly⟩
    · exact h.takeUp hindex hqueued hfresh trivial rfl rfl ⟨rfl, hfreshly, hcompile⟩
  exact ⟨hafter.located, hafter.holds, hafter.carried⟩

def dispatchTask (queue : FileWorkQueue) (index : Nat) : FileWorkQueue :=
  let record := queue.records.get index
  let kind := record.operation.serviceClass
  { queue.takeUp index { record with dispatchTaken := false, state := .waiting } false .claimed
      (queue.takenHistory index) with
    queued := Function.update queue.queued kind (queue.queued kind - 1)
    cursor := (index + 1) % queue.capacity }

theorem setRecord_setRecord (first second : FileRecord) :
    (queue.setRecord index first).setRecord index second = queue.setRecord index second := by
  simp [setRecord, Store.modify, Function.update_idem]

theorem dispatch_cases (queue : FileWorkQueue) (index : Nat) :
    queue.dispatch index =
        queue.setRecord index { queue.records.get index with dispatchTaken := false } ∧
        (queue.records.get index).state ≠ .queued ∨
      (queue.records.get index).state = .queued ∧
        queue.dispatch index = queue.dispatchTask index := by
  rw [dispatch]
  simp only
  split
  · next hstate => exact .inl ⟨rfl, hstate⟩
  · next hstate =>
      refine .inr ⟨Decidable.not_not.mp hstate, ?_⟩
      have hget : (queue.setRecord index { queue.records.get index with
          dispatchTaken := false }).records.get index =
            { queue.records.get index with dispatchTaken := false } := setRecord_get
      rw [claim, hget]
      simp only
      rw [setRecord_setRecord]
      exact Eq.trans (start_eq (setRecord_get : (queue.setRecord index _).records.get index = _)) rfl

theorem Placed.dispatchTask (h : queue.Placed) (hindex : index < queue.capacity)
    (hqueued : (queue.records.get index).state = .queued)
    (hfresh : queue.carrier queue.started = none) : (queue.dispatchTask index).Placed := by
  obtain ⟨-, -, -, -, hsubmitted⟩ := h.here_record hfresh hindex (.inr hqueued)
  have hbefore := hsubmitted hqueued
  have hafter : (queue.takeUp index
      { queue.records.get index with dispatchTaken := false, state := .waiting } false .claimed
      (queue.takenHistory index)).Placed :=
    h.takeUp hindex hqueued hfresh trivial rfl rfl ⟨rfl, hbefore.operation, hbefore.executions,
      hbefore.execution, hbefore.calls, hbefore.results⟩
  exact ⟨hafter.located, hafter.holds, hafter.carried⟩

def cancelAt (queue : FileWorkQueue) (index : Nat) : FileWorkQueue :=
  let record := queue.records.get index
  let kind := record.operation.serviceClass
  { queue.takeUp index { record with state := .completing } false (.finishing (some .cancelled))
      { queue.takenHistory index with execution := .refused .cancelled } with
    queued := Function.update queue.queued kind (queue.queued kind - 1) }

theorem cancelQueued_cases (queue : FileWorkQueue) (index : Nat) :
    queue.cancelQueued index = queue ∨
      (queue.records.get index).state = .queued ∧
        queue.cancelQueued index = queue.cancelAt index := by
  rw [cancelQueued]
  simp only
  split
  · exact .inl rfl
  · next hstate =>
      refine .inr ⟨Decidable.not_not.mp hstate, ?_⟩
      refine Eq.trans
        (start_eq (setRecord_get : (queue.setRecord index _).records.get index = _)) ?_
      simp only [setHistory, Function.update_self, Function.update_idem]
      rfl

theorem Placed.cancelAt (h : queue.Placed) (hindex : index < queue.capacity)
    (hqueued : (queue.records.get index).state = .queued)
    (hfresh : queue.carrier queue.started = none) (hstopping : queue.stopping = true) :
    (queue.cancelAt index).Placed := by
  obtain ⟨-, -, -, -, hsubmitted⟩ := h.here_record hfresh hindex (.inr hqueued)
  have hbefore := hsubmitted hqueued
  have hafter : (queue.takeUp index { queue.records.get index with state := .completing } false
      (.finishing (some .cancelled))
      { queue.takenHistory index with execution := .refused .cancelled }).Placed :=
    h.takeUp hindex hqueued hfresh trivial rfl rfl ⟨rfl, hbefore.operation,
      .inl ⟨_, rfl, hbefore.executions, rfl, .inl ⟨rfl, hstopping⟩⟩, hbefore.calls, hbefore.results⟩
  exact ⟨hafter.located, hafter.holds, hafter.carried⟩

/-! A thread that is through with its record. -/

theorem conclude_eq (queue : FileWorkQueue) (id : Nat) : queue.conclude id = { queue with
    activities :=
      if (queue.activities.get id).service then
        queue.activities.modify id fun activity => { activity with stage := .leaving }
      else queue.activities.destroy id } := by
  rw [conclude]
  split
  · rfl
  · rfl

theorem conclude_elsewhere (queue : FileWorkQueue) (index id completion : Nat) :
    Elsewhere queue (queue.conclude id) index id completion := by
  rw [conclude]
  split
  · exact setStage_elsewhere _ _ _ _ _
  · exact destroy_elsewhere _ _ _ _

theorem conclude_carrier (queue : FileWorkQueue) (id : Nat) :
    (queue.conclude id).carrier id = none := by
  rw [conclude]
  split
  · apply carrier_eq_none
    intro _
    rw [setStage, Store.modify_get]
    exact fun hcarries => hcarries
  · apply carrier_eq_none
    exact fun hlive => absurd hlive (Finset.notMem_erase _ _)

theorem retireClass_elsewhere (queue : FileWorkQueue) (kind : CompileWorkClass)
    (index id completion : Nat) :
    Elsewhere queue (queue.retireClass kind) index id completion :=
  ⟨rfl, rfl, fun hstopping => hstopping, Nat.le_refl _, fun _ hlt _ => hlt, fun _ _ => rfl,
    fun _ _ => rfl, fun _ _ => rfl⟩

def retireNotifying (queue : FileWorkQueue) (id : Nat) (operation : Operation)
    (error : Option Failure) : FileWorkQueue :=
  { (queue.proceed id { queue.record id with state := .free } (.notifying operation.context error)
      (queue.history id)).retireClass operation.serviceClass with
    notifying := queue.notifying + 1 }

def retireDone (queue : FileWorkQueue) (id : Nat) (operation : Operation) : FileWorkQueue :=
  (((queue.setRecord (queue.activities.get id).index
    { queue.record id with state := .free }).retireClass operation.serviceClass).setHistory
      (queue.activities.get id).completion { queue.history id with place := .done }).conclude id

theorem retire_eq {operation : Operation} {error : Option Failure}
    (hstage : (queue.activities.get id).stage = .retiring operation error) :
    queue.retire id = if queue.mode.notifies then queue.retireNotifying id operation error
      else queue.retireDone id operation := by
  rw [retire]
  simp only [hstage]
  rw [retireNotifying, proceed_same_history]
  rfl

theorem Placed.retire (h : queue.Placed) (hlive : id ∈ queue.activities.live)
    {operation : Operation} {error : Option Failure}
    (hstage : (queue.activities.get id).stage = .retiring operation error) :
    (queue.retire id).Placed := by
  obtain ⟨howned, hplace, hcompleting, hsame, hcalled, hresults⟩ :=
    h.at_stage hlive hstage trivial
  rw [retire_eq hstage]
  split
  · next hnotifies =>
      rw [hnotifies, if_pos rfl] at hresults
      have hafter : (queue.proceed id { queue.record id with state := .free }
          (.notifying operation.context error) (queue.history id)).Placed :=
        h.proceed hlive (hstage ▸ trivial) trivial (.inr rfl) howned hplace
          ⟨⟨operation, hcalled⟩, hresults, hnotifies⟩
      exact ⟨hafter.located, hafter.holds, hafter.carried⟩
  · next hnotifies =>
      rw [if_neg hnotifies] at hresults
      have hcarrier := carrier_of_live hlive (hstage ▸ trivial)
      have howns : (queue.activities.get id).stage.Owns := hstage ▸ trivial
      have helse : Elsewhere queue (queue.retireDone id operation) (queue.activities.get id).index
          id (queue.activities.get id).completion :=
        (((setRecord_elsewhere _ _ _ _ _).trans (retireClass_elsewhere _ _ _ _ _)).trans
          (setHistory_elsewhere _ _ _ _ _)).trans (conclude_elsewhere _ _ _ _)
      have hrecord : (queue.retireDone id operation).records.get (queue.activities.get id).index =
          { queue.record id with state := .free } := by
        rw [retireDone, conclude_eq]
        exact setRecord_get
      have hhistory : (queue.retireDone id operation).histories
          (queue.activities.get id).completion = { queue.history id with place := .done } := by
        rw [retireDone, conclude_eq]
        exact setHistory_get
      apply h.gone helse (h.here_carried hcarrier howns) (conclude_carrier _ _)
      · intro _
        rw [hrecord]
      · rw [Located, hhistory]
        exact ⟨operation, error, hcalled.mono helse.mode helse.stopping, hresults⟩

theorem availableReturned_eq {context : Nat} {error : Option Failure}
    (hstage : (queue.activities.get id).stage = .notifying context error) :
    queue.availableReturned id =
      (queue.setStage id .notified).setHistory (queue.activities.get id).completion
        { queue.history id with
          results := (queue.history id).results ++ [error], place := .done } := by
  rw [availableReturned]
  simp only [hstage]
  rfl

theorem Placed.availableReturned (h : queue.Placed) (hlive : id ∈ queue.activities.live)
    {context : Nat} {error : Option Failure}
    (hstage : (queue.activities.get id).stage = .notifying context error) :
    (queue.availableReturned id).Placed := by
  have hcarrier := carrier_of_live hlive (hstage ▸ trivial)
  obtain ⟨-, hplace, -, -, htracks⟩ := h.tracked hcarrier
  rw [hstage] at htracks hcarrier
  obtain ⟨⟨operation, hcalled⟩, hresults, -⟩ := htracks
  rw [availableReturned_eq hstage]
  -- the record is somebody else's by now
  have hhere : queue.Here queue.capacity id (queue.activities.get id).completion := by
    refine ⟨fun hlt => absurd hlt (Nat.lt_irrefl _), fun custody hcustody => ?_, fun _ => ?_⟩
    · cases hcarrier.symm.trans hcustody
      rfl
    · exact .inr ⟨hplace, _, _, hcarrier, fun howns => howns.elim⟩
  have helse : Elsewhere queue ((queue.setStage id .notified).setHistory
      (queue.activities.get id).completion { queue.history id with
        results := (queue.history id).results ++ [error], place := .done }) queue.capacity id
      (queue.activities.get id).completion :=
    (setStage_elsewhere _ _ _ _ _).trans (setHistory_elsewhere _ _ _ _ _)
  apply h.gone helse hhere
  · apply carrier_eq_none
    intro _
    show ¬((queue.setStage id .notified).activities.get id).stage.Carries
    rw [setStage, Store.modify_get]
    exact fun hcarries => hcarries
  · exact fun hlt => absurd hlt (Nat.lt_irrefl _)
  · rw [Located, setHistory_get]
    refine ⟨operation, error, hcalled.mono helse.mode helse.stopping, ?_⟩
    exact congrArg (· ++ [error]) hresults

/-- A thread without a completion may change as it likes, and one with it but for its stage. -/
theorem Placed.activities (h : queue.Placed) {after : FileWorkQueue}
    (hcapacity : after.capacity = queue.capacity) (hmode : after.mode = queue.mode)
    (hstopping : queue.stopping = true → after.stopping = true)
    (hcompletions : after.completions = queue.completions)
    (hrecords : after.records = queue.records) (hhistories : after.histories = queue.histories)
    (hcarrier : ∀ other, after.carrier other = queue.carrier other) : after.Placed :=
  h.congr hcapacity hmode hstopping hcompletions (fun _ => by rw [hrecords])
    (fun _ => by rw [hrecords]) (fun _ => by rw [hrecords]) hcarrier hhistories

theorem Placed.conclude (h : queue.Placed)
    (hstage : ¬(queue.activities.get id).stage.Carries) : (queue.conclude id).Placed := by
  have hcarrier : ∀ other, (queue.conclude id).carrier other = queue.carrier other := by
    intro other
    by_cases heq : other = id
    · subst heq
      rw [conclude_carrier, carrier_eq_none fun _ => hstage]
    · exact (conclude_elsewhere queue 0 id 0).carriers other heq
  rw [conclude_eq] at hcarrier ⊢
  exact h.activities rfl rfl (fun hstopping => hstopping) rfl rfl rfl hcarrier

theorem Placed.unnotify (h : queue.Placed) (hstage : (queue.activities.get id).stage = .notified) :
    (queue.unnotify id).Placed := by
  have hafter : ({ queue with notifying := queue.notifying - 1 } : FileWorkQueue).Placed :=
    h.activities rfl rfl (fun hstopping => hstopping) rfl rfl rfl fun _ => rfl
  exact hafter.conclude (hstage ▸ fun hcarries => hcarries)

theorem Placed.leave (h : queue.Placed) (hstage : (queue.activities.get id).stage = .leaving) :
    (queue.leave id).Placed := by
  rw [FileWorkQueue.leave, updateDemand_eq]
  refine h.activities rfl rfl (fun hstopping => hstopping) rfl rfl rfl fun other => ?_
  by_cases heq : other = id
  · subst heq
    rw [@carrier_eq_none queue other fun _ => hstage ▸ fun hcarries => hcarries]
    apply carrier_eq_none
    exact fun hlive => absurd hlive (Finset.notMem_erase _ _)
  · exact (destroy_elsewhere queue 0 id 0).carriers other heq

/-- Lending a service out leaves what its thread carries. -/
theorem Placed.lend (h : queue.Placed) (busyServices : Nat) (lent : Bool) :
    ({ queue with
      busyServices := busyServices
      activities := queue.activities.modify id fun activity =>
        { activity with lent := lent } }.updateDemand).Placed := by
  rw [updateDemand_eq]
  refine h.activities rfl rfl (fun hstopping => hstopping) rfl rfl rfl fun other => ?_
  simp only [carrier]
  by_cases heq : other = id
  · subst heq
    simp only [Store.modify_get, Store.modify_live]
  · simp only [Store.modify_get_of_ne heq, Store.modify_live]

theorem Placed.cancel (h : queue.Placed) : queue.cancel.Placed := by
  rw [FileWorkQueue.cancel, updateDemand_eq]
  exact h.activities rfl rfl (fun _ => rfl) rfl rfl rfl fun _ => rfl

end FileWorkQueue

end Mmltk.Compile
