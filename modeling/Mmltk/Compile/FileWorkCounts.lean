import Mmltk.Compile.FileWorkRuns

namespace Mmltk.Compile

open Mmltk.Foundation

/-! The counters beside the records and the threads. -/

def FileRecord.held (record : FileRecord) : Nat := if record.state = .free then 0 else 1

def FileRecord.heldIn (kind : CompileWorkClass) (record : FileRecord) : Nat :=
  if record.state ≠ .free ∧ record.workClass = kind then 1 else 0

def FileRecord.queuedIn (kind : CompileWorkClass) (record : FileRecord) : Nat :=
  if record.state = .queued ∧ record.workClass = kind then 1 else 0

/-- The thread is counted in `notifying`. -/
def Stage.notifies : Stage → Nat
  | .notifying _ _ | .notified => 1
  | _ => 0

/-- The thread is a service that is at work. -/
def Activity.busy (activity : Activity) : Nat :=
  if activity.service = true ∧ activity.lent = false then 1 else 0

/-- What a queue counts about its records. -/
structure RecordsCounted (records : Store FileRecord) (capacity pending : Nat)
    (classPending queued : CompileWorkClass → Nat) : Prop where
  live : records.live = Finset.range capacity
  pending : pending = records.total FileRecord.held
  classPending : ∀ kind, classPending kind = records.total (FileRecord.heldIn kind)
  queued : ∀ kind, queued kind = records.total (FileRecord.queuedIn kind)
  classes : ∀ index < capacity, (records.get index).state ≠ .free →
    (records.get index).state ≠ .reserved →
      (records.get index).operation.serviceClass = (records.get index).workClass

namespace RecordsCounted

variable {records : Store FileRecord} {capacity pending index : Nat}
  {classPending queued : CompileWorkClass → Nat}

theorem bounds (h : RecordsCounted records capacity pending classPending queued)
    (hindex : index < capacity) : (records.get index).held ≤ pending ∧
      (∀ kind, (records.get index).heldIn kind ≤ classPending kind) ∧
      ∀ kind, (records.get index).queuedIn kind ≤ queued kind := by
  have hlive : index ∈ records.live := h.live ▸ Finset.mem_range.mpr hindex
  refine ⟨?_, fun kind => ?_, fun kind => ?_⟩
  · rw [h.pending]
    exact Store.le_total _ hlive
  · rw [h.classPending]
    exact Store.le_total _ hlive
  · rw [h.queued]
    exact Store.le_total _ hlive

/-- One record changes, and the counters with it. -/
theorem modify (h : RecordsCounted records capacity pending classPending queued)
    (hindex : index < capacity) {record : FileRecord} {pending' : Nat}
    {classPending' queued' : CompileWorkClass → Nat}
    (hpending : pending' + (records.get index).held = pending + record.held)
    (hclassPending : ∀ kind,
      classPending' kind + (records.get index).heldIn kind = classPending kind + record.heldIn kind)
    (hqueued : ∀ kind,
      queued' kind + (records.get index).queuedIn kind = queued kind + record.queuedIn kind)
    (hclass : record.state ≠ .free → record.state ≠ .reserved →
      record.operation.serviceClass = record.workClass) :
    RecordsCounted (records.modify index fun _ => record) capacity pending' classPending'
      queued' := by
  have hlive : index ∈ records.live := h.live ▸ Finset.mem_range.mpr hindex
  refine ⟨h.live, ?_, fun kind => ?_, fun kind => ?_, fun other hother => ?_⟩
  · have htotal := Store.total_modify FileRecord.held (fun _ => record) hlive
    rw [← h.pending] at htotal
    omega
  · have htotal := Store.total_modify (FileRecord.heldIn kind) (fun _ => record) hlive
    have hkind := hclassPending kind
    rw [← h.classPending] at htotal
    omega
  · have htotal := Store.total_modify (FileRecord.queuedIn kind) (fun _ => record) hlive
    have hkind := hqueued kind
    rw [← h.queued] at htotal
    omega
  · by_cases heq : other = index
    · rw [heq, Store.modify_get]
      exact hclass
    · rw [Store.modify_get_of_ne heq]
      exact h.classes other hother

end RecordsCounted

/-- What a queue counts about its threads. -/
structure ThreadsCounted (activities : Store Activity) (started notifying busyServices : Nat) :
    Prop where
  fresh : ∀ id ∈ activities.live, id < started
  notifying : notifying = activities.total fun activity => activity.stage.notifies
  busyServices : busyServices = activities.total Activity.busy
  /-- A service is lent only from a callback, and leaves as one. -/
  lent : ∀ id ∈ activities.live, (activities.get id).lent = true →
    (activities.get id).service = true ∧
      ∃ operation error, (activities.get id).stage = .calling operation error
  leaving : ∀ id ∈ activities.live, (activities.get id).stage = .leaving →
    (activities.get id).service = true

namespace ThreadsCounted

variable {activities : Store Activity} {started notifying busyServices id : Nat}

theorem construct (h : ThreadsCounted activities started notifying busyServices)
    {activity : Activity} (hlent : activity.lent = false) (hstage : activity.stage.Owns) :
    ThreadsCounted (activities.construct started activity) (started + 1) notifying
      (busyServices + activity.busy) := by
  have hnew : started ∉ activities.live := fun hlive => Nat.lt_irrefl _ (h.fresh _ hlive)
  have hmember : ∀ id ∈ (activities.construct started activity).live,
      id = started ∨ id ≠ started ∧ id ∈ activities.live := by
    intro id hlive
    rcases Finset.mem_insert.mp hlive with heq | hbefore
    · exact .inl heq
    · exact .inr ⟨fun heq => hnew (heq ▸ hbefore), hbefore⟩
  refine ⟨fun id hlive => ?_, ?_, ?_, fun id hlive => ?_, fun id hlive => ?_⟩
  · rcases hmember id hlive with rfl | ⟨-, hbefore⟩
    · exact Nat.lt_succ_self _
    · exact Nat.lt_succ_of_lt (h.fresh id hbefore)
  · rw [Store.total_construct _ _ hnew, ← h.notifying]
    cases hcase : activity.stage with
    | notifying context error => exact absurd hstage (hcase ▸ fun howns => howns)
    | notified => exact absurd hstage (hcase ▸ fun howns => howns)
    | _ => rfl
  · rw [Store.total_construct _ _ hnew, ← h.busyServices]
  · rcases hmember id hlive with rfl | ⟨hne, hbefore⟩
    · rw [Store.construct_get]
      exact fun htrue => absurd (hlent.symm.trans htrue) nofun
    · rw [Store.construct_get_of_ne hne]
      exact h.lent id hbefore
  · rcases hmember id hlive with rfl | ⟨hne, hbefore⟩
    · rw [Store.construct_get]
      exact fun hleaving => absurd hstage (hleaving ▸ fun howns => howns)
    · rw [Store.construct_get_of_ne hne]
      exact h.leaving id hbefore

/-- One thread changes, and the counters with it. -/
theorem modify (h : ThreadsCounted activities started notifying busyServices)
    (hlive : id ∈ activities.live) {change : Activity → Activity} {notifying' busyServices' : Nat}
    (hnotifying : notifying' + (activities.get id).stage.notifies =
      notifying + (change (activities.get id)).stage.notifies)
    (hbusy : busyServices' + (activities.get id).busy =
      busyServices + (change (activities.get id)).busy)
    (hlent : (change (activities.get id)).lent = true →
      (change (activities.get id)).service = true ∧
        ∃ operation error, (change (activities.get id)).stage = .calling operation error)
    (hleaving : (change (activities.get id)).stage = .leaving →
      (change (activities.get id)).service = true) :
    ThreadsCounted (activities.modify id change) started notifying' busyServices' := by
  refine ⟨h.fresh, ?_, ?_, fun other hother => ?_, fun other hother => ?_⟩
  · have htotal := Store.total_modify (fun activity => activity.stage.notifies) change hlive
    rw [← h.notifying] at htotal
    omega
  · have htotal := Store.total_modify Activity.busy change hlive
    rw [← h.busyServices] at htotal
    omega
  · by_cases heq : other = id
    · rw [heq, Store.modify_get]
      exact hlent
    · rw [Store.modify_get_of_ne heq]
      exact h.lent other hother
  · by_cases heq : other = id
    · rw [heq, Store.modify_get]
      exact hleaving
    · rw [Store.modify_get_of_ne heq]
      exact h.leaving other hother

/-- A thread goes on to a stage that is counted as the last one was. -/
theorem setStage (h : ThreadsCounted activities started notifying busyServices)
    (hlive : id ∈ activities.live) (hlent : (activities.get id).lent = false) {stage : Stage}
    (hnotifies : (activities.get id).stage.notifies = stage.notifies)
    (hleaving : stage = .leaving → (activities.get id).service = true) :
    ThreadsCounted (activities.modify id fun activity => { activity with stage := stage }) started
      notifying busyServices :=
  h.modify hlive (congrArg (notifying + ·) hnotifies) rfl
    (fun htrue => absurd (hlent.symm.trans htrue) nofun) hleaving

theorem destroy (h : ThreadsCounted activities started notifying busyServices)
    (hlive : id ∈ activities.live) {notifying' busyServices' : Nat}
    (hnotifying : notifying' + (activities.get id).stage.notifies = notifying)
    (hbusy : busyServices' + (activities.get id).busy = busyServices) :
    ThreadsCounted (activities.destroy id) started notifying' busyServices' := by
  refine ⟨fun other hother => h.fresh other (Finset.mem_of_mem_erase hother), ?_, ?_,
    fun other hother => h.lent other (Finset.mem_of_mem_erase hother),
    fun other hother => h.leaving other (Finset.mem_of_mem_erase hother)⟩
  · have htotal := Store.total_destroy (fun activity => activity.stage.notifies) hlive
    rw [← h.notifying] at htotal
    omega
  · have htotal := Store.total_destroy Activity.busy hlive
    rw [← h.busyServices] at htotal
    omega

end ThreadsCounted

theorem Stage.Owns.notifies {stage : Stage} (h : stage.Owns) : stage.notifies = 0 := by
  cases stage with
  | notifying context error => exact h.elim
  | notified => exact h.elim
  | _ => rfl

namespace FileWorkQueue

variable {queue : FileWorkQueue} {index id : Nat}

/-- A queued record of a pool's queue is owed a dispatch, which finds its owner. -/
structure Task (queue : FileWorkQueue) (record : FileRecord) : Prop where
  owner : record.dispatchQueued = true →
    record.dispatchOwner = true ∧ record.dispatchTaken = false
  owed : queue.mode.isRuntime = true → record.state = .queued →
    record.dispatchQueued = true ∨ record.dispatchTaken = true
  late : record.dispatchQueued = true ∨ record.dispatchTaken = true →
    queue.mode.isRuntime = true ∧ (record.state = .queued ∨ queue.stopping = true)

structure Counted (queue : FileWorkQueue) : Prop where
  records : RecordsCounted queue.records queue.capacity queue.pending queue.classPending
    queue.queued
  threads : ThreadsCounted queue.activities queue.started queue.notifying queue.busyServices
  producers : ∀ kind, queue.producers kind = true ↔
    queue.mode.isRuntime = false ∧ 0 < queue.classPending kind
  demand : queue.mode.isRuntime = false → queue.shutdown = false → queue.demand = queue.demanded
  tasks : ∀ index < queue.capacity, queue.Task (queue.records.get index)

theorem Task.congr {after : FileWorkQueue} {record : FileRecord} (h : queue.Task record)
    (hmode : after.mode = queue.mode) (hstopping : queue.stopping = true → after.stopping = true) :
    after.Task record :=
  ⟨h.owner, fun hruntime => h.owed (hmode ▸ hruntime), fun hdue =>
    ⟨hmode ▸ (h.late hdue).1, (h.late hdue).2.imp_right hstopping⟩⟩

theorem Counted.setTasks (h : queue.Counted) {record : FileRecord}
    (htask : queue.Task record) : ∀ other < queue.capacity,
      queue.Task ((queue.setRecord index record).records.get other) := by
  intro other hother
  by_cases heq : other = index
  · rw [heq, setRecord_get]
    exact htask
  · rw [(setRecord_elsewhere queue index 0 0 record).records other heq]
    exact h.tasks other hother

theorem Busy.counted (record : FileRecord) (h : Busy record.state) :
    record.held = 1 ∧ (∀ kind, record.heldIn kind = if record.workClass = kind then 1 else 0) ∧
      ∀ kind, record.queuedIn kind = 0 := by
  obtain ⟨hheld, hwaits⟩ := h.not_waiting
  refine ⟨if_neg hheld, fun kind => ?_, fun kind => if_neg fun hqueued => hwaits (.inr hqueued.1)⟩
  rw [FileRecord.heldIn]
  simp only [hheld, ne_eq, not_false_eq_true, true_and]

/-- A task that is not queued any more was due only to a stopped queue. -/
theorem Task.state {record record' : FileRecord} (h : queue.Task record)
    (hstate : record.state ≠ .queued) (hstate' : record'.state ≠ .queued)
    (howner : record'.dispatchOwner = record.dispatchOwner)
    (hqueued : record'.dispatchQueued = record.dispatchQueued)
    (htaken : record'.dispatchTaken = record.dispatchTaken) : queue.Task record' := by
  refine ⟨?_, fun _ hafter => absurd hafter hstate', ?_⟩
  · rw [howner, hqueued, htaken]
    exact h.owner
  · rw [hqueued, htaken]
    exact fun hdue => ⟨(h.late hdue).1, .inr ((h.late hdue).2.resolve_left hstate)⟩

theorem Busy.not_queued {state : RecordState} (h : Busy state) : state ≠ .queued :=
  fun hqueued => h.not_waiting.2 (.inr hqueued)

/-- A thread that keeps its record changes no counter. -/
theorem Counted.proceed (h : queue.Counted)
    (hindex : (queue.activities.get id).index < queue.capacity)
    (hlive : id ∈ queue.activities.live) (howns : (queue.activities.get id).stage.Owns)
    (hlent : (queue.activities.get id).lent = false) (hbusy : Busy (queue.record id).state)
    (state : RecordState) {stage : Stage} {history : History} (hbusy' : Busy state)
    (howns' : stage.Owns) :
    (queue.proceed id { queue.record id with state := state } stage history).Counted where
  records := by
    obtain ⟨hheld, hkind, hqueued⟩ := Busy.counted _ hbusy
    obtain ⟨hheld', hkind', hqueued'⟩ :=
      Busy.counted { queue.record id with state := state } hbusy'
    apply h.records.modify hindex
    · rw [hheld']
      exact congrArg (queue.pending + ·) hheld
    · intro kind
      rw [hkind']
      exact congrArg (queue.classPending kind + ·) (hkind kind)
    · intro kind
      rw [hqueued']
      exact congrArg (queue.queued kind + ·) (hqueued kind)
    · intro _ _
      have hstates := hbusy.not_waiting
      exact h.records.classes _ hindex hstates.1 fun hreserved => hstates.2 (.inl hreserved)
  threads := h.threads.setStage hlive hlent (howns.notifies.trans howns'.notifies.symm)
    fun hleaving => (hleaving ▸ howns').elim
  producers := h.producers
  demand := h.demand
  tasks other hother := by
    have htask : queue.Task { queue.record id with state := state } :=
      (h.tasks _ hindex).state hbusy.not_queued hbusy'.not_queued rfl rfl rfl
    exact (h.setTasks htask other hother).congr rfl fun hstopping => hstopping

/-! What one record is counted as. -/

theorem heldIn_of {record : FileRecord} (h : record.state ≠ .free) (kind : CompileWorkClass) :
    record.heldIn kind = if record.workClass = kind then 1 else 0 := by
  rw [FileRecord.heldIn]
  simp only [h, ne_eq, not_false_eq_true, true_and]

theorem heldIn_free {record : FileRecord} (h : record.state = .free) (kind : CompileWorkClass) :
    record.heldIn kind = 0 := if_neg fun hheld => hheld.1 h

theorem queuedIn_of {record : FileRecord} (h : record.state = .queued) (kind : CompileWorkClass) :
    record.queuedIn kind = if record.workClass = kind then 1 else 0 := by
  rw [FileRecord.queuedIn]
  simp only [h, true_and]

theorem queuedIn_not {record : FileRecord} (h : record.state ≠ .queued) (kind : CompileWorkClass) :
    record.queuedIn kind = 0 := if_neg fun hqueued => h hqueued.1

theorem update_succ (counts : CompileWorkClass → Nat) (kind other : CompileWorkClass) :
    Function.update counts kind (counts kind + 1) other =
      counts other + if kind = other then 1 else 0 := by
  by_cases heq : kind = other
  · subst heq
    rw [Function.update_self, if_pos rfl]
  · rw [Function.update_of_ne (Ne.symm heq), if_neg heq, Nat.add_zero]

theorem update_pred {counts : CompileWorkClass → Nat} {kind : CompileWorkClass}
    (h : 0 < counts kind) (other : CompileWorkClass) :
    Function.update counts kind (counts kind - 1) other + (if kind = other then 1 else 0) =
      counts other := by
  by_cases heq : kind = other
  · subst heq
    rw [Function.update_self, if_pos rfl]
    omega
  · rw [Function.update_of_ne (Ne.symm heq), if_neg heq, Nat.add_zero]

/-! The other steps. -/

theorem Counted.setRecord (h : queue.Counted) (hindex : index < queue.capacity)
    {record : FileRecord} (hstate : record.state = (queue.records.get index).state)
    (hclass : record.workClass = (queue.records.get index).workClass)
    (hoperation : record.operation = (queue.records.get index).operation)
    (htask : queue.Task record) : (queue.setRecord index record).Counted where
  records := by
    apply h.records.modify hindex
    · rw [FileRecord.held, FileRecord.held, hstate]
      rfl
    · intro kind
      rw [FileRecord.heldIn, FileRecord.heldIn, hstate, hclass]
      rfl
    · intro kind
      rw [FileRecord.queuedIn, FileRecord.queuedIn, hstate, hclass]
      rfl
    · rw [hstate, hclass, hoperation]
      exact h.records.classes index hindex
  threads := h.threads
  producers := h.producers
  demand := h.demand
  tasks other hother := (h.setTasks htask other hother).congr rfl fun hstopping => hstopping

theorem reserveAt_producers (h : queue.Counted) (kind other : CompileWorkClass) :
    (queue.reserveAt index kind).producers other = true ↔
      queue.mode.isRuntime = false ∧ 0 < (queue.reserveAt index kind).classPending other := by
  have hbefore := h.producers other
  have hpending : (queue.reserveAt index kind).classPending other =
      queue.classPending other + if kind = other then 1 else 0 := update_succ _ _ _
  have hproducers : (queue.reserveAt index kind).producers =
      if queue.classPending kind = 0 ∧ queue.mode.isRuntime = false then
        Function.update queue.producers kind true else queue.producers := by
    simp only [FileWorkQueue.reserveAt, Bool.and_eq_true, decide_eq_true_eq, Bool.not_eq_true']
  rw [hpending, hproducers]
  by_cases heq : kind = other
  · subst heq
    rw [if_pos rfl]
    split
    · next hopens =>
        rw [Function.update_self]
        exact iff_of_true rfl ⟨hopens.2, Nat.succ_pos _⟩
    · next hopens =>
        rw [hbefore]
        refine ⟨fun hheld => ⟨hheld.1, Nat.succ_pos _⟩, fun hheld => ⟨hheld.1, ?_⟩⟩
        exact Nat.pos_of_ne_zero fun hzero => hopens ⟨hzero, hheld.1⟩
  · rw [if_neg heq, Nat.add_zero, ← hbefore]
    split
    · rw [Function.update_of_ne (Ne.symm heq)]
    · rfl

theorem retireClass_producers (h : queue.Counted) (kind other : CompileWorkClass) :
    (queue.retireClass kind).producers other = true ↔
      queue.mode.isRuntime = false ∧ 0 < (queue.retireClass kind).classPending other := by
  have hbefore := h.producers other
  have hproducers : (queue.retireClass kind).producers =
      if queue.classPending kind - 1 = 0 then Function.update queue.producers kind false
      else queue.producers := rfl
  have hpending : (queue.retireClass kind).classPending =
      Function.update queue.classPending kind (queue.classPending kind - 1) := rfl
  rw [hpending, hproducers]
  by_cases heq : other = kind
  · subst heq
    rw [Function.update_self]
    split
    · next hlast =>
        rw [Function.update_self, hlast]
        exact iff_of_false nofun fun hheld => Nat.lt_irrefl _ hheld.2
    · next hmore =>
        rw [hbefore]
        exact and_congr_right fun _ => by omega
  · rw [Function.update_of_ne heq, ← hbefore]
    split
    · rw [Function.update_of_ne heq]
    · rfl

theorem Counted.reserveAt (h : queue.Counted) (hindex : index < queue.capacity)
    (hfree : (queue.records.get index).state = .free) (kind : CompileWorkClass) :
    (queue.reserveAt index kind).Counted := by
  have hnot : (queue.records.get index).state ≠ .queued := fun hqueued =>
    absurd (hfree.symm.trans hqueued) nofun
  refine ⟨?_, h.threads, reserveAt_producers h kind, h.demand, fun other hother => ?_⟩
  · apply h.records.modify hindex
    · rw [FileRecord.held, if_pos hfree]
      rfl
    · intro other
      have hafter : FileRecord.heldIn other { queue.records.get index with
          completion := queue.completions, workClass := kind, state := .reserved } =
            if kind = other then 1 else 0 := heldIn_of (by nofun) other
      rw [heldIn_free hfree, hafter]
      exact update_succ _ _ _
    · intro other
      rw [queuedIn_not hnot]
      rfl
    · exact fun _ hreserved => absurd rfl hreserved
  · have htask : queue.Task { queue.records.get index with
        completion := queue.completions, workClass := kind, state := .reserved } :=
      (h.tasks index hindex).state hnot nofun rfl rfl rfl
    exact (h.setTasks htask other hother).congr rfl fun hstopping => hstopping

/-- A record that is freed, and the counters with it. -/
theorem Counted.freed (h : queue.Counted) (hindex : index < queue.capacity)
    (hheld : (queue.records.get index).state ≠ .free)
    (hnot : (queue.records.get index).state ≠ .queued) {kind : CompileWorkClass}
    (hkind : (queue.records.get index).workClass = kind) :
    ((queue.setRecord index { queue.records.get index with state := .free }).retireClass
      kind).Counted := by
  obtain ⟨hpending, hclass, -⟩ := h.records.bounds hindex
  have hone : (queue.records.get index).held = 1 := if_neg hheld
  have hpos : 0 < queue.classPending kind := by
    have hle := hclass kind
    rwa [heldIn_of hheld, if_pos hkind] at hle
  refine ⟨?_, h.threads, retireClass_producers h kind, h.demand, fun other hother => ?_⟩
  · apply h.records.modify hindex
    · rw [hone] at hpending ⊢
      exact Nat.sub_add_cancel hpending
    · intro other
      rw [heldIn_of hheld, heldIn_free rfl, hkind]
      exact update_pred hpos other
    · intro other
      rw [queuedIn_not hnot]
      rfl
    · exact fun hfree => absurd rfl hfree
  · have htask : queue.Task { queue.records.get index with state := .free } :=
      (h.tasks index hindex).state hnot nofun rfl rfl rfl
    exact (h.setTasks htask other hother).congr rfl fun hstopping => hstopping

theorem Counted.releaseAt (h : queue.Counted) (hindex : index < queue.capacity)
    (hreserved : (queue.records.get index).state = .reserved) : (queue.releaseAt index).Counted := by
  have hafter := h.freed hindex (fun hfree => absurd (hfree.symm.trans hreserved) nofun)
    (fun hqueued => absurd (hqueued.symm.trans hreserved) nofun) rfl
  exact ⟨hafter.records, hafter.threads, hafter.producers, hafter.demand,
    fun other hother => (hafter.tasks other hother).congr rfl fun hstopping => hstopping⟩

theorem updateDemand_demand (h : queue.mode.isRuntime = false) :
    queue.updateDemand.demand = queue.updateDemand.demanded := by
  rw [updateDemand_eq]
  simp only [h, Bool.false_eq_true, if_false]
  rfl

/-- A record that is not queued, of a queue that runs, is not due for a dispatch. -/
theorem Task.idle {record : FileRecord} (h : queue.Task record) (hnot : record.state ≠ .queued)
    (hrunning : queue.stopping = false) :
    record.dispatchQueued = false ∧ record.dispatchTaken = false := by
  have hnone : ¬(record.dispatchQueued = true ∨ record.dispatchTaken = true) := by
    intro hdue
    rcases (h.late hdue).2 with hqueued | hstopping
    · exact hnot hqueued
    · exact absurd (hrunning.symm.trans hstopping) nofun
  obtain ⟨hqueued, htaken⟩ := not_or.mp hnone
  exact ⟨Bool.eq_false_of_not_eq_true hqueued, Bool.eq_false_of_not_eq_true htaken⟩

theorem Counted.submitAt (h : queue.Counted) (hindex : index < queue.capacity)
    (hreserved : (queue.records.get index).state = .reserved) (hrunning : queue.stopping = false)
    {operation : Operation}
    (hclass : operation.serviceClass = (queue.records.get index).workClass) :
    (queue.submitAt index operation).Counted := by
  have hnot : (queue.records.get index).state ≠ .queued := fun hqueued =>
    absurd (hqueued.symm.trans hreserved) nofun
  have hheld : (queue.records.get index).state ≠ .free := fun hfree =>
    absurd (hfree.symm.trans hreserved) nofun
  obtain ⟨hidle, huntaken⟩ := (h.tasks index hindex).idle hnot hrunning
  have hkind : ∀ other, (queue.submitted index operation).heldIn other =
      if (queue.records.get index).workClass = other then 1 else 0 := heldIn_of (by nofun)
  have hqueued : ∀ other, (queue.submitted index operation).queuedIn other =
      if (queue.records.get index).workClass = other then 1 else 0 := queuedIn_of rfl
  have hrecords : RecordsCounted
      (queue.records.modify index fun _ => queue.submitted index operation)
      queue.capacity queue.pending queue.classPending
      (Function.update queue.queued (queue.records.get index).workClass
        (queue.queued (queue.records.get index).workClass + 1)) := by
    apply h.records.modify hindex
    · rw [FileRecord.held, if_neg hheld]
      rfl
    · intro other
      rw [heldIn_of hheld, hkind]
    · intro other
      rw [queuedIn_not hnot, hqueued]
      exact update_succ _ _ _
    · exact fun _ _ => hclass
  have htask : queue.Task (queue.submitted index operation) := by
    refine ⟨fun hdue => ⟨?_, huntaken⟩, fun hruntime _ => .inl ?_, fun hdue => ⟨?_, .inl rfl⟩⟩
    · simp only [submitted, hidle, Bool.false_or] at hdue
      simp only [submitted, hdue, Bool.or_true]
    · simp only [submitted, hruntime, Bool.or_true]
    · simpa only [submitted, hidle, huntaken, Bool.false_or, Bool.false_eq_true, or_false]
        using hdue
  have hdemand := @updateDemand_demand
    { (queue.setRecord index (queue.submitted index operation)).setHistory
        (queue.records.get index).completion
        { queue.histories (queue.records.get index).completion with
          operation := some operation } with
      queued := Function.update queue.queued (queue.records.get index).workClass
        (queue.queued (queue.records.get index).workClass + 1) }
  rw [FileWorkQueue.submitAt]
  simp only
  rw [updateDemand_eq] at hdemand ⊢
  exact ⟨hrecords, h.threads, h.producers, fun hcompile _ => hdemand hcompile,
    fun other hother => (h.setTasks htask other hother).congr rfl fun hstopping => hstopping⟩

/-- A queued record that is taken up is no longer counted as queued. -/
theorem Counted.taken (h : queue.Counted) (hindex : index < queue.capacity)
    (hqueued : (queue.records.get index).state = .queued) {state : RecordState}
    (hbusy : Busy state) (dispatchTaken : Bool) :
    RecordsCounted
      (queue.records.modify index fun _ => { queue.records.get index with
        dispatchTaken := dispatchTaken, state := state })
      queue.capacity queue.pending queue.classPending
      (Function.update queue.queued (queue.records.get index).operation.serviceClass
        (queue.queued (queue.records.get index).operation.serviceClass - 1)) := by
  have hheld : (queue.records.get index).state ≠ .free := fun hfree =>
    absurd (hfree.symm.trans hqueued) nofun
  have hclass := h.records.classes index hindex hheld fun hreserved =>
    absurd (hreserved.symm.trans hqueued) nofun
  obtain ⟨hone, hkind, hnone⟩ := Busy.counted { queue.records.get index with
    dispatchTaken := dispatchTaken, state := state } hbusy
  have hpos : 0 < queue.queued (queue.records.get index).workClass := by
    have hle := (h.records.bounds hindex).2.2 (queue.records.get index).workClass
    rwa [queuedIn_of hqueued, if_pos rfl] at hle
  rw [hclass]
  apply h.records.modify hindex
  · rw [hone, FileRecord.held, if_neg hheld]
  · intro other
    rw [hkind, heldIn_of hheld]
  · intro other
    rw [hnone, queuedIn_of hqueued]
    exact update_pred hpos other
  · exact fun _ _ => hclass

theorem Counted.dispatchAt (h : queue.Counted) (hindex : index < queue.capacity)
    (hqueued : (queue.records.get index).state = .queued) (hcompile : queue.mode.isRuntime = false)
    {stage : Stage} (howns : stage.Owns) : (queue.dispatchAt index stage).Counted := by
  have hrecords := h.taken hindex hqueued (.inl rfl) (queue.records.get index).dispatchTaken
  have hthreads : ThreadsCounted (queue.activities.construct queue.started
      ⟨index, (queue.records.get index).completion, true, false, stage⟩) (queue.started + 1)
        queue.notifying (queue.busyServices + 1) := h.threads.construct rfl howns
  refine ⟨hrecords, hthreads, h.producers, fun _ _ => ?_, fun other hother => ?_⟩
  · simp only [FileWorkQueue.dispatchAt, hcompile, Bool.false_eq_true, if_false]
    rfl
  · have hbefore := h.tasks index hindex
    have htask : queue.Task { queue.records.get index with state := .waiting } := by
      refine ⟨hbefore.owner, fun hruntime => ?_, fun hdue => ?_⟩
      · exact absurd (hcompile.symm.trans hruntime) nofun
      · exact absurd (hcompile.symm.trans (hbefore.late hdue).1) nofun
    exact (h.setTasks htask other hother).congr rfl fun hstopping => hstopping

theorem Counted.dispatchTask (h : queue.Counted) (hindex : index < queue.capacity)
    (hqueued : (queue.records.get index).state = .queued)
    (htaken : (queue.records.get index).dispatchTaken = true) :
    (queue.dispatchTask index).Counted := by
  have hrecords := h.taken hindex hqueued (.inl rfl) false
  have hthreads : ThreadsCounted (queue.activities.construct queue.started
      ⟨index, (queue.records.get index).completion, false, false, .claimed⟩) (queue.started + 1)
        queue.notifying queue.busyServices := h.threads.construct rfl trivial
  have hbefore := h.tasks index hindex
  have hruntime := (hbefore.late (.inr htaken)).1
  refine ⟨hrecords, hthreads, h.producers, fun hcompile => ?_, fun other hother => ?_⟩
  · exact absurd (hcompile.symm.trans hruntime) nofun
  · have htask : queue.Task { queue.records.get index with
        dispatchTaken := false, state := .waiting } := by
      refine ⟨fun hdue => ⟨(hbefore.owner hdue).1, rfl⟩, fun _ hstate => (nomatch hstate),
        fun hdue => ?_⟩
      have hdue := hdue.resolve_right nofun
      exact absurd ((hbefore.owner hdue).2.symm.trans htaken) nofun
    exact (h.setTasks htask other hother).congr rfl fun hstopping => hstopping

theorem demanded_stopped (h : queue.stopping = true) : queue.demanded = fun _ => false := by
  funext kind
  simp only [demanded, h, Bool.not_true, Bool.false_and]

theorem Counted.cancelAt (h : queue.Counted) (hindex : index < queue.capacity)
    (hqueued : (queue.records.get index).state = .queued) (hstopping : queue.stopping = true) :
    (queue.cancelAt index).Counted := by
  have hrecords := h.taken hindex hqueued (.inr (.inr rfl))
    (queue.records.get index).dispatchTaken
  have hthreads : ThreadsCounted (queue.activities.construct queue.started
      ⟨index, (queue.records.get index).completion, false, false,
        .finishing (some .cancelled)⟩) (queue.started + 1) queue.notifying queue.busyServices :=
    h.threads.construct rfl trivial
  refine ⟨hrecords, hthreads, h.producers, fun hcompile hrunning => ?_, fun other hother => ?_⟩
  · have hafter : (queue.cancelAt index).demanded = fun _ => false := demanded_stopped hstopping
    rw [hafter]
    exact (h.demand hcompile hrunning).trans (demanded_stopped hstopping)
  · have hbefore := h.tasks index hindex
    have htask : queue.Task { queue.records.get index with state := .completing } := by
      refine ⟨hbefore.owner, fun _ hstate => (nomatch hstate), fun hdue => ?_⟩
      exact ⟨(hbefore.late hdue).1, .inr hstopping⟩
    exact (h.setTasks htask other hother).congr rfl fun hstopping => hstopping

/-- What the counters read of a queue has not changed but for its threads. -/
theorem Counted.threaded (h : queue.Counted) {activities : Store Activity}
    {notifying : Nat} (hthreads : ThreadsCounted activities queue.started notifying
      queue.busyServices) :
    ({ queue with activities := activities, notifying := notifying } : FileWorkQueue).Counted :=
  ⟨h.records, hthreads, h.producers, h.demand,
    fun index hindex => (h.tasks index hindex).congr rfl fun hstopping => hstopping⟩

theorem Counted.setHistory (h : queue.Counted) (completion : Nat) (history : History) :
    (queue.setHistory completion history).Counted :=
  ⟨h.records, h.threads, h.producers, h.demand,
    fun index hindex => (h.tasks index hindex).congr rfl fun hstopping => hstopping⟩

theorem Counted.not_lent (h : queue.Counted) (hlive : id ∈ queue.activities.live)
    (hstage : ∀ operation error, (queue.activities.get id).stage ≠ .calling operation error) :
    (queue.activities.get id).lent = false := by
  by_contra htrue
  obtain ⟨-, operation, error, hcalling⟩ :=
    h.threads.lent id hlive (Bool.eq_true_of_not_eq_false htrue)
  exact hstage operation error hcalling

theorem Counted.availableReturned (h : queue.Counted) (hlive : id ∈ queue.activities.live)
    {context : Nat} {error : Option Failure}
    (hstage : (queue.activities.get id).stage = .notifying context error) :
    (queue.availableReturned id).Counted := by
  have hlent := h.not_lent hlive fun _ _ hcalling => absurd (hstage.symm.trans hcalling) nofun
  have hnotifies : (queue.activities.get id).stage.notifies = Stage.notified.notifies := by
    rw [hstage]
    rfl
  rw [availableReturned_eq hstage]
  exact (h.threaded (h.threads.setStage hlive hlent hnotifies nofun)).setHistory _ _

/-- A thread that is through, with the count of the readiness callbacks it was part of. -/
theorem Counted.conclude (h : queue.Counted) (hlive : id ∈ queue.activities.live)
    (hstage : ∀ operation error, (queue.activities.get id).stage ≠ .calling operation error)
    {notifying : Nat}
    (hnotifying : notifying + (queue.activities.get id).stage.notifies = queue.notifying) :
    ({ queue with notifying := notifying }.conclude id).Counted := by
  have hlent := h.not_lent hlive hstage
  rw [FileWorkQueue.conclude]
  by_cases hservice : (queue.activities.get id).service = true
  · rw [if_pos hservice]
    refine h.threaded (h.threads.modify hlive hnotifying rfl ?_ fun _ => hservice)
    exact fun htrue => by cases hlent.symm.trans htrue
  · rw [if_neg hservice]
    have hbusy : (queue.activities.get id).busy = 0 := if_neg fun hworks => hservice hworks.1
    exact h.threaded (h.threads.destroy hlive hnotifying (congrArg (queue.busyServices + ·) hbusy))

theorem Counted.unnotify (h : queue.Counted) (hlive : id ∈ queue.activities.live)
    (hstage : (queue.activities.get id).stage = .notified) : (queue.unnotify id).Counted := by
  have hone : (queue.activities.get id).stage.notifies = 1 := by
    rw [hstage]
    rfl
  have hle := Store.le_total (fun activity : Activity => activity.stage.notifies) hlive
  rw [← h.threads.notifying, hone] at hle
  refine h.conclude hlive (fun _ _ hcalling => absurd (hstage.symm.trans hcalling) nofun) ?_
  rw [hone]
  exact Nat.sub_add_cancel hle

theorem Counted.retire (h : queue.Counted)
    (hindex : (queue.activities.get id).index < queue.capacity)
    (hlive : id ∈ queue.activities.live) {operation : Operation} {error : Option Failure}
    (hstage : (queue.activities.get id).stage = .retiring operation error)
    (hcompleting : (queue.record id).state = .completing)
    (hoperation : operation = (queue.record id).operation) : (queue.retire id).Counted := by
  have hheld : (queue.record id).state ≠ .free := fun hfree =>
    absurd (hfree.symm.trans hcompleting) nofun
  have hclass := h.records.classes _ hindex hheld fun hreserved =>
    absurd (hreserved.symm.trans hcompleting) nofun
  have hkind : (queue.record id).workClass = operation.serviceClass := by
    rw [hoperation]
    exact hclass.symm
  have hfreed := h.freed hindex hheld (fun hqueued => absurd (hqueued.symm.trans hcompleting) nofun)
    hkind
  have hcalling : ∀ operation error,
      (queue.activities.get id).stage ≠ .calling operation error := fun _ _ hcalling =>
    absurd (hstage.symm.trans hcalling) nofun
  have hnone : (queue.activities.get id).stage.notifies = 0 := by
    rw [hstage]
    rfl
  rw [retire_eq hstage]
  split
  · have hlent := h.not_lent hlive hcalling
    have hthreads : ThreadsCounted (queue.activities.modify id fun activity =>
        { activity with stage := .notifying operation.context error }) queue.started
          (queue.notifying + 1) queue.busyServices := by
      apply h.threads.modify hlive
      · exact congrArg (queue.notifying + 1 + ·) hnone
      · rfl
      · exact fun htrue => absurd (hlent.symm.trans htrue) nofun
      · exact fun hleaving => nomatch hleaving
    have hafter := hfreed.threaded hthreads
    rw [retireNotifying, proceed_same_history]
    exact ⟨hafter.records, hafter.threads, hafter.producers, hafter.demand,
      fun index hindex => (hafter.tasks index hindex).congr rfl fun hstopping => hstopping⟩
  · have hsettled := hfreed.setHistory (queue.activities.get id).completion
      { queue.history id with place := .done }
    exact hsettled.conclude hlive hcalling (congrArg (queue.notifying + ·) hnone)

/-- The services at work change, and the demand with them. -/
theorem Counted.demanding (h : queue.Counted) {activities : Store Activity} {busyServices : Nat}
    (hthreads : ThreadsCounted activities queue.started queue.notifying busyServices) :
    ({ queue with busyServices := busyServices, activities := activities }.updateDemand).Counted := by
  have hdemand := @updateDemand_demand
    { queue with busyServices := busyServices, activities := activities }
  rw [updateDemand_eq] at hdemand ⊢
  exact ⟨h.records, hthreads, h.producers, fun hcompile _ => hdemand hcompile,
    fun index hindex => (h.tasks index hindex).congr rfl fun hstopping => hstopping⟩

theorem Counted.leave (h : queue.Counted) (hlive : id ∈ queue.activities.live)
    (hstage : (queue.activities.get id).stage = .leaving) : (queue.leave id).Counted := by
  have hlent := h.not_lent hlive fun _ _ hcalling => absurd (hstage.symm.trans hcalling) nofun
  have hone : (queue.activities.get id).busy = 1 :=
    if_pos ⟨h.threads.leaving id hlive hstage, hlent⟩
  have hle := Store.le_total Activity.busy hlive
  rw [← h.threads.busyServices, hone] at hle
  apply h.demanding
  apply h.threads.destroy hlive
  · rw [hstage]
    rfl
  · rw [hone]
    exact Nat.sub_add_cancel hle

theorem Counted.lend (h : queue.Counted) (hlive : id ∈ queue.activities.live)
    (hservice : (queue.activities.get id).service = true)
    (hlent : (queue.activities.get id).lent = false)
    (hstage : ∃ operation error, (queue.activities.get id).stage = .calling operation error) :
    (queue.lend id).Counted := by
  have hone : (queue.activities.get id).busy = 1 := if_pos ⟨hservice, hlent⟩
  have hle := Store.le_total Activity.busy hlive
  rw [← h.threads.busyServices, hone] at hle
  apply h.demanding
  apply h.threads.modify hlive
  · rfl
  · rw [hone]
    have hnone : Activity.busy { queue.activities.get id with lent := true } = 0 :=
      if_neg fun hworks => nomatch hworks.2
    rw [hnone]
    exact Nat.sub_add_cancel hle
  · exact fun _ => ⟨hservice, hstage⟩
  · exact fun _ => hservice

theorem Counted.resume (h : queue.Counted) (hlive : id ∈ queue.activities.live)
    (hlent : (queue.activities.get id).lent = true) : (queue.resume id).Counted := by
  obtain ⟨hservice, -⟩ := h.threads.lent id hlive hlent
  have hnone : (queue.activities.get id).busy = 0 :=
    if_neg fun hworks => Bool.false_ne_true (hworks.2.symm.trans hlent)
  apply h.demanding
  apply h.threads.modify hlive
  · rfl
  · have hone : Activity.busy { queue.activities.get id with lent := false } = 1 :=
      if_pos ⟨hservice, rfl⟩
    rw [hnone, hone]
  · exact fun htrue => nomatch htrue
  · exact fun _ => hservice

theorem Counted.cancel (h : queue.Counted) : queue.cancel.Counted := by
  have hdemand := @updateDemand_demand { queue with stopping := true }
  rw [FileWorkQueue.cancel]
  rw [updateDemand_eq] at hdemand ⊢
  exact ⟨h.records, h.threads, h.producers, fun hcompile _ => hdemand hcompile,
    fun index hindex => (h.tasks index hindex).congr rfl fun _ => rfl⟩

theorem Counted.stopServices (h : queue.Counted) :
    ({ queue with shutdown := true } : FileWorkQueue).Counted :=
  ⟨h.records, h.threads, h.producers, fun _ hrunning => (nomatch hrunning),
    fun index hindex => (h.tasks index hindex).congr rfl fun hstopping => hstopping⟩

theorem Counted.takeTask (h : queue.Counted) (hindex : index < queue.capacity)
    (hqueued : (queue.records.get index).dispatchQueued = true) : (queue.takeTask index).Counted := by
  have hbefore := h.tasks index hindex
  exact h.setRecord hindex rfl rfl rfl
    ⟨nofun, fun _ _ => .inr rfl, fun _ => hbefore.late (.inl hqueued)⟩

/-- A task that comes too late finds its record in other hands. -/
theorem Counted.dispatchLate (h : queue.Counted) (hindex : index < queue.capacity)
    (htaken : (queue.records.get index).dispatchTaken = true)
    (hstate : (queue.records.get index).state ≠ .queued) :
    (queue.setRecord index { queue.records.get index with dispatchTaken := false }).Counted := by
  have hbefore := h.tasks index hindex
  refine h.setRecord hindex rfl rfl rfl ?_
  refine ⟨fun hdue => ⟨(hbefore.owner hdue).1, rfl⟩, fun _ hqueued => absurd hqueued hstate, ?_⟩
  exact fun _ => hbefore.late (.inr htaken)

theorem Counted.submitRefused (h : queue.Counted) (hindex : index < queue.capacity)
    (hreserved : (queue.records.get index).state = .reserved) (hrunning : queue.stopping = false) :
    (queue.setRecord index { queue.records.get index with dispatchOwner := false }).Counted := by
  have hbefore := h.tasks index hindex
  have hnot : (queue.records.get index).state ≠ .queued := fun hqueued =>
    absurd (hqueued.symm.trans hreserved) nofun
  obtain ⟨hidle, -⟩ := hbefore.idle hnot hrunning
  refine h.setRecord hindex rfl rfl rfl ?_
  refine ⟨fun hdue => ?_, fun _ hqueued => absurd hqueued hnot, hbefore.late⟩
  exact absurd (hidle.symm.trans hdue) nofun

end FileWorkQueue

end Mmltk.Compile
