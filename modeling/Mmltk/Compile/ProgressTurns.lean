import Mathlib.Data.List.Count
import Mmltk.Compile.ProgressRuns

namespace Mmltk.Compile.ProgressDelivery.Trace

/-! How many turns of the worker a pending item waits, whatever the producers do between them. -/

variable {α ε : Type} {trace : Trace α ε} {list list' : List (Stamped α)} {item : Stamped α}

/-- The turn is the next one of the worker. -/
def due : Worker (α × Nat) → Event α ε → Bool
  | .looking, .drain .. => true
  | .observing _, .observed .. => true
  | .reporting, .reported => true
  | .failing, .notified => true
  | _, _ => false

/-- How many turns the worker takes in a run. -/
def turns (trace : Trace α ε) : List (Event α ε) → Nat
  | [] => 0
  | event :: rest =>
      (if due trace.delivery.worker event then 1 else 0) + turns (trace.step event) rest

/-- The worker's turns until it has looked at its oldest item. -/
def untilLooked : Worker (α × Nat) → Nat
  | .looking => 1
  | .reporting => 2
  | .observing _ => 3
  | .failing => 2
  | .returned => 1

def ahead (list : List (Stamped α)) (item : Stamped α) : Nat :=
  list.countP fun other => other.sequence < item.sequence

def wait (trace : Trace α ε) (item : Stamped α) : Nat :=
  3 * ahead (trace.delivery.pending.toList capacity) item + untilLooked trace.delivery.worker

theorem Sound.wait_eq (h : trace.Sound list) (item : Stamped α) :
    trace.wait item = 3 * ahead list item + untilLooked trace.delivery.worker := by
  rw [wait, h.ring.toList_eq]

theorem Sound.pending_order (h : trace.Sound list) :
    list.Pairwise fun earlier later => earlier.sequence < later.sequence :=
  (List.pairwise_append.mp h.ledger.order).2.1

theorem Retains.ahead_le (h : Retains list list') (hitem : item ∈ list)
    (hlifecycle : item.lifecycle = true)
    (horder : list'.Pairwise fun earlier later => earlier.sequence < later.sequence) :
    item ∈ list' ∧ ahead list' item ≤ ahead list item := by
  obtain ⟨kept, added, rfl, hkept, hlifecycles, -⟩ := h
  have hmem := hlifecycles item hitem hlifecycle
  refine ⟨List.mem_append_left _ hmem, ?_⟩
  have hlater : ∀ other ∈ added, ¬ (other.sequence < item.sequence) := fun other hother =>
    Nat.not_lt.mpr (Nat.le_of_lt ((List.pairwise_append.mp horder).2.2 item hmem other hother))
  have hadded : added.countP (fun other => other.sequence < item.sequence) = 0 :=
    List.countP_eq_zero.mpr (by simpa using hlater)
  rw [ahead, ahead, List.countP_append, hadded, Nat.add_zero]
  exact hkept.countP_le

theorem changed_worker (delivery : CompileProgressDelivery (α × Nat) ε)
    (mode : CompileProgressDeliveryMode) (materialized : Except ε (α × Nat)) :
    (delivery.changed mode materialized).1.worker = delivery.worker := by
  unfold CompileProgressDelivery.changed
  split
  · rfl
  split
  · rfl
  split
  · rfl
  dsimp only
  generalize (if delivery.pending.size = capacity then
    CompileProgressDelivery.evict delivery.pending else delivery.pending) = ring
  split
  · rfl
  split
  · split <;> rfl
  · rfl

theorem step_failed (h : trace.delivery.failure.isSome) (event : Event α ε) :
    (trace.step event).delivery.failure.isSome := by
  cases event with
  | changed mode materialized =>
      obtain ⟨fault, hfault⟩ := Option.isSome_iff_exists.mp h
      simp only [step, advance, CompileProgressDelivery.changed, hfault, Option.isSome_some]
  | drain elapsed materialized =>
      cases hworker : trace.delivery.worker <;>
        simp only [step, advance, hworker, CompileProgressDelivery.drain, h, if_true]
  | observed raised diagnostic =>
      cases hworker : trace.delivery.worker <;>
        simp only [step, advance, hworker, CompileProgressDelivery.observed, h]
      cases raised with
      | none => exact h
      | some exception =>
          dsimp only
          split
          · exact h
          · rfl
  | reported => cases hworker : trace.delivery.worker <;> simp only [step, advance, hworker, h]
  | notified =>
      cases hworker : trace.delivery.worker <;>
        simp only [step, advance, hworker, CompileProgressDelivery.notified, h]
  | flush => exact h
  | stop => exact h

theorem run_failed (h : trace.delivery.failure.isSome) (events : List (Event α ε)) :
    (trace.run events).delivery.failure.isSome := by
  induction events generalizing trace with
  | nil => exact h
  | cons event rest ih => exact ih (step_failed h event)

theorem step_handed (trace : Trace α ε) (event : Event α ε) :
    ∃ later, (trace.step event).handed = trace.handed ++ later := by
  cases event with
  | drain elapsed materialized =>
      cases hworker : trace.delivery.worker <;> simp only [step, advance, hworker]
      · exact ⟨_, rfl⟩
      all_goals exact ⟨[], (List.append_nil _).symm⟩
  | observed raised diagnostic =>
      cases hworker : trace.delivery.worker <;> simp only [step, advance, hworker] <;>
        exact ⟨[], (List.append_nil _).symm⟩
  | reported =>
      cases hworker : trace.delivery.worker <;> simp only [step, advance, hworker] <;>
        exact ⟨[], (List.append_nil _).symm⟩
  | notified =>
      cases hworker : trace.delivery.worker <;> simp only [step, advance, hworker] <;>
        exact ⟨[], (List.append_nil _).symm⟩
  | changed mode materialized => exact ⟨[], (List.append_nil _).symm⟩
  | flush => exact ⟨[], (List.append_nil _).symm⟩
  | stop => exact ⟨[], (List.append_nil _).symm⟩

theorem run_handed (trace : Trace α ε) (events : List (Event α ε)) :
    ∃ later, (trace.run events).handed = trace.handed ++ later := by
  induction events generalizing trace with
  | nil => exact ⟨[], (List.append_nil _).symm⟩
  | cons event rest ih =>
      obtain ⟨first, hfirst⟩ := step_handed trace event
      obtain ⟨second, hsecond⟩ := ih (trace.step event)
      refine ⟨first ++ second, ?_⟩
      rw [← List.append_assoc, ← hfirst]
      exact hsecond

/-- The item is handed over, the delivery has failed, or the item waits on. -/
def Nearer (trace : Trace α ε) (event : Event α ε) (item : Stamped α) : Prop :=
  item ∈ (trace.step event).handed ∨ (trace.step event).delivery.failure.isSome ∨
    item ∈ (trace.step event).delivery.pending.toList capacity ∧
      (trace.step event).wait item + (if due trace.delivery.worker event then 1 else 0) ≤
        trace.wait item

/-- A turn that leaves the pending items as they are. -/
theorem Sound.nearer_same (h : trace.Sound list) (hitem : item ∈ list) {event : Event α ε}
    (hpending : (trace.step event).delivery.pending = trace.delivery.pending)
    (hworker : untilLooked (trace.step event).delivery.worker +
      (if due trace.delivery.worker event then 1 else 0) ≤ untilLooked trace.delivery.worker) :
    Nearer trace event item := by
  refine .inr (.inr ⟨?_, ?_⟩)
  · rw [hpending, h.ring.toList_eq]
    exact hitem
  · rw [wait, wait, hpending]
    omega

/-- Every turn of the worker brings a lifecycle change nearer, and no other turn puts it off. -/
theorem Sound.nearer (h : trace.Sound list) (hitem : item ∈ list)
    (hlifecycle : item.lifecycle = true) (event : Event α ε) : Nearer trace event item := by
  by_cases hfailure : trace.delivery.failure.isSome
  · exact .inr (.inl (step_failed hfailure event))
  cases event with
  | changed mode materialized =>
      obtain ⟨list', hsound, hretains⟩ := changed_sound h mode materialized
      obtain ⟨hmem, hahead⟩ := Retains.ahead_le hretains hitem hlifecycle hsound.pending_order
      refine .inr (.inr ⟨?_, ?_⟩)
      · rw [hsound.ring.toList_eq]
        exact hmem
      · have hworker : (trace.step (.changed mode materialized)).delivery.worker =
            trace.delivery.worker := changed_worker _ _ _
        have hdue : due trace.delivery.worker (.changed mode materialized) = false := by
          cases trace.delivery.worker <;> rfl
        rw [hsound.wait_eq, h.wait_eq, hworker, hdue]
        simp only [Bool.false_eq_true, if_false]
        omega
  | drain elapsed materialized =>
      cases hworker : trace.delivery.worker with
      | looking =>
          cases list with
          | nil => cases hitem
          | cons first rest =>
              obtain ⟨hsound, hhanded, hobserving⟩ :=
                drain_first h elapsed materialized hworker hfailure
              cases List.mem_cons.mp hitem with
              | inl hfirst =>
                  refine .inl ?_
                  rw [hhanded, hfirst]
                  exact List.mem_append_right _ (List.mem_singleton_self _)
              | inr hrest =>
                  refine .inr (.inr ⟨?_, ?_⟩)
                  · rw [hsound.ring.toList_eq]
                    exact hrest
                  · have hbefore : first.sequence < item.sequence :=
                      (List.pairwise_cons.mp h.pending_order).1 item hrest
                    rw [hsound.wait_eq, h.wait_eq, hobserving, hworker, ahead, ahead,
                      List.countP_cons_of_pos (by simpa using hbefore)]
                    simp only [untilLooked, due, if_true]
                    omega
      | observing other =>
          exact h.nearer_same hitem (by simp only [step, advance, hworker])
            (by simp [step, advance, hworker, due])
      | reporting =>
          exact h.nearer_same hitem (by simp only [step, advance, hworker])
            (by simp [step, advance, hworker, due])
      | failing =>
          exact h.nearer_same hitem (by simp only [step, advance, hworker])
            (by simp [step, advance, hworker, due])
      | returned =>
          exact h.nearer_same hitem (by simp only [step, advance, hworker])
            (by simp [step, advance, hworker, due])
  | observed raised diagnostic =>
      refine h.nearer_same hitem ?_ ?_
      · cases hworker : trace.delivery.worker <;>
          simp only [step, advance, hworker, CompileProgressDelivery.observed]
      · cases hworker : trace.delivery.worker <;>
          simp [step, advance, hworker, CompileProgressDelivery.observed, due, untilLooked]
        cases diagnostic <;> simp
  | reported =>
      refine h.nearer_same hitem ?_ ?_
      · cases hworker : trace.delivery.worker <;> simp only [step, advance, hworker]
      · cases hworker : trace.delivery.worker <;> simp [step, advance, hworker, due, untilLooked]
  | notified =>
      refine h.nearer_same hitem ?_ ?_
      · cases hworker : trace.delivery.worker <;>
          simp only [step, advance, hworker, CompileProgressDelivery.notified]
      · cases hworker : trace.delivery.worker <;>
          simp [step, advance, hworker, CompileProgressDelivery.notified, due, untilLooked]
  | flush =>
      refine h.nearer_same hitem rfl ?_
      cases hworker : trace.delivery.worker <;>
        simp [step, advance, hworker, CompileProgressDelivery.flush, due]
  | stop =>
      refine h.nearer_same hitem rfl ?_
      cases hworker : trace.delivery.worker <;>
        simp [step, advance, hworker, CompileProgressDelivery.stop, due]

/-- Once the worker has taken its turns, the change is handed over or the delivery has failed. -/
theorem Sound.handed_over (h : trace.Sound list) (hitem : item ∈ list)
    (hlifecycle : item.lifecycle = true) {events : List (Event α ε)}
    (hturns : trace.wait item ≤ trace.turns events) :
    item ∈ (trace.run events).handed ∨ (trace.run events).delivery.failure.isSome := by
  induction events generalizing trace list with
  | nil =>
      rw [turns, wait] at hturns
      cases hworker : trace.delivery.worker <;> simp [hworker, untilLooked] at hturns
  | cons event rest ih =>
      cases h.nearer hitem hlifecycle event with
      | inl hhanded =>
          obtain ⟨later, hlater⟩ := run_handed (trace.step event) rest
          refine .inl ?_
          rw [run, List.foldl_cons]
          rw [run] at hlater
          rw [hlater]
          exact List.mem_append_left _ hhanded
      | inr hwaits =>
          cases hwaits with
          | inl hfailed => exact .inr (run_failed hfailed rest)
          | inr hnearer =>
              obtain ⟨list', hsound⟩ := step_sound h event
              obtain ⟨hmem, hwait⟩ := hnearer
              rw [hsound.ring.toList_eq] at hmem
              rw [turns] at hturns
              exact ih hsound hmem (by omega)

/-- A change that `changed` refuses leaves the delivery failed. -/
theorem changed_refused {mode : CompileProgressDeliveryMode} {materialized : Except ε α}
    {fault : DeliveryFault ε}
    (hrefused : (trace.delivery.changed mode (trace.stamp materialized)).2 = .error fault) :
    (trace.step (.changed mode materialized)).delivery.failure.isSome := by
  have hstep : (trace.step (.changed mode materialized)).delivery =
      (trace.delivery.changed mode (trace.stamp materialized)).1 := rfl
  rw [hstep]
  revert hrefused
  unfold CompileProgressDelivery.changed
  split
  next hfailure => exact fun _ => by simp [hfailure]
  split
  · exact fun hrefused => nomatch hrefused
  split
  · exact fun hrefused => nomatch hrefused
  dsimp only
  generalize (if trace.delivery.pending.size = capacity then
    CompileProgressDelivery.evict trace.delivery.pending else trace.delivery.pending) = ring
  split
  · exact fun _ => rfl
  split
  · split
    · exact fun hrefused => nomatch hrefused
    · exact fun _ => rfl
  · exact fun hrefused => nomatch hrefused

theorem flushed_of_failed (h : trace.delivery.failure.isSome) (through : Nat) :
    trace.delivery.flushed through ≠ some (.ok ()) := by
  obtain ⟨fault, hfault⟩ := Option.isSome_iff_exists.mp h
  rw [CompileProgressDelivery.flushed, hfault]
  dsimp only
  split <;> simp

/-- A flush that returns normally has let the observer see the change before it. -/
theorem Sound.flushed (h : trace.Sound list) {waiter : Waiter} {change : Nat}
    (hwaiter : waiter ∈ trace.waiters) (hchange : waiter.lastChange = some change)
    (hflushed : trace.delivery.flushed waiter.through = some (.ok ())) :
    ∃ item ∈ trace.handed, change ≤ item.value.2 := by
  have hreached : waiter.through ≤ trace.delivery.delivered := by
    revert hflushed
    unfold CompileProgressDelivery.flushed
    split
    · split <;> simp
    · split
      next hdelivered => exact fun _ => hdelivered
      · simp
  obtain ⟨-, hcovers⟩ := h.ledger.waiting waiter hwaiter
  obtain ⟨hpositive, -, hitems⟩ := hcovers change hchange
  cases h.reached with
  | inl hzero => omega
  | inr hlast =>
      obtain ⟨item, hitem, hsequence⟩ := hlast
      exact ⟨item, hitem, hitems item (List.mem_append_left _ hitem) (hsequence ▸ hreached)⟩

/-- After any turns of the producers, the flushes and the worker: what is handed over and what is
pending is in one strict order, the lifecycle changes in it are those accepted, with the facts each
captured, the pending items fit, a call keeps all of them but optional ones, a lifecycle change is
handed over once the worker has taken its turns or the delivery has failed, a flush that returns
normally covers the last change before it, and after a refused change none returns normally. -/
theorem deliveries_ordered (events : List (Event α ε)) :
    let trace := (initial : Trace α ε).run events
    let pending := trace.delivery.pending.toList capacity
    (trace.handed ++ pending).Pairwise (fun earlier later => earlier.sequence < later.sequence) ∧
      (trace.handed ++ pending).filter Item.lifecycle = trace.accepted ∧
      pending.length ≤ capacity ∧
      (∀ mode materialized,
        (trace.step (.changed mode materialized)).handed = trace.handed ∧
          Retains pending
            ((trace.step (.changed mode materialized)).delivery.pending.toList capacity)) ∧
      (∀ item ∈ pending, item.lifecycle = true → ∀ later, trace.wait item ≤ trace.turns later →
        item ∈ (trace.run later).handed ∨ (trace.run later).delivery.failure.isSome) ∧
      (∀ waiter ∈ trace.waiters, ∀ change, waiter.lastChange = some change →
        trace.delivery.flushed waiter.through = some (.ok ()) →
        ∃ item ∈ trace.handed, change ≤ item.value.2) ∧
      ∀ mode materialized fault,
        (trace.delivery.changed mode (trace.stamp materialized)).2 = .error fault →
        ∀ later through, ((trace.step (.changed mode materialized)).run later).delivery.flushed
          through ≠ some (.ok ()) := by
  intro trace pending
  obtain ⟨list, hsound⟩ := run_sound (sound_initial : (initial : Trace α ε).Sound []) events
  have hpending : pending = list := hsound.ring.toList_eq
  rw [hpending]
  refine ⟨hsound.ledger.order, hsound.ledger.lifecycle, ?_, ?_, ?_, ?_, ?_⟩
  · rw [hsound.ring.length_eq]
    exact hsound.ring.size_le
  · intro mode materialized
    obtain ⟨list', hafter, hretains⟩ := changed_sound hsound mode materialized
    refine ⟨rfl, ?_⟩
    rw [hafter.ring.toList_eq]
    exact hretains
  · intro item hitem hlifecycle later hturns
    exact hsound.handed_over hitem hlifecycle hturns
  · intro waiter hwaiter change hchange hflushed
    exact hsound.flushed hwaiter hchange hflushed
  · intro mode materialized fault hrefused later through
    exact flushed_of_failed (run_failed (changed_refused hrefused) later) through

end Mmltk.Compile.ProgressDelivery.Trace
