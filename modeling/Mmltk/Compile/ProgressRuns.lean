import Mmltk.Compile.ProgressLedger

namespace Mmltk.Compile.ProgressDelivery

open Mmltk.Foundation

/-! Every interleaving of the producers, the flushes and the worker. -/

/-- The delivery, and what its producers and its observer have seen of it: the items handed to the
observer, the lifecycle changes that `changed` accepted, the step of the last accepted change that
is not a warning, and the flushes that have begun. -/
structure Trace (α ε : Type) where
  delivery : CompileProgressDelivery (α × Nat) ε
  clock : Nat
  handed : List (Stamped α)
  accepted : List (Stamped α)
  lastChange : Option Nat
  waiters : List Waiter

inductive Event (α ε : Type) where
  | changed (mode : CompileProgressDeliveryMode) (materialized : Except ε α)
  | flush
  | drain (elapsed : Bool) (materialized : Except ε α)
  | observed (raised : Option ε) (diagnostic : Bool)
  | reported
  | notified
  | stop

variable {α ε : Type}

namespace Trace

def initial : Trace α ε := ⟨.initial, 0, [], [], none, []⟩

def stamp (trace : Trace α ε) (materialized : Except ε α) : Except ε (α × Nat) :=
  materialized.map fun value => (value, trace.clock)

/-- The lifecycle change that a call of `changed` accepts, with the facts it captured. -/
def captured (trace : Trace α ε) (mode : CompileProgressDeliveryMode) (materialized : Except ε α) :
    List (Stamped α) :=
  match (trace.delivery.changed mode (trace.stamp materialized)).2, trace.stamp materialized with
  | .ok (), .ok value =>
      if mode = .lifecycle then [⟨value, trace.delivery.submitted + 1, mode⟩] else []
  | _, _ => []

/-- What the worker hands to the observer as it gives the mutex up. -/
def handing (delivery : CompileProgressDelivery (α × Nat) ε) : List (Stamped α) :=
  match delivery.worker with
  | .observing item => [item]
  | _ => []

/-- One thread's turn; a turn of the worker that is not its next changes nothing. -/
def advance (trace : Trace α ε) : Event α ε → Trace α ε
  | .changed mode materialized =>
      let call := trace.delivery.changed mode (trace.stamp materialized)
      { trace with
        delivery := call.1
        accepted := trace.accepted ++ trace.captured mode materialized
        lastChange :=
          if call.2.isOk ∧ mode ≠ .warning then some trace.clock else trace.lastChange }
  | .flush =>
      { trace with
        delivery := trace.delivery.flush
        waiters := trace.waiters ++ [⟨trace.delivery.submitted, trace.lastChange⟩] }
  | .drain elapsed materialized =>
      match trace.delivery.worker with
      | .looking =>
          let delivery := trace.delivery.drain elapsed (trace.stamp materialized)
          { trace with delivery, handed := trace.handed ++ handing delivery }
      | _ => trace
  | .observed raised diagnostic =>
      match trace.delivery.worker with
      | .observing item =>
          { trace with delivery := trace.delivery.observed item raised diagnostic }
      | _ => trace
  | .reported =>
      match trace.delivery.worker with
      | .reporting => { trace with delivery := { trace.delivery with worker := .looking } }
      | _ => trace
  | .notified =>
      match trace.delivery.worker with
      | .failing => { trace with delivery := trace.delivery.notified }
      | _ => trace
  | .stop => { trace with delivery := trace.delivery.stop }

def step (trace : Trace α ε) (event : Event α ε) : Trace α ε :=
  { trace.advance event with clock := trace.clock + 1 }

def run (trace : Trace α ε) (events : List (Event α ε)) : Trace α ε := events.foldl step trace

/-- What is handed and what is pending, in one order, with the worker's item in its place. -/
structure Sound (trace : Trace α ε) (list : List (Stamped α)) : Prop where
  ring : RingBuffer.Holds capacity trace.delivery.pending list
  ledger : Ledger (trace.handed ++ list) trace.accepted trace.delivery.submitted trace.clock
    trace.delivery.dirty trace.lastChange trace.waiters
  after : ∀ item ∈ list, trace.delivery.delivered < item.sequence
  reached : trace.delivery.delivered = 0 ∨
    ∃ item ∈ trace.handed, item.sequence = trace.delivery.delivered
  observing : ∀ item, trace.delivery.worker = .observing item →
    item ∈ trace.handed ∧ ∀ other ∈ list, item.sequence < other.sequence
  gone : trace.delivery.worker = .failing ∨ trace.delivery.worker = .returned →
    trace.delivery.failure.isSome ∨ trace.delivery.stopping = true

variable {trace : Trace α ε} {list : List (Stamped α)}

theorem sound_initial : (initial : Trace α ε).Sound [] where
  ring := .empty (by decide)
  ledger := .initial
  after := by simp
  reached := .inl rfl
  observing item hworker := nomatch hworker
  gone hworker := by cases hworker <;> contradiction

/-- The oldest optional item goes, if there is one. -/
theorem evict_cases {ring : RingBuffer (Stamped α)} (h : RingBuffer.Holds capacity ring list) :
    RingBuffer.Holds capacity (CompileProgressDelivery.evict ring) list ∨
      ∃ front item back, list = front ++ item :: back ∧ item.lifecycle = false ∧
        RingBuffer.Holds capacity (CompileProgressDelivery.evict ring) (front ++ back) := by
  rw [CompileProgressDelivery.evict]
  split
  · exact .inl h
  next offset hfind =>
    rw [h.find_eq (fun item => !item.lifecycle) (Nat.zero_add _), List.drop_zero] at hfind
    obtain ⟨index, hindex, rfl⟩ := Option.map_eq_some_iff.mp hfind
    obtain ⟨hlt, hkind, -⟩ := List.findIdx?_eq_some_iff_getElem.mp hindex
    refine .inr ⟨list.take index, list[index], list.drop (index + 1), ?_, by simpa using hkind, ?_⟩
    · rw [List.getElem_cons_drop, List.take_append_drop]
    · have hremove := h.remove (show 0 + index < ring.size by
        rw [← h.length_eq]
        omega)
      rw [Nat.zero_add, List.eraseIdx_eq_take_drop_succ] at hremove
      rw [Nat.zero_add]
      exact hremove

theorem Sound.delivered_le (h : trace.Sound list) :
    trace.delivery.delivered ≤ trace.delivery.submitted := by
  cases h.reached with
  | inl hzero =>
      rw [hzero]
      exact Nat.zero_le _
  | inr hreached =>
      obtain ⟨item, hitem, hsequence⟩ := hreached
      rw [← hsequence]
      exact h.ledger.bound item (List.mem_append_left _ hitem)

/-- A call of a producer: some pending items stay, in order, and a newer one may follow them. -/
theorem Sound.produced (h : trace.Sound list) {after : Trace α ε} {kept added : List (Stamped α)}
    (hkept : kept.Sublist list)
    (hadded : ∀ item ∈ added, item.sequence = trace.delivery.submitted + 1)
    (hdelivered : after.delivery.delivered = trace.delivery.delivered)
    (hworker : after.delivery.worker = trace.delivery.worker)
    (hhanded : after.handed = trace.handed)
    (hfailure : trace.delivery.failure.isSome → after.delivery.failure.isSome)
    (hstopping : after.delivery.stopping = trace.delivery.stopping)
    (hring : RingBuffer.Holds capacity after.delivery.pending (kept ++ added))
    (hledger : Ledger (trace.handed ++ (kept ++ added)) after.accepted after.delivery.submitted
      after.clock after.delivery.dirty after.lastChange after.waiters) :
    after.Sound (kept ++ added) where
  ring := hring
  ledger := hhanded ▸ hledger
  after item hitem := by
    rw [hdelivered]
    cases List.mem_append.mp hitem with
    | inl hmem => exact h.after item (hkept.subset hmem)
    | inr hnew =>
        rw [hadded item hnew]
        exact Nat.lt_succ_of_le h.delivered_le
  reached := by
    rw [hdelivered, hhanded]
    exact h.reached
  observing item hitem := by
    rw [hworker] at hitem
    obtain ⟨hmem, hlater⟩ := h.observing item hitem
    refine ⟨hhanded ▸ hmem, fun other hother => ?_⟩
    cases List.mem_append.mp hother with
    | inl hold => exact hlater other (hkept.subset hold)
    | inr hnew =>
        rw [hadded other hnew]
        exact Nat.lt_succ_of_le (h.ledger.bound item (List.mem_append_left _ hmem))
  gone hgone := by
    rw [hworker] at hgone
    rw [hstopping]
    exact (h.gone hgone).imp hfailure id

/-- What a call of `changed` leaves of the pending items. -/
def Retains (list after : List (Stamped α)) : Prop :=
  ∃ kept added, after = kept ++ added ∧ kept.Sublist list ∧
    (∀ item ∈ list, item.lifecycle = true → item ∈ kept) ∧ added.length ≤ 1

theorem retains_refl : Retains list list :=
  ⟨list, [], (List.append_nil _).symm, List.Sublist.refl _, fun _ hitem _ => hitem, Nat.zero_le _⟩

/-- The pending items once there is room for another, if room can be made. -/
theorem Sound.room (h : trace.Sound list) :
    ∃ kept, RingBuffer.Holds capacity
        (if trace.delivery.pending.size = capacity then
          CompileProgressDelivery.evict trace.delivery.pending
        else trace.delivery.pending) kept ∧
      kept.Sublist list ∧ (∀ item ∈ list, item.lifecycle = true → item ∈ kept) ∧
      Ledger (trace.handed ++ kept) trace.accepted trace.delivery.submitted trace.clock
        trace.delivery.dirty trace.lastChange trace.waiters := by
  split
  · cases evict_cases h.ring with
    | inl hring => exact ⟨list, hring, .refl _, fun _ hitem _ => hitem, h.ledger⟩
    | inr hevicted =>
        obtain ⟨front, item, back, rfl, hoptional, hring⟩ := hevicted
        refine ⟨front ++ back, hring, by simp, ?_, ?_⟩
        · intro other hother hlifecycle
          have hne : other ≠ item := by
            rintro rfl
            rw [hoptional] at hlifecycle
            cases hlifecycle
          simp only [List.mem_append, List.mem_cons] at hother ⊢
          tauto
        · have hledger := h.ledger
          rw [← List.append_assoc] at hledger
          rw [← List.append_assoc]
          exact hledger.evict hoptional
  · exact ⟨list, h.ring, .refl _, fun _ hitem _ => hitem, h.ledger⟩

theorem step_changed {mode : CompileProgressDeliveryMode} {materialized : Except ε α}
    {delivery : CompileProgressDelivery (α × Nat) ε} {result : Except (DeliveryFault ε) Unit}
    (hcall : trace.delivery.changed mode (trace.stamp materialized) = (delivery, result)) :
    trace.step (.changed mode materialized) =
      { trace with
        delivery
        accepted := trace.accepted ++ trace.captured mode materialized
        lastChange := if result.isOk ∧ mode ≠ .warning then some trace.clock else trace.lastChange
        clock := trace.clock + 1 } := by
  simp only [step, advance, hcall]

theorem captured_error {mode : CompileProgressDeliveryMode} {materialized : Except ε α}
    {delivery : CompileProgressDelivery (α × Nat) ε} {fault : DeliveryFault ε}
    (hcall : trace.delivery.changed mode (trace.stamp materialized) = (delivery, .error fault)) :
    trace.captured mode materialized = [] := by
  rw [captured, hcall]

theorem captured_optional {mode : CompileProgressDeliveryMode} {materialized : Except ε α}
    (hmode : mode ≠ .lifecycle) : trace.captured mode materialized = [] := by
  rw [captured]
  split
  · exact if_neg hmode
  · rfl

theorem Sound.pushed_nothing (h : trace.Sound list) {mode : CompileProgressDeliveryMode}
    {materialized : Except ε α} {delivery : CompileProgressDelivery (α × Nat) ε}
    {result : Except (DeliveryFault ε) Unit} {kept : List (Stamped α)}
    (hcall : trace.delivery.changed mode (trace.stamp materialized) = (delivery, result))
    (hcaptured : trace.captured mode materialized = []) (hkept : kept.Sublist list)
    (hdelivered : delivery.delivered = trace.delivery.delivered)
    (hworker : delivery.worker = trace.delivery.worker)
    (hfailure : trace.delivery.failure.isSome → delivery.failure.isSome)
    (hstopping : delivery.stopping = trace.delivery.stopping)
    (hring : RingBuffer.Holds capacity delivery.pending kept)
    (hledger : Ledger (trace.handed ++ kept) trace.accepted delivery.submitted (trace.clock + 1)
      delivery.dirty
      (if result.isOk ∧ mode ≠ .warning then some trace.clock else trace.lastChange)
      trace.waiters) :
    Sound (trace.step (.changed mode materialized)) kept := by
  rw [step_changed hcall, hcaptured, List.append_nil]
  have hproduced := @produced _ _ _ _ h
    { trace with
      delivery
      lastChange := if result.isOk ∧ mode ≠ .warning then some trace.clock else trace.lastChange
      clock := trace.clock + 1 } kept [] hkept (by simp) hdelivered hworker rfl hfailure hstopping
    (by simpa using hring) (by simpa using hledger)
  simpa using hproduced

theorem changed_sound (h : trace.Sound list) (mode : CompileProgressDeliveryMode)
    (materialized : Except ε α) :
    ∃ list', Sound (trace.step (.changed mode materialized)) list' ∧ Retains list list' := by
  cases hfailure : trace.delivery.failure with
  | some fault =>
      refine ⟨list, ?_, retains_refl⟩
      have hcall : trace.delivery.changed mode (trace.stamp materialized) =
          (trace.delivery, if mode = .warning then .ok () else .error fault) := by
        simp only [CompileProgressDelivery.changed, hfailure]
      by_cases hmode : mode = .warning
      · rw [if_pos hmode] at hcall
        refine h.pushed_nothing hcall (captured_optional (by simp [hmode])) (.refl _) rfl rfl id rfl
          h.ring ?_
        rw [if_neg (by simp [hmode])]
        exact h.ledger.tick
      · rw [if_neg hmode] at hcall
        refine h.pushed_nothing hcall (captured_error hcall) (.refl _) rfl rfl id rfl h.ring ?_
        rw [if_neg (by simp [Except.isOk, Except.toBool])]
        exact h.ledger.tick
  | none =>
  by_cases hdirty : mode = .dirty
  · subst hdirty
    have hcall : trace.delivery.changed .dirty (trace.stamp materialized) =
        ({ trace.delivery with submitted := trace.delivery.submitted + 1, dirty := true },
          .ok ()) := by
      simp only [CompileProgressDelivery.changed, hfailure, if_true]
    refine ⟨list, ?_, retains_refl⟩
    refine h.pushed_nothing hcall (captured_optional (by decide)) (.refl _) rfl rfl id rfl h.ring ?_
    exact h.ledger.raise true (.inr rfl)
  by_cases hdropped : mode = .warning ∧ trace.delivery.pending.size = capacity
  · have hcall : trace.delivery.changed mode (trace.stamp materialized) =
        (trace.delivery, .ok ()) := by
      simp only [CompileProgressDelivery.changed, hfailure, if_neg hdirty, if_pos hdropped]
    refine ⟨list, ?_, retains_refl⟩
    refine h.pushed_nothing hcall (captured_optional (by simp [hdropped.1])) (.refl _) rfl rfl id rfl
      h.ring ?_
    rw [if_neg (by simp [hdropped.1])]
    exact h.ledger.tick
  obtain ⟨kept, hring, hkept, hlifecycle, hledger⟩ := h.room
  have hretains : Retains list kept :=
    ⟨kept, [], (List.append_nil _).symm, hkept, hlifecycle, Nat.zero_le _⟩
  generalize hroom : (if trace.delivery.pending.size = capacity then
      CompileProgressDelivery.evict trace.delivery.pending
    else trace.delivery.pending) = ring at hring
  by_cases hfull : ring.size = capacity
  · have hcall : trace.delivery.changed mode (trace.stamp materialized) =
        ({ trace.delivery with
            submitted := trace.delivery.submitted + 1
            pending := ring
            failure := some (.runtime "compile progress lifecycle capacity exhausted") },
          .error (.runtime "compile progress lifecycle capacity exhausted")) := by
      simp only [CompileProgressDelivery.changed, hfailure, if_neg hdirty, if_neg hdropped, hroom,
        if_pos hfull]
    refine ⟨kept, ?_, hretains⟩
    exact h.pushed_nothing hcall (captured_error hcall) hkept rfl rfl (fun _ => rfl) rfl hring
      (hledger.raise _ (.inl rfl))
  cases hmaterialized : trace.stamp materialized with
  | error exception =>
      refine ⟨kept, ?_, hretains⟩
      by_cases hwarning : mode = .warning
      · have hcall : trace.delivery.changed mode (trace.stamp materialized) =
            ({ trace.delivery with pending := ring }, .ok ()) := by
          simp only [CompileProgressDelivery.changed, hfailure, if_neg hdirty, if_neg hdropped,
            hroom, if_neg hfull, hmaterialized, if_pos hwarning]
        refine h.pushed_nothing hcall (captured_optional (by simp [hwarning])) hkept rfl rfl id rfl
          hring ?_
        rw [if_neg (by simp [hwarning])]
        exact hledger.tick
      · have hcall : trace.delivery.changed mode (trace.stamp materialized) =
            ({ trace.delivery with
                submitted := trace.delivery.submitted + 1
                pending := ring
                failure := some (.raised exception) }, .error (.raised exception)) := by
          simp only [CompileProgressDelivery.changed, hfailure, if_neg hdirty, if_neg hdropped,
            hroom, if_neg hfull, hmaterialized, if_neg hwarning]
        exact h.pushed_nothing hcall (captured_error hcall) hkept rfl rfl (fun _ => rfl) rfl hring
          (hledger.raise _ (.inl rfl))
  | ok value =>
      have hcall : trace.delivery.changed mode (trace.stamp materialized) =
          ({ trace.delivery with
              submitted := trace.delivery.submitted + 1
              pending := ring.push capacity ⟨value, trace.delivery.submitted + 1, mode⟩
              dirty := false }, .ok ()) := by
        simp only [CompileProgressDelivery.changed, hfailure, if_neg hdirty, if_neg hdropped,
          hroom, if_neg hfull, hmaterialized]
      have hstamp : value.2 = trace.clock := by
        cases materialized with
        | error exception => cases hmaterialized
        | ok facts =>
            cases hmaterialized
            rfl
      have hcaptured : trace.captured mode materialized =
          [(⟨value, trace.delivery.submitted + 1, mode⟩ : Stamped α)].filter Item.lifecycle := by
        rw [captured, hcall, hmaterialized]
        by_cases hmode : mode = .lifecycle
        · simp [hmode, Item.lifecycle]
        · simp [hmode, Item.lifecycle]
      have hchange : (if (Except.ok () : Except (DeliveryFault ε) Unit).isOk ∧ mode ≠ .warning then
          some trace.clock else trace.lastChange) = trace.lastChange ∨
          (if (Except.ok () : Except (DeliveryFault ε) Unit).isOk ∧ mode ≠ .warning then
            some trace.clock else trace.lastChange) = some trace.clock := by
        split
        · exact .inr rfl
        · exact .inl rfl
      have hsize : ring.size < capacity := Nat.lt_of_le_of_ne hring.size_le hfull
      have hpushed := (hledger.raise true hchange).append
        ⟨value, trace.delivery.submitted + 1, mode⟩ rfl (by simp only [hstamp])
      refine ⟨kept ++ [⟨value, trace.delivery.submitted + 1, mode⟩], ?_,
        kept, _, rfl, hkept, hlifecycle, Nat.le_refl 1⟩
      rw [step_changed hcall, hcaptured]
      refine h.produced hkept (by simp) rfl rfl rfl id rfl (hring.push hsize) ?_
      rw [← List.append_assoc]
      exact hpushed

/-- A turn that changes neither the pending items nor what the observer has. -/
theorem Sound.idle (h : trace.Sound list) {delivery : CompileProgressDelivery (α × Nat) ε}
    (hpending : delivery.pending = trace.delivery.pending)
    (hsubmitted : delivery.submitted = trace.delivery.submitted)
    (hdirty : delivery.dirty = trace.delivery.dirty)
    (hdelivered : delivery.delivered = trace.delivery.delivered)
    (hobserving : ∀ item, delivery.worker = .observing item →
      trace.delivery.worker = .observing item)
    (hgone : delivery.worker = .failing ∨ delivery.worker = .returned →
      delivery.failure.isSome ∨ delivery.stopping = true) :
    Sound { trace with delivery, clock := trace.clock + 1 } list where
  ring := hpending ▸ h.ring
  ledger := by
    simp only [hsubmitted, hdirty]
    exact h.ledger.tick
  after := by
    simp only [hdelivered]
    exact h.after
  reached := by
    simp only [hdelivered]
    exact h.reached
  observing item hitem := h.observing item (hobserving item hitem)
  gone := hgone

theorem Sound.tick (h : trace.Sound list) : Sound { trace with clock := trace.clock + 1 } list :=
  h.idle rfl rfl rfl rfl (fun _ hitem => hitem) h.gone

/-- The oldest pending item leaves for the observer. -/
theorem drain_first {first : Stamped α} {rest : List (Stamped α)}
    (h : trace.Sound (first :: rest)) (elapsed : Bool) (materialized : Except ε α)
    (hworker : trace.delivery.worker = .looking) (hfailure : ¬ trace.delivery.failure.isSome) :
    Sound (trace.step (.drain elapsed materialized)) rest ∧
      (trace.step (.drain elapsed materialized)).handed = trace.handed ++ [first] ∧
      (trace.step (.drain elapsed materialized)).delivery.worker = .observing first := by
  have hlength : rest.length + 1 = trace.delivery.pending.size := h.ring.length_eq
  have hpeek := h.ring.peek_eq 0 (by omega)
  have hpop := h.ring.pop.2
  have hdrain : trace.delivery.drain elapsed (trace.stamp materialized) =
      { trace.delivery with
        pending := trace.delivery.pending.pop capacity
        worker := .observing first } := by
    unfold CompileProgressDelivery.drain
    rw [if_neg hfailure, if_neg (by omega), if_neg (by omega), if_pos (by omega), hpeek]
    rfl
  have hstep : trace.step (.drain elapsed materialized) =
      { trace with
        delivery :=
          { trace.delivery with
            pending := trace.delivery.pending.pop capacity
            worker := .observing first }
        handed := trace.handed ++ [first]
        clock := trace.clock + 1 } := by
    simp only [step, advance, hworker, hdrain, handing]
  have horder := (List.pairwise_append.mp h.ledger.order).2.1
  rw [hstep]
  refine ⟨?_, rfl, rfl⟩
  exact
    { ring := hpop
      ledger := by
        have hledger := h.ledger.tick
        rw [← List.singleton_append, ← List.append_assoc] at hledger
        exact hledger
      after := fun item hitem => h.after item (List.mem_cons_of_mem _ hitem)
      reached := h.reached.imp id fun ⟨item, hitem, hsequence⟩ =>
        ⟨item, List.mem_append_left _ hitem, hsequence⟩
      observing := fun item hitem => by
        cases hitem
        exact ⟨List.mem_append_right _ (List.mem_singleton_self _),
          (List.pairwise_cons.mp horder).1⟩
      gone := fun hgone => by cases hgone <;> contradiction }

theorem drain_sound (h : trace.Sound list) (elapsed : Bool) (materialized : Except ε α)
    (hworker : trace.delivery.worker = .looking) :
    ∃ list', Sound (trace.step (.drain elapsed materialized)) list' := by
  have hstep : trace.step (.drain elapsed materialized) =
      { trace with
        delivery := trace.delivery.drain elapsed (trace.stamp materialized)
        handed := trace.handed ++
          handing (trace.delivery.drain elapsed (trace.stamp materialized))
        clock := trace.clock + 1 } := by
    simp only [step, advance, hworker]
  have hwaits : trace.delivery.drain elapsed (trace.stamp materialized) = trace.delivery →
      Sound (trace.step (.drain elapsed materialized)) list := by
    intro hsame
    rw [hstep, hsame, handing, hworker]
    simpa using h.tick
  by_cases hfailure : trace.delivery.failure.isSome
  · have hdrain : trace.delivery.drain elapsed (trace.stamp materialized) =
        { trace.delivery with worker := .failing } := if_pos hfailure
    refine ⟨list, ?_⟩
    rw [hstep, hdrain, handing]
    simp only [List.append_nil]
    exact h.idle rfl rfl rfl rfl (fun _ hitem => nomatch hitem) fun _ => .inl hfailure
  by_cases hempty : trace.delivery.pending.size = 0 ∧ ¬ trace.delivery.dirty
  · cases hstopping : trace.delivery.stopping with
    | false =>
        refine ⟨list, hwaits ?_⟩
        unfold CompileProgressDelivery.drain
        rw [if_neg hfailure, if_pos hempty, if_neg (by simp [hstopping])]
    | true =>
        have hdrain : trace.delivery.drain elapsed (trace.stamp materialized) =
            { trace.delivery with worker := .returned } := by
          unfold CompileProgressDelivery.drain
          rw [if_neg hfailure, if_pos hempty, if_pos hstopping]
        refine ⟨list, ?_⟩
        rw [hstep, hdrain, handing]
        simp only [List.append_nil]
        exact h.idle rfl rfl rfl rfl (fun _ hitem => nomatch hitem) fun _ => .inr hstopping
  by_cases hdeadline : trace.delivery.pending.size = 0 ∧
      trace.delivery.flushThrough ≤ trace.delivery.delivered ∧ ¬ elapsed
  · refine ⟨list, hwaits ?_⟩
    unfold CompileProgressDelivery.drain
    rw [if_neg hfailure, if_neg hempty, if_pos hdeadline]
  cases list with
  | cons first rest =>
      exact ⟨rest, (drain_first h elapsed materialized hworker hfailure).1⟩
  | nil =>
      have hsize : trace.delivery.pending.size = 0 := h.ring.length_eq.symm
      have hdirty : trace.delivery.dirty = true := by
        by_contra hclean
        exact hempty ⟨hsize, hclean⟩
      refine ⟨[], ?_⟩
      cases hmaterialized : trace.stamp materialized with
      | error exception =>
          have hdrain : trace.delivery.drain elapsed (.error exception) =
              { trace.delivery with failure := some (.raised exception) } := by
            unfold CompileProgressDelivery.drain
            rw [if_neg hfailure, if_neg hempty, if_neg hdeadline, if_neg (not_not_intro hsize)]
          rw [hstep, hmaterialized, hdrain, handing, hworker]
          simp only [List.append_nil]
          exact h.idle rfl rfl rfl rfl (fun _ hitem => hitem) fun _ => .inl rfl
      | ok value =>
          have hdrain : trace.delivery.drain elapsed (.ok value) =
              { trace.delivery with
                dirty := false
                worker := .observing ⟨value, trace.delivery.submitted, .dirty⟩ } := by
            unfold CompileProgressDelivery.drain
            rw [if_neg hfailure, if_neg hempty, if_neg hdeadline, if_neg (not_not_intro hsize)]
          rw [hstep, hmaterialized, hdrain]
          have hstamp : value.2 = trace.clock := by
            cases materialized with
            | error exception => cases hmaterialized
            | ok facts =>
                cases hmaterialized
                rfl
          have hledger := h.ledger.tick
          rw [hdirty, List.append_nil] at hledger
          have happended := hledger.append ⟨value, trace.delivery.submitted, .dirty⟩ rfl
            (by simp only [hstamp])
          rw [List.filter_cons_of_neg (by simp [Item.lifecycle]), List.filter_nil,
            List.append_nil] at happended
          exact
            { ring := h.ring
              ledger := by simpa [handing] using happended
              after := by simp
              reached := h.reached.imp id fun ⟨item, hitem, hsequence⟩ =>
                ⟨item, List.mem_append_left _ hitem, hsequence⟩
              observing := fun item hitem => by
                cases hitem
                exact ⟨List.mem_append_right _ (by simp [handing]), by simp⟩
              gone := fun hgone => by cases hgone <;> contradiction }

theorem observed_sound (h : trace.Sound list) {item : Stamped α} (raised : Option ε)
    (diagnostic : Bool) (hworker : trace.delivery.worker = .observing item) :
    Sound (trace.step (.observed raised diagnostic)) list := by
  have hstep : trace.step (.observed raised diagnostic) =
      { trace with
        delivery := trace.delivery.observed item raised diagnostic
        clock := trace.clock + 1 } := by
    simp only [step, advance, hworker]
  obtain ⟨hitem, hlater⟩ := h.observing item hworker
  rw [hstep]
  exact
    { ring := h.ring
      ledger := h.ledger.tick
      after := hlater
      reached := .inr ⟨item, hitem, rfl⟩
      observing := fun other hother => by
        cases diagnostic <;> cases hother
      gone := fun hgone => by
        cases diagnostic <;> cases hgone <;> contradiction }

/-- Any turn keeps the order, and only the oldest pending item leaves for the observer. -/
theorem step_sound (h : trace.Sound list) (event : Event α ε) :
    ∃ list', Sound (trace.step event) list' := by
  cases event with
  | changed mode materialized =>
      obtain ⟨list', hsound, -⟩ := changed_sound h mode materialized
      exact ⟨list', hsound⟩
  | flush =>
      refine ⟨list, ?_⟩
      exact
        { ring := h.ring
          ledger := h.ledger.flush.tick
          after := h.after
          reached := h.reached
          observing := h.observing
          gone := h.gone }
  | drain elapsed materialized =>
      cases hworker : trace.delivery.worker with
      | looking => exact drain_sound h elapsed materialized hworker
      | observing item => exact ⟨list, by simpa only [step, advance, hworker] using h.tick⟩
      | reporting => exact ⟨list, by simpa only [step, advance, hworker] using h.tick⟩
      | failing => exact ⟨list, by simpa only [step, advance, hworker] using h.tick⟩
      | returned => exact ⟨list, by simpa only [step, advance, hworker] using h.tick⟩
  | observed raised diagnostic =>
      refine ⟨list, ?_⟩
      cases hworker : trace.delivery.worker with
      | looking => simpa only [step, advance, hworker] using h.tick
      | observing item => exact observed_sound h raised diagnostic hworker
      | reporting => simpa only [step, advance, hworker] using h.tick
      | failing => simpa only [step, advance, hworker] using h.tick
      | returned => simpa only [step, advance, hworker] using h.tick
  | reported =>
      refine ⟨list, ?_⟩
      cases hworker : trace.delivery.worker with
      | looking => simpa only [step, advance, hworker] using h.tick
      | observing item => simpa only [step, advance, hworker] using h.tick
      | reporting =>
          have hidle := @Sound.idle _ _ _ _ h { trace.delivery with worker := .looking } rfl rfl rfl rfl
            (fun _ hitem => nomatch hitem) (fun hgone => by cases hgone <;> contradiction)
          simpa only [step, advance, hworker] using hidle
      | failing => simpa only [step, advance, hworker] using h.tick
      | returned => simpa only [step, advance, hworker] using h.tick
  | notified =>
      refine ⟨list, ?_⟩
      cases hworker : trace.delivery.worker with
      | looking => simpa only [step, advance, hworker] using h.tick
      | observing item => simpa only [step, advance, hworker] using h.tick
      | reporting => simpa only [step, advance, hworker] using h.tick
      | failing =>
          have hidle := @Sound.idle _ _ _ _ h trace.delivery.notified rfl rfl rfl rfl
            (fun _ hitem => nomatch hitem) (fun _ => h.gone (.inl hworker))
          simpa only [step, advance, hworker] using hidle
      | returned => simpa only [step, advance, hworker] using h.tick
  | stop => exact ⟨list, h.idle rfl rfl rfl rfl (fun _ hitem => hitem) fun _ => .inr rfl⟩

theorem run_sound (h : trace.Sound list) (events : List (Event α ε)) :
    ∃ list', Sound (trace.run events) list' := by
  induction events generalizing trace list with
  | nil => exact ⟨list, h⟩
  | cons event rest ih =>
      obtain ⟨list', hstep⟩ := step_sound h event
      exact ih hstep

end Trace

end Mmltk.Compile.ProgressDelivery
