import Mathlib.Data.Fintype.Card
import Mmltk.Foundation.Linked
import Mmltk.Foundation.Outcome
import Mmltk.Foundation.RingBuffer

namespace Mmltk.Concurrency

open Mmltk.Foundation

/-! The queue of a worker pool: tasks the pool stores in a ring that grows, and records of its
callers that it threads together, merged by the ordinals of their submission. -/

/-- `tasks.max_size()`: what `std::ptrdiff_t` counts, in tasks of 56 bytes. -/
def maximumTasks : Nat := (2 ^ 63 - 1) / 56

/-- Where a record is: the address of an object that is aligned to words. -/
abbrev Record := Fin (2 ^ 61)

/-- What the pool calls: a function it was given, which may be an empty one, or a pointer with its
arguments. -/
inductive Task (Owned Context Call : Type) where
  | owned (function : Option Owned)
  | borrowed (context : Context) (index : Nat) (call : Call)
  deriving DecidableEq, Repr

structure BorrowedTask (Context Call : Type) where
  context : Context
  index : Nat
  call : Option Call
  next : Option Record
  sequence : UInt64
  queued : Bool

/-- The constructor of a record. -/
def BorrowedTask.make {Context Call : Type} (context : Context) (index : Nat) (call : Option Call) :
    BorrowedTask Context Call :=
  ⟨context, index, call, none, 0, false⟩

namespace BorrowedTask

variable {Context Call : Type} (record : BorrowedTask Context Call)

def enter (sequence : UInt64) : BorrowedTask Context Call :=
  { record with sequence := sequence, queued := true, next := none }

def leave : BorrowedTask Context Call := { record with queued := false, next := none }

def pointAt (other : Record) : BorrowedTask Context Call := { record with next := some other }

end BorrowedTask

inductive PoolFailure (Error : Type) where
  | runtime (message : String)
  | invalidArgument (message : String)
  | logic (message : String)
  | length (message : String)
  | badAlloc
  | rethrown (error : Error)
  deriving DecidableEq, Repr

variable {Owned Context Call Error : Type}

/-- `tasks` is a vector of `capacity` slots. -/
structure WorkerPool (Owned Context Call Error : Type) where
  capacity : Nat
  tasks : RingBuffer (Task Owned Context Call)
  records : Record → BorrowedTask Context Call
  borrowedHead : Option Record
  borrowedTail : Option Record
  submitted : UInt64
  dispatched : UInt64
  shutdown : Bool
  startupError : Option Error

namespace WorkerPool

/-- `clamp_worker_count_to_cpus` with nothing reserved and at least one worker; a placement takes
the count as it is. -/
def actualWorkerCount (workerCount cpus : Nat) (placed : Bool) : Nat :=
  if placed then workerCount else max 1 (min workerCount (max cpus 1))

/-- The constructor, as far as the queue goes; `arguments` are those of the records its callers
built. -/
def create (workerCount cpus queuedCapacity : Nat) (placed : Bool)
    (arguments : Record → Context × Nat × Option Call) :
    Except (PoolFailure Error) (WorkerPool Owned Context Call Error) :=
  if workerCount = 0 ∨ 2 ^ 31 - 1 < workerCount then
    .error (.runtime "worker_count must be greater than zero")
  else
    let capacity := max queuedCapacity (actualWorkerCount workerCount cpus placed)
    if capacity ≤ maximumTasks then
      .ok ⟨capacity, .empty, fun record =>
        .make (arguments record).1 (arguments record).2.1 (arguments record).2.2,
        none, none, 0, 0, false, none⟩
    else .error (.length "vector::_M_default_append")

def empty (pool : WorkerPool Owned Context Call Error) : Bool :=
  pool.tasks.size = 0 && pool.borrowedHead.isNone

/-- The first part of `push`; `allocates` says whether there is memory for a larger vector. -/
def makeRoom (pool : WorkerPool Owned Context Call Error) (allocates : Bool) :
    Except (PoolFailure Error) (WorkerPool Owned Context Call Error) :=
  if pool.tasks.size = pool.capacity then
    if maximumTasks / 2 < pool.capacity then
      .error (.length "worker task queue capacity exhausted")
    else if allocates then
      .ok { pool with
        capacity := max 1 (pool.capacity * 2)
        tasks := pool.tasks.grow pool.capacity }
    else .error .badAlloc
  else .ok pool

def push (pool : WorkerPool Owned Context Call Error) (task : Task Owned Context Call)
    (allocates : Bool) : Except (PoolFailure Error) (WorkerPool Owned Context Call Error) := do
  let pool ← pool.makeRoom allocates
  return { pool with
    tasks := pool.tasks.push pool.capacity task
    submitted := pool.submitted + 1 }

/-- The oldest record, if its turn has come; else the oldest stored task. -/
def pop (pool : WorkerPool Owned Context Call Error) :
    Option (Task Owned Context Call) × WorkerPool Owned Context Call Error :=
  match pool.borrowedHead.filter fun head => (pool.records head).sequence = pool.dispatched with
  | some head =>
      let record := pool.records head
      (record.call.map (.borrowed record.context record.index),
        { pool with
          records := Function.update pool.records head record.leave
          borrowedHead := record.next
          borrowedTail := if record.next = none then none else pool.borrowedTail
          dispatched := pool.dispatched + 1 })
  | none =>
      (pool.tasks.slots pool.tasks.read,
        { pool with
          tasks := pool.tasks.pop pool.capacity
          dispatched := pool.dispatched + 1 })

def checkBorrowedAdmission (pool : WorkerPool Owned Context Call Error) :
    Except (PoolFailure Error) Unit :=
  match pool.startupError with
  | some error => .error (.rethrown error)
  | none => if pool.shutdown then .error (.runtime "worker pool is shut down") else .ok ()

def enqueueDetached (pool : WorkerPool Owned Context Call Error) (function : Option Owned)
    (allocates : Bool) : Except (PoolFailure Error) (WorkerPool Owned Context Call Error) :=
  if pool.shutdown then .error (.runtime "worker pool is shut down")
  else
    match pool.startupError with
    | some error => .error (.rethrown error)
    | none => pool.push (.owned function) allocates

def enqueueCall (pool : WorkerPool Owned Context Call Error) (context : Context) (index : Nat)
    (call : Option Call) (allocates : Bool) :
    Except (PoolFailure Error) (WorkerPool Owned Context Call Error) :=
  match call with
  | none => .error (.invalidArgument "borrowed worker task is empty")
  | some call => do
      pool.checkBorrowedAdmission
      pool.push (.borrowed context index call) allocates

/-- The record at its place in the chain, and the one before it pointing at it. -/
def link (pool : WorkerPool Owned Context Call Error) (record : Record) :
    Record → BorrowedTask Context Call :=
  let entered := Function.update pool.records record ((pool.records record).enter pool.submitted)
  match pool.borrowedTail with
  | some tail => Function.update entered tail ((entered tail).pointAt record)
  | none => entered

def enqueueRecord (pool : WorkerPool Owned Context Call Error) (record : Record) :
    Except (PoolFailure Error) (WorkerPool Owned Context Call Error) :=
  if (pool.records record).call.isNone then
    .error (.invalidArgument "borrowed worker task is empty")
  else do
    pool.checkBorrowedAdmission
    if (pool.records record).queued then
      .error (.logic "borrowed worker task is already queued")
    else
      .ok { pool with
        records := pool.link record
        borrowedHead := if pool.borrowedTail.isSome then pool.borrowedHead else some record
        borrowedTail := some record
        submitted := pool.submitted + 1 }

/-- What happens to a pool under its mutex: submissions, a worker that asks for a task, a task
that throws, the end of admission; and a caller that builds another record where none is queued. -/
inductive PoolEvent (Owned Context Call Error : Type) where
  | enqueueDetached (function : Option Owned) (allocates : Bool)
  | enqueueCall (context : Context) (index : Nat) (call : Option Call) (allocates : Bool)
  | enqueueRecord (record : Record)
  | construct (record : Record) (context : Context) (index : Nat) (call : Option Call)
  | take
  | throws (error : Error)
  | shutdown

/-- What comes of it: `accepted` tells which task was submitted. -/
inductive PoolAnswer (Owned Context Call Error : Type) where
  | accepted (task : Task Owned Context Call)
  | refused (failure : PoolFailure Error)
  | taken (task : Option (Task Owned Context Call))
  | idle
  | done
  deriving DecidableEq

def admitted (pool : WorkerPool Owned Context Call Error) (task : Option (Task Owned Context Call))
    (result : Except (PoolFailure Error) (WorkerPool Owned Context Call Error)) :
    PoolAnswer Owned Context Call Error × WorkerPool Owned Context Call Error :=
  match result, task with
  | .ok next, some task => (.accepted task, next)
  | .ok next, none => (.done, next)
  | .error failure, _ => (.refused failure, pool)

def invocation (record : BorrowedTask Context Call) : Option (Task Owned Context Call) :=
  record.call.map (.borrowed record.context record.index)

def step (pool : WorkerPool Owned Context Call Error) :
    PoolEvent Owned Context Call Error →
      PoolAnswer Owned Context Call Error × WorkerPool Owned Context Call Error
  | .enqueueDetached function allocates =>
      admitted pool (some (.owned function)) (pool.enqueueDetached function allocates)
  | .enqueueCall context index call allocates =>
      admitted pool (call.map (.borrowed context index))
        (pool.enqueueCall context index call allocates)
  | .enqueueRecord record =>
      admitted pool (invocation (pool.records record)) (pool.enqueueRecord record)
  | .construct record context index call =>
      -- the owner keeps a record alive while it is queued
      if (pool.records record).queued then (.done, pool)
      else
        (.done, { pool with
          records := Function.update pool.records record (.make context index call) })
  | .take =>
      if pool.empty then (.idle, pool)
      else
        let popped := pool.pop
        (.taken popped.1, popped.2)
  | .throws error =>
      (.done, { pool with shutdown := true, startupError := pool.startupError.or (some error) })
  | .shutdown => (.done, { pool with shutdown := true })

def run (pool : WorkerPool Owned Context Call Error) :
    List (PoolEvent Owned Context Call Error) →
      List (PoolAnswer Owned Context Call Error) × WorkerPool Owned Context Call Error
  | [] => ([], pool)
  | event :: rest =>
      let stepped := pool.step event
      let later := run stepped.2 rest
      (stepped.1 :: later.1, later.2)

/-! ### One queue in two forms -/

/-- A submission that has not been taken: where it is kept. -/
inductive Entry (Owned Context Call : Type) where
  | stored (task : Task Owned Context Call)
  | lent (record : Record)

namespace Entry

def task? : Entry Owned Context Call → Option (Task Owned Context Call)
  | stored task => some task
  | lent _ => none

def record? : Entry Owned Context Call → Option Record
  | stored _ => none
  | lent record => some record

/-- What is called once it is taken. -/
def invocation (records : Record → BorrowedTask Context Call) :
    Entry Owned Context Call → Option (Task Owned Context Call)
  | stored task => some task
  | lent record => WorkerPool.invocation (records record)

end Entry

def storedTasks (waiting : List (Entry Owned Context Call)) : List (Task Owned Context Call) :=
  waiting.filterMap Entry.task?

def lentRecords (waiting : List (Entry Owned Context Call)) : List Record :=
  waiting.filterMap Entry.record?

section Entries

variable (waiting : List (Entry Owned Context Call)) (task : Task Owned Context Call)
  (record : Record)

@[simp] theorem storedTasks_cons_stored :
    storedTasks (.stored task :: waiting) = task :: storedTasks waiting := rfl

@[simp] theorem storedTasks_cons_lent :
    storedTasks (.lent record :: waiting) = storedTasks waiting := rfl

@[simp] theorem lentRecords_cons_stored :
    lentRecords (.stored task :: waiting) = lentRecords waiting := rfl

@[simp] theorem lentRecords_cons_lent :
    lentRecords (.lent record :: waiting) = record :: lentRecords waiting := rfl

@[simp] theorem storedTasks_concat_stored :
    storedTasks (waiting ++ [.stored task]) = storedTasks waiting ++ [task] :=
  List.filterMap_append

@[simp] theorem storedTasks_concat_lent :
    storedTasks (waiting ++ [.lent record]) = storedTasks waiting :=
  List.filterMap_append.trans (List.append_nil _)

@[simp] theorem lentRecords_concat_stored :
    lentRecords (waiting ++ [.stored task]) = lentRecords waiting :=
  List.filterMap_append.trans (List.append_nil _)

@[simp] theorem lentRecords_concat_lent :
    lentRecords (waiting ++ [.lent record]) = lentRecords waiting ++ [record] :=
  List.filterMap_append

theorem length_waiting :
    waiting.length = (storedTasks waiting).length + (lentRecords waiting).length := by
  induction waiting with
  | nil => rfl
  | cons entry rest ih =>
      cases entry with
      | stored task =>
          simp only [List.length_cons, storedTasks_cons_stored, lentRecords_cons_stored]
          omega
      | lent record =>
          simp only [List.length_cons, storedTasks_cons_lent, lentRecords_cons_lent]
          omega

theorem mem_lentRecords : record ∈ lentRecords waiting ↔ .lent record ∈ waiting := by
  rw [lentRecords, List.mem_filterMap]
  constructor
  · rintro ⟨entry, hentry, hrecord⟩
    cases entry with
    | stored task => cases hrecord
    | lent other =>
        cases hrecord
        exact hentry
  · exact fun h => ⟨_, h, rfl⟩

end Entries

/-- The submissions that wait, oldest first: the stored ones are the ring's items and the lent ones
the chain's, and every ordinal is the dispatched one and the place behind it. -/
structure Queued (pool : WorkerPool Owned Context Call Error)
    (waiting : List (Entry Owned Context Call)) : Prop where
  ring : pool.tasks.Holds pool.capacity (storedTasks waiting)
  capacity_le : pool.capacity ≤ maximumTasks
  chain : SinglyLinked (fun record => (pool.records record).next) pool.borrowedHead
    (lentRecords waiting)
  tail : pool.borrowedTail = (lentRecords waiting).getLast?
  nodup : (lentRecords waiting).Nodup
  queued : ∀ record, (pool.records record).queued = true ↔ record ∈ lentRecords waiting
  callable : ∀ record ∈ lentRecords waiting, (pool.records record).call ≠ none
  sequence : ∀ place record, waiting[place]? = some (.lent record) →
    (pool.records record).sequence = pool.dispatched + UInt64.ofNat place
  submitted : pool.submitted = pool.dispatched + UInt64.ofNat waiting.length

section Invariant

variable {pool next : WorkerPool Owned Context Call Error}
  {waiting : List (Entry Owned Context Call)} {entry : Entry Owned Context Call}

theorem Queued.length_lt (h : Queued pool waiting) : waiting.length < 2 ^ 64 := by
  have hstored : (storedTasks waiting).length ≤ maximumTasks :=
    h.ring.length_eq.trans_le (h.ring.size_le.trans h.capacity_le)
  have hlent : (lentRecords waiting).length ≤ 2 ^ 61 :=
    h.nodup.length_le_card.trans_eq (Fintype.card_fin _)
  rw [length_waiting]
  simp only [maximumTasks] at hstored
  omega

theorem Queued.empty_iff (h : Queued pool waiting) : pool.empty = true ↔ waiting = [] := by
  have hsize : pool.tasks.size = (storedTasks waiting).length := h.ring.length_eq.symm
  rw [empty, Bool.and_eq_true, decide_eq_true_iff, Option.isNone_iff_eq_none, h.chain.head?_eq,
    List.head?_eq_none_iff, hsize, List.length_eq_zero_iff, ← List.length_eq_zero_iff,
    ← List.length_eq_zero_iff, ← List.length_eq_zero_iff, length_waiting]
  omega

theorem ofNat_succ (ordinal : UInt64) (place : Nat) :
    ordinal + UInt64.ofNat (place + 1) = ordinal + 1 + UInt64.ofNat place := by
  rw [Nat.add_comm, UInt64.ofNat_add, UInt64.add_assoc]
  rfl

theorem submitted_succ {submitted ordinal : UInt64} {place : Nat}
    (h : submitted = ordinal + UInt64.ofNat place) :
    submitted + 1 = ordinal + UInt64.ofNat (place + 1) := by
  rw [h, UInt64.ofNat_add, UInt64.add_assoc]
  rfl

/-- The ordinal comes round only behind all the places there are. -/
theorem ofNat_ne_self (ordinal : UInt64) {place : Nat} (hplace : place < 2 ^ 64)
    (hne : place ≠ 0) : ordinal + UInt64.ofNat place ≠ ordinal := by
  intro h
  have hzero : UInt64.ofNat place = 0 := by
    have hsame := congrArg (fun value => value - ordinal) h
    simp only [UInt64.sub_self] at hsame
    rwa [UInt64.add_comm, UInt64.add_sub_cancel] at hsame
  have hnat := congrArg UInt64.toNat hzero
  rw [UInt64.toNat_ofNat', Nat.mod_eq_of_lt hplace] at hnat
  exact hne hnat

/-- A stored task is taken only when no record is older. -/
theorem Queued.turn_stored {task : Task Owned Context Call}
    (h : Queued pool (.stored task :: waiting)) :
    (pool.borrowedHead.filter fun head => (pool.records head).sequence = pool.dispatched) = none := by
  have hlength := h.length_lt
  rw [h.chain.head?_eq, lentRecords_cons_stored]
  cases hhead : (lentRecords waiting).head? with
  | none => rfl
  | some head =>
      have hmem : Entry.lent head ∈ waiting :=
        (mem_lentRecords waiting head).mp (List.mem_of_head? hhead)
      obtain ⟨place, hplace, heq⟩ := List.getElem_of_mem hmem
      have hsequence := h.sequence (place + 1) head (by
        rw [List.getElem?_cons_succ, List.getElem?_eq_getElem hplace, heq])
      have hlater : (pool.records head).sequence ≠ pool.dispatched := by
        rw [hsequence]
        rw [List.length_cons] at hlength
        exact ofNat_ne_self _ (by omega) (Nat.succ_ne_zero _)
      simp only [Option.filter_some, hlater, decide_false, Bool.false_eq_true, if_false]

theorem Queued.turn_lent {record : Record} (h : Queued pool (.lent record :: waiting)) :
    (pool.borrowedHead.filter fun head => (pool.records head).sequence = pool.dispatched) =
      some record := by
  have hsequence := h.sequence 0 record rfl
  have hnow : (pool.records record).sequence = pool.dispatched := by
    rw [hsequence]
    exact UInt64.add_zero _
  rw [h.chain.head?_eq, lentRecords_cons_lent, List.head?_cons]
  simp only [Option.filter_some, hnow, decide_true, if_true]

theorem Queued.pop_stored {task : Task Owned Context Call}
    (h : Queued pool (.stored task :: waiting)) :
    pool.pop.1 = some task ∧ pool.pop.2.records = pool.records ∧ Queued pool.pop.2 waiting := by
  have hring := h.ring
  rw [storedTasks_cons_stored] at hring
  obtain ⟨hfirst, hrest⟩ := hring.pop
  rw [pop, h.turn_stored]
  refine ⟨hfirst, rfl, ?_⟩
  exact {
    ring := hrest
    capacity_le := h.capacity_le
    chain := h.chain
    tail := h.tail
    nodup := h.nodup
    queued := h.queued
    callable := h.callable
    sequence := fun place record hplace =>
      (h.sequence (place + 1) record hplace).trans (ofNat_succ _ _)
    submitted := h.submitted.trans (ofNat_succ _ _) }

theorem Queued.pop_lent {record : Record} (h : Queued pool (.lent record :: waiting)) :
    pool.pop.1 = invocation (pool.records record) ∧
      pool.pop.2.records = Function.update pool.records record (pool.records record).leave ∧
      Queued pool.pop.2 waiting := by
  have hnodup := h.nodup
  have hchain := h.chain
  rw [lentRecords_cons_lent] at hnodup hchain
  obtain ⟨hfresh, hnodup⟩ := List.nodup_cons.mp hnodup
  have hkept : ∀ other ∈ lentRecords waiting,
      Function.update pool.records record (pool.records record).leave other =
        pool.records other := fun other hother =>
    Function.update_of_ne (ne_of_mem_of_not_mem hother hfresh) _ _
  rw [pop, h.turn_lent]
  refine ⟨rfl, rfl, ?_⟩
  exact {
    ring := h.ring
    capacity_le := h.capacity_le
    chain := hchain.2.congr fun other hother => congrArg BorrowedTask.next (hkept other hother)
    tail := by
      have hnext : (pool.records record).next = (lentRecords waiting).head? := hchain.2.head?_eq
      have htail := h.tail
      rw [lentRecords_cons_lent] at htail
      change (if (pool.records record).next = none then none else pool.borrowedTail) = _
      rw [hnext, htail]
      cases lentRecords waiting with
      | nil => rfl
      | cons second rest => exact List.getLast?_cons_cons
    nodup := hnodup
    queued := fun other => by
      change (Function.update pool.records record _ other).queued = true ↔ _
      rcases eq_or_ne other record with rfl | hne
      · rw [Function.update_self]
        exact iff_of_false Bool.false_ne_true hfresh
      · rw [Function.update_of_ne hne, h.queued, lentRecords_cons_lent, List.mem_cons,
          or_iff_right hne]
    callable := fun other hother => by
      change (Function.update pool.records record _ other).call ≠ none
      rw [hkept other hother]
      exact h.callable other (List.mem_cons_of_mem _ hother)
    sequence := fun place other hplace => by
      have hmem := (mem_lentRecords waiting other).mpr (List.mem_of_getElem? hplace)
      change (Function.update pool.records record _ other).sequence = _
      rw [hkept other hmem]
      exact (h.sequence (place + 1) other hplace).trans (ofNat_succ _ _)
    submitted := h.submitted.trans (ofNat_succ _ _) }

theorem Queued.makeRoom {allocates : Bool} (h : Queued pool waiting)
    (hroom : pool.makeRoom allocates = .ok next) :
    Queued next waiting ∧ next.tasks.size < next.capacity ∧ next.records = pool.records := by
  rw [WorkerPool.makeRoom] at hroom
  split at hroom
  next hfull =>
    split at hroom
    · cases hroom
    next hcapacity =>
      split at hroom
      · cases hroom
        have hcapacity : pool.capacity * 2 ≤ maximumTasks := by omega
        have hread := h.ring.read_lt
        have hgrown : pool.capacity ≤ max 1 (pool.capacity * 2) := by omega
        refine ⟨?_, ?_, rfl⟩
        · exact { h with
            ring := h.ring.grow hgrown
            capacity_le := Nat.max_le.mpr ⟨by decide, hcapacity⟩ }
        · change pool.tasks.size < max 1 (pool.capacity * 2)
          omega
      · cases hroom
  next hroomy =>
    cases hroom
    exact ⟨h, Nat.lt_of_le_of_ne h.ring.size_le hroomy, rfl⟩

theorem Queued.push {task : Task Owned Context Call} {allocates : Bool} (h : Queued pool waiting)
    (hpush : pool.push task allocates = .ok next) :
    Queued next (waiting ++ [.stored task]) ∧ next.records = pool.records := by
  rw [WorkerPool.push] at hpush
  cases hroom : pool.makeRoom allocates with
  | error failure =>
      rw [hroom] at hpush
      cases hpush
  | ok roomy =>
      rw [hroom] at hpush
      obtain ⟨hroomy, hsize, hrecords⟩ := h.makeRoom hroom
      cases hpush
      refine ⟨?_, hrecords⟩
      exact {
        ring := by
          rw [storedTasks_concat_stored]
          exact hroomy.ring.push hsize
        capacity_le := hroomy.capacity_le
        chain := by
          rw [lentRecords_concat_stored]
          exact hroomy.chain
        tail := by
          rw [lentRecords_concat_stored]
          exact hroomy.tail
        nodup := by
          rw [lentRecords_concat_stored]
          exact hroomy.nodup
        queued := by
          rw [lentRecords_concat_stored]
          exact hroomy.queued
        callable := by
          rw [lentRecords_concat_stored]
          exact hroomy.callable
        sequence := fun place record hplace => by
          refine hroomy.sequence place record ?_
          rw [List.getElem?_append] at hplace
          split at hplace
          · exact hplace
          · have hlast := List.mem_of_getElem? hplace
            rw [List.mem_singleton] at hlast
            cases hlast
        submitted := by
          rw [List.length_append, List.length_singleton]
          exact submitted_succ hroomy.submitted }

/-- What `link` leaves of a record: the new one entered, the last one pointing at it. -/
theorem Queued.link_records {record : Record} (h : Queued pool waiting)
    (hfresh : record ∉ lentRecords waiting) :
    pool.link record record = (pool.records record).enter pool.submitted ∧
      (∀ last, (lentRecords waiting).getLast? = some last →
        pool.link record last = (pool.records last).pointAt record) ∧
      ∀ other, other ≠ record → (lentRecords waiting).getLast? ≠ some other →
        pool.link record other = pool.records other := by
  have hlast : ∀ last, (lentRecords waiting).getLast? = some last → last ≠ record :=
    fun last hlast => ne_of_mem_of_not_mem (List.mem_of_getLast? hlast) hfresh
  rw [link, h.tail]
  cases htail : (lentRecords waiting).getLast? with
  | none =>
      exact ⟨Function.update_self _ _ _, nofun, fun other hne _ => Function.update_of_ne hne _ _⟩
  | some tail =>
      have hne := hlast tail htail
      dsimp only
      refine ⟨?_, fun last heq => ?_, fun other hother htailed => ?_⟩
      · rw [Function.update_of_ne hne.symm, Function.update_self]
      · cases heq
        rw [Function.update_self, Function.update_of_ne hne]
      · rw [Function.update_of_ne (fun heq => htailed (congrArg some heq.symm)),
          Function.update_of_ne hother]

theorem Queued.enqueueRecord {record : Record} (h : Queued pool waiting)
    (hadmitted : pool.enqueueRecord record = .ok next) :
    Queued next (waiting ++ [.lent record]) ∧
      (∀ other, (invocation (next.records other) : Option (Task Owned Context Call)) =
        invocation (pool.records other)) ∧
      (pool.records record).call ≠ none := by
  rw [WorkerPool.enqueueRecord] at hadmitted
  split at hadmitted
  · cases hadmitted
  next hcall =>
    rw [Option.isNone_iff_eq_none] at hcall
    obtain ⟨⟨⟩, -, hadmitted⟩ := bind_eq_ok.mp hadmitted
    split at hadmitted
    · cases hadmitted
    next hunqueued =>
      have hfresh : record ∉ lentRecords waiting := fun hmem => hunqueued ((h.queued record).mpr hmem)
      obtain ⟨hentered, hlast, hkept⟩ := h.link_records hfresh
      have hother : ∀ other ≠ record, (pool.link record other).sequence =
          (pool.records other).sequence ∧ (pool.link record other).queued =
            (pool.records other).queued := by
        intro other hne
        by_cases htail : (lentRecords waiting).getLast? = some other
        · rw [hlast other htail]
          exact ⟨rfl, rfl⟩
        · rw [hkept other hne htail]
          exact ⟨rfl, rfl⟩
      have hinvocation : ∀ other,
          (invocation (pool.link record other) : Option (Task Owned Context Call)) =
            invocation (pool.records other) ∧
            (pool.link record other).call = (pool.records other).call := by
        intro other
        rcases eq_or_ne other record with rfl | hne
        · rw [hentered]
          exact ⟨rfl, rfl⟩
        by_cases htail : (lentRecords waiting).getLast? = some other
        · rw [hlast other htail]
          exact ⟨rfl, rfl⟩
        · rw [hkept other hne htail]
          exact ⟨rfl, rfl⟩
      have hhead : (if pool.borrowedTail.isSome then pool.borrowedHead else some record) =
          pool.borrowedHead.or (some record) := by
        rw [h.tail, h.chain.head?_eq]
        cases lentRecords waiting with
        | nil => rfl
        | cons first rest => rw [List.getLast?_cons]; rfl
      cases hadmitted
      refine ⟨?_, fun other => (hinvocation other).1, hcall⟩
      exact {
        ring := by
          rw [storedTasks_concat_lent]
          exact h.ring
        capacity_le := h.capacity_le
        chain := by
          rw [lentRecords_concat_lent]
          change SinglyLinked _ (if pool.borrowedTail.isSome then _ else _) _
          rw [hhead]
          refine h.chain.concat h.nodup (congrArg BorrowedTask.next hentered)
            (fun last heq => congrArg BorrowedTask.next (hlast last heq)) fun other hmem htail => ?_
          exact congrArg BorrowedTask.next (hkept other (ne_of_mem_of_not_mem hmem hfresh) htail)
        tail := by
          rw [lentRecords_concat_lent, List.getLast?_concat]
        nodup := by
          rw [lentRecords_concat_lent, List.nodup_append]
          exact ⟨h.nodup, List.nodup_singleton _, fun other hmem last hlast =>
            List.mem_singleton.mp hlast ▸ ne_of_mem_of_not_mem hmem hfresh⟩
        queued := fun other => by
          rw [lentRecords_concat_lent, List.mem_append, List.mem_singleton]
          change (pool.link record other).queued = true ↔ _
          rcases eq_or_ne other record with rfl | hne
          · rw [hentered]
            exact iff_of_true rfl (.inr rfl)
          · rw [(hother other hne).2, h.queued, or_iff_left hne]
        callable := fun other hmem => by
          rw [lentRecords_concat_lent, List.mem_append, List.mem_singleton] at hmem
          change (pool.link record other).call ≠ none
          rw [(hinvocation other).2]
          rcases hmem with hmem | rfl
          · exact h.callable other hmem
          · exact hcall
        sequence := fun place other hplace => by
          change (pool.link record other).sequence = pool.dispatched + _
          rw [List.getElem?_append] at hplace
          split at hplace
          next hless =>
            have hmem := (mem_lentRecords waiting other).mpr (List.mem_of_getElem? hplace)
            rw [(hother other (ne_of_mem_of_not_mem hmem hfresh)).1]
            exact h.sequence place other hplace
          next hbehind =>
            obtain ⟨hlast, heq⟩ := List.getElem?_eq_some_iff.mp hplace
            rw [List.length_singleton] at hlast
            rw [List.getElem_singleton] at heq
            cases heq
            obtain rfl : place = waiting.length := by omega
            rw [hentered]
            exact h.submitted
        submitted := by
          rw [List.length_append, List.length_singleton]
          exact submitted_succ h.submitted }

/-- A record built where none is queued leaves the queue alone. -/
theorem Queued.construct {record : Record} (h : Queued pool waiting)
    (hunqueued : (pool.records record).queued ≠ true) {made : BorrowedTask Context Call}
    (hmade : made.queued = false) :
    Queued { pool with records := Function.update pool.records record made } waiting ∧
      ∀ other ∈ lentRecords waiting,
        Function.update pool.records record made other = pool.records other := by
  have hfresh : record ∉ lentRecords waiting := fun hmem => hunqueued ((h.queued record).mpr hmem)
  have hkept : ∀ other ∈ lentRecords waiting,
      Function.update pool.records record made other = pool.records other := fun other hother =>
    Function.update_of_ne (ne_of_mem_of_not_mem hother hfresh) _ _
  refine ⟨?_, hkept⟩
  exact { h with
    chain := h.chain.congr fun other hother => congrArg BorrowedTask.next (hkept other hother)
    queued := fun other => by
      change (Function.update pool.records record made other).queued = true ↔ _
      rcases eq_or_ne other record with rfl | hne
      · rw [Function.update_self, hmade]
        exact iff_of_false Bool.false_ne_true hfresh
      · rw [Function.update_of_ne hne]
        exact h.queued other
    callable := fun other hother => by
      change (Function.update pool.records record made other).call ≠ none
      rw [hkept other hother]
      exact h.callable other hother
    sequence := fun place other hplace => by
      change (Function.update pool.records record made other).sequence = _
      rw [hkept other ((mem_lentRecords waiting other).mpr (List.mem_of_getElem? hplace))]
      exact h.sequence place other hplace }

/-! ### The queue its callers see -/

/-- One step of a first-in, first-out queue with this answer. -/
inductive FifoStep : List (Task Owned Context Call) → PoolAnswer Owned Context Call Error →
    List (Task Owned Context Call) → Prop where
  | accepted (tasks : List (Task Owned Context Call)) (task : Task Owned Context Call) :
      FifoStep tasks (.accepted task) (tasks ++ [task])
  | taken (task : Task Owned Context Call) (tasks : List (Task Owned Context Call)) :
      FifoStep (task :: tasks) (.taken (some task)) tasks
  | idle : FifoStep [] .idle []
  | refused (tasks : List (Task Owned Context Call)) (failure : PoolFailure Error) :
      FifoStep tasks (.refused failure) tasks
  | done (tasks : List (Task Owned Context Call)) : FifoStep tasks .done tasks

/-- The tasks that wait, whichever way each of them is kept. -/
def Holds (pool : WorkerPool Owned Context Call Error) (tasks : List (Task Owned Context Call)) :
    Prop :=
  ∃ waiting, Queued pool waiting ∧ waiting.map (Entry.invocation pool.records) = tasks.map some

variable {tasks : List (Task Owned Context Call)}

theorem map_invocation_congr {records others : Record → BorrowedTask Context Call}
    (h : ∀ record ∈ lentRecords waiting,
      (invocation (records record) : Option (Task Owned Context Call)) =
        invocation (others record)) :
    waiting.map (Entry.invocation records) = waiting.map (Entry.invocation others) :=
  List.map_congr_left fun entry hentry => by
    cases entry with
    | stored task => rfl
    | lent record => exact h record ((mem_lentRecords waiting record).mpr hentry)

theorem Holds.push {task : Task Owned Context Call} {allocates : Bool} (h : Holds pool tasks)
    (hpush : pool.push task allocates = .ok next) : Holds next (tasks ++ [task]) := by
  obtain ⟨waiting, hqueued, htasks⟩ := h
  obtain ⟨hnext, hrecords⟩ := hqueued.push hpush
  refine ⟨_, hnext, ?_⟩
  rw [hrecords, List.map_append, htasks, List.map_append]
  rfl

theorem Holds.enqueueRecord {record : Record} (h : Holds pool tasks)
    (hadmitted : pool.enqueueRecord record = .ok next) :
    ∃ task, invocation (pool.records record) = some task ∧ Holds next (tasks ++ [task]) := by
  obtain ⟨waiting, hqueued, htasks⟩ := h
  obtain ⟨hnext, hrecords, hcall⟩ := hqueued.enqueueRecord hadmitted
  obtain ⟨call, hsome⟩ := Option.ne_none_iff_exists'.mp hcall
  have htask : invocation (pool.records record) =
      some (.borrowed (pool.records record).context (pool.records record).index call :
        Task Owned Context Call) := by
    rw [invocation, hsome]
    rfl
  refine ⟨_, htask, _, hnext, ?_⟩
  rw [List.map_append, List.map_append, map_invocation_congr fun other _ => hrecords other, htasks]
  change _ ++ [invocation (next.records record)] = _
  rw [hrecords, htask]
  rfl

theorem Holds.construct {record : Record} (h : Holds pool tasks)
    (hunqueued : (pool.records record).queued ≠ true) {made : BorrowedTask Context Call}
    (hmade : made.queued = false) :
    Holds { pool with records := Function.update pool.records record made } tasks := by
  obtain ⟨waiting, hqueued, htasks⟩ := h
  obtain ⟨hnext, hkept⟩ := hqueued.construct hunqueued hmade
  refine ⟨waiting, hnext, ?_⟩
  rw [← htasks]
  exact map_invocation_congr fun other hother => congrArg invocation (hkept other hother)

theorem Holds.empty_iff (h : Holds pool tasks) : pool.empty = true ↔ tasks = [] := by
  obtain ⟨waiting, hqueued, htasks⟩ := h
  rw [hqueued.empty_iff, ← List.map_eq_nil_iff, htasks, List.map_eq_nil_iff]

/-- The oldest task comes out, and the others stay. -/
theorem Holds.pop {task : Task Owned Context Call} (h : Holds pool (task :: tasks)) :
    pool.pop.1 = some task ∧ Holds pool.pop.2 tasks := by
  obtain ⟨waiting, hqueued, htasks⟩ := h
  cases waiting with
  | nil => cases htasks
  | cons entry rest =>
      obtain ⟨hfirst, hrest⟩ := List.cons.inj htasks
      cases entry with
      | stored stored =>
          obtain ⟨htask, hrecords, hnext⟩ := hqueued.pop_stored
          exact ⟨htask.trans hfirst, rest, hnext, hrecords ▸ hrest⟩
      | lent record =>
          obtain ⟨htask, hrecords, hnext⟩ := hqueued.pop_lent
          have hfresh := hqueued.nodup
          rw [lentRecords_cons_lent] at hfresh
          refine ⟨htask.trans hfirst, rest, hnext, ?_⟩
          rw [hrecords, ← hrest]
          refine map_invocation_congr fun other hother => ?_
          rw [Function.update_of_ne (ne_of_mem_of_not_mem hother (List.nodup_cons.mp hfresh).1)]

theorem Holds.admitted {task : Option (Task Owned Context Call)}
    {result : Except (PoolFailure Error) (WorkerPool Owned Context Call Error)}
    (h : Holds pool tasks)
    (haccepted : ∀ next, result = .ok next → ∃ made, task = some made ∧
      Holds next (tasks ++ [made])) :
    ∃ after, FifoStep tasks (admitted pool task result).1 after ∧
      Holds (admitted pool task result).2 after := by
  cases result with
  | error failure => exact ⟨tasks, .refused tasks failure, h⟩
  | ok next =>
      obtain ⟨made, rfl, hnext⟩ := haccepted next rfl
      exact ⟨_, .accepted tasks made, hnext⟩

/-- Whatever happens to the pool is a step of the queue. -/
theorem Holds.step (h : Holds pool tasks) (event : PoolEvent Owned Context Call Error) :
    ∃ after, FifoStep tasks (pool.step event).1 after ∧ Holds (pool.step event).2 after := by
  cases event with
  | enqueueDetached function allocates =>
      refine h.admitted fun next hnext => ⟨_, rfl, ?_⟩
      rw [WorkerPool.enqueueDetached] at hnext
      split at hnext
      · cases hnext
      · split at hnext
        · cases hnext
        · exact h.push hnext
  | enqueueCall context index call allocates =>
      refine h.admitted fun next hnext => ?_
      cases call with
      | none => cases hnext
      | some call =>
          obtain ⟨⟨⟩, -, hpush⟩ := bind_eq_ok.mp hnext
          exact ⟨_, rfl, h.push hpush⟩
  | enqueueRecord record => exact h.admitted fun next hnext => h.enqueueRecord hnext
  | construct record context index call =>
      rw [WorkerPool.step]
      split
      next => exact ⟨tasks, .done tasks, h⟩
      next hunqueued => exact ⟨tasks, .done tasks, h.construct hunqueued rfl⟩
  | take =>
      rw [WorkerPool.step]
      split
      next hempty =>
        obtain rfl := h.empty_iff.mp hempty
        exact ⟨[], .idle, h⟩
      next hsome =>
        cases tasks with
        | nil => exact absurd (h.empty_iff.mpr rfl) hsome
        | cons task rest =>
            obtain ⟨htask, hnext⟩ := h.pop
            refine ⟨rest, ?_, hnext⟩
            dsimp only
            rw [htask]
            exact .taken task rest
  | throws error =>
      obtain ⟨waiting, hqueued, htasks⟩ := h
      exact ⟨tasks, .done tasks, waiting, { hqueued with }, htasks⟩
  | shutdown =>
      obtain ⟨waiting, hqueued, htasks⟩ := h
      exact ⟨tasks, .done tasks, waiting, { hqueued with }, htasks⟩

theorem Holds.take (h : Holds pool tasks) :
    (pool.step .take).1 = match tasks.head? with
      | some task => .taken (some task)
      | none => .idle := by
  rw [WorkerPool.step]
  cases tasks with
  | nil => rw [if_pos (h.empty_iff.mpr rfl)]; rfl
  | cons task rest =>
      rw [if_neg (mt h.empty_iff.mp (List.cons_ne_nil _ _))]
      exact congrArg PoolAnswer.taken h.pop.1

/-! ### Whole runs -/

def PoolAnswer.accepted? : PoolAnswer Owned Context Call Error → Option (Task Owned Context Call)
  | .accepted task => some task
  | _ => none

def PoolAnswer.taken? :
    PoolAnswer Owned Context Call Error → Option (Option (Task Owned Context Call))
  | .taken task => some task
  | _ => none

/-- The submissions that were accepted, in their order. -/
def acceptedTasks (answers : List (PoolAnswer Owned Context Call Error)) :
    List (Task Owned Context Call) :=
  answers.filterMap PoolAnswer.accepted?

/-- What the workers took, in their order. -/
def takenTasks (answers : List (PoolAnswer Owned Context Call Error)) :
    List (Option (Task Owned Context Call)) :=
  answers.filterMap PoolAnswer.taken?

theorem FifoStep.counts {answer : PoolAnswer Owned Context Call Error}
    {after : List (Task Owned Context Call)} (h : FifoStep tasks answer after) :
    (tasks ++ acceptedTasks [answer]).map some = takenTasks [answer] ++ after.map some := by
  cases h with
  | accepted => rfl
  | taken => rw [acceptedTasks, takenTasks]; simp [PoolAnswer.accepted?, PoolAnswer.taken?]
  | idle => rfl
  | refused => exact congrArg _ (List.append_nil _)
  | done => exact congrArg _ (List.append_nil _)

theorem Holds.run (h : Holds pool tasks) (events : List (PoolEvent Owned Context Call Error)) :
    ∃ after, Holds (pool.run events).2 after ∧
      (tasks ++ acceptedTasks (pool.run events).1).map some =
        takenTasks (pool.run events).1 ++ after.map some := by
  induction events generalizing pool tasks with
  | nil => exact ⟨tasks, h, congrArg _ (List.append_nil _)⟩
  | cons event rest ih =>
      obtain ⟨between, hstep, hbetween⟩ := h.step event
      obtain ⟨after, hafter, hlater⟩ := ih hbetween
      have hcounts := hstep.counts
      refine ⟨after, hafter, ?_⟩
      have haccepted : acceptedTasks (pool.run (event :: rest)).1 =
          acceptedTasks [(pool.step event).1] ++
            acceptedTasks ((pool.step event).2.run rest).1 :=
        List.filterMap_append (l := [_])
      have htaken : takenTasks (pool.run (event :: rest)).1 =
          takenTasks [(pool.step event).1] ++ takenTasks ((pool.step event).2.run rest).1 :=
        List.filterMap_append (l := [_])
      rw [haccepted, htaken, ← List.append_assoc, List.map_append, hcounts, List.append_assoc,
        ← List.map_append, hlater, List.append_assoc]

theorem run_append (pool : WorkerPool Owned Context Call Error)
    (events later : List (PoolEvent Owned Context Call Error)) :
    pool.run (events ++ later) =
      ((pool.run events).1 ++ ((pool.run events).2.run later).1,
        ((pool.run events).2.run later).2) := by
  induction events generalizing pool with
  | nil => rfl
  | cons event rest ih =>
      rw [List.cons_append, run, ih]
      rfl

/-- As many workers as there are tasks take them all. -/
theorem Holds.drain (h : Holds pool tasks) :
    takenTasks (pool.run (List.replicate tasks.length .take)).1 = tasks.map some ∧
      acceptedTasks (pool.run (List.replicate tasks.length .take)).1 = [] := by
  induction tasks generalizing pool with
  | nil => exact ⟨rfl, rfl⟩
  | cons task rest ih =>
      have htaken := h.take
      obtain ⟨after, hstep, hafter⟩ := h.step .take
      rw [List.head?_cons] at htaken
      dsimp only at htaken
      rw [htaken] at hstep
      cases hstep
      obtain ⟨hlater, hnone⟩ := ih hafter
      rw [List.length_cons, List.replicate_succ, WorkerPool.run]
      dsimp only
      rw [htaken]
      exact ⟨congrArg (some task :: ·) hlater, hnone⟩

end Invariant

theorem create_holds {workerCount cpus queuedCapacity : Nat} {placed : Bool}
    {arguments : Record → Context × Nat × Option Call}
    {pool : WorkerPool Owned Context Call Error}
    (h : create workerCount cpus queuedCapacity placed arguments = .ok pool) : Holds pool [] := by
  rw [create] at h
  split at h
  · cases h
  next hcount =>
    dsimp only at h
    split at h
    next hcapacity =>
      have hpos : 0 < max queuedCapacity (actualWorkerCount workerCount cpus placed) := by
        rw [actualWorkerCount]
        split <;> omega
      cases h
      refine ⟨[], ?_, rfl⟩
      exact {
        ring := .empty hpos
        capacity_le := hcapacity
        chain := rfl
        tail := rfl
        nodup := List.nodup_nil
        queued := fun _ => iff_of_false Bool.false_ne_true List.not_mem_nil
        callable := fun _ hmem => absurd hmem List.not_mem_nil
        sequence := fun _ _ h => nomatch h
        submitted := rfl }
    next => cases h

/-- However submissions of both forms, growth, refusals and takings follow one another, what was
taken is a first part of what was accepted, in its order; the next taking yields the next task, or
finds that there is none; and as many takings as tasks are missing yield all of them. -/
theorem run_fifo {workerCount cpus queuedCapacity : Nat} {placed : Bool}
    {arguments : Record → Context × Nat × Option Call}
    {pool : WorkerPool Owned Context Call Error}
    (hcreate : create workerCount cpus queuedCapacity placed arguments = .ok pool)
    (events : List (PoolEvent Owned Context Call Error)) :
    let reached := pool.run events
    let accepted := acceptedTasks reached.1
    let taken := takenTasks reached.1
    taken <+: accepted.map some ∧
      (reached.2.step .take).1 =
        (match accepted[taken.length]? with
          | some task => .taken (some task)
          | none => .idle) ∧
      takenTasks (pool.run
        (events ++ List.replicate (accepted.length - taken.length) .take)).1 =
          accepted.map some := by
  intro reached accepted taken
  obtain ⟨after, hafter, hcounts⟩ := (create_holds hcreate).run events
  have hsplit : accepted.map some = taken ++ after.map some := hcounts
  have hlength : accepted.length = taken.length + after.length := by
    have hlengths := congrArg List.length hsplit
    rwa [List.length_map, List.length_append, List.length_map] at hlengths
  have hnext : accepted[taken.length]? = after.head? := by
    have hplace := congrArg (fun list => list[taken.length]?) hsplit
    simp only [List.getElem?_map, List.getElem?_append_right (Nat.le_refl _), Nat.sub_self] at hplace
    rw [← List.head?_eq_getElem?] at hplace
    exact Option.map_injective (Option.some_injective _) hplace
  refine ⟨⟨_, hsplit.symm⟩, ?_, ?_⟩
  · rw [hnext]
    exact hafter.take
  · have hmissing : accepted.length - taken.length = after.length := by omega
    rw [hmissing, run_append, takenTasks, List.filterMap_append, hsplit]
    exact congrArg (taken ++ ·) hafter.drain.1

/-- Both forms in turns, with the ring growing while a record waits: out they come as they went
in. -/
theorem run_fifo_pair :
    let pool : WorkerPool Nat Nat Nat Nat :=
      ⟨1, .empty, fun record => .make record.val 0 (some 7), none, none, 0, 0, false, none⟩
    let events : List (PoolEvent Nat Nat Nat Nat) :=
      [.enqueueDetached (some 1) true, .enqueueRecord 3, .enqueueCall 2 5 (some 9) true,
        .enqueueRecord 3, .take, .take, .enqueueRecord 3]
    acceptedTasks (pool.run events).1 =
        [.owned (some 1), .borrowed 3 0 7, .borrowed 2 5 9, .borrowed 3 0 7] ∧
      takenTasks (pool.run events).1 <+: (acceptedTasks (pool.run events).1).map some := by
  intro pool events
  have hcreate : create 1 1 0 true (fun record => (record.val, 0, some 7)) = .ok pool := rfl
  exact ⟨by decide, (run_fifo hcreate events).1⟩

end WorkerPool

end Mmltk.Concurrency
