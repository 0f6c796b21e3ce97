import Mmltk.Storage.Reservation

namespace Mmltk.Storage

open Mmltk.Foundation

/-! What the live reservations of one filesystem still owe. -/

def Reservation.share (filesystem : Filesystem) (reservation : Reservation) : Nat :=
  if reservation.destination = some filesystem then reservation.outstanding else 0

theorem Reservation.outstanding_eq (reservation : Reservation) :
    reservation.outstanding = reservation.promised - reservation.allocated := by
  rw [outstanding]
  split
  · rfl
  · omega

theorem Reservation.share_empty {filesystem : Filesystem} (reservation : Reservation)
    (h : reservation.destination = none) : reservation.share filesystem = 0 := by
  rw [share, h, if_neg (by simp)]

theorem Reservation.share_self {filesystem : Filesystem} (reservation : Reservation)
    (h : reservation.destination = some filesystem) :
    reservation.share filesystem = reservation.outstanding := by
  rw [share, if_pos h]

theorem Reservation.share_other {filesystem other : Filesystem} {reservation : Reservation}
    (h : reservation.destination = some filesystem) (hne : other ≠ filesystem) :
    reservation.share other = 0 := by
  rw [share, if_neg]
  rw [h]
  intro heq
  exact hne (Option.some.inj heq).symm

structure Ledgers.Balanced (ledgers : Ledgers) : Prop where
  sum : ∀ filesystem, ledgers.outstanding filesystem =
    ledgers.reservations.total (Reservation.share filesystem)
  bounded : ∀ filesystem, ledgers.outstanding filesystem < wordLimit

namespace Ledgers

variable {ledgers : Ledgers} {filesystem : Filesystem} {id : Nat}

theorem Balanced.initial : Ledgers.initial.Balanced where
  sum _ := rfl
  bounded _ := by
    show 0 < wordLimit
    decide

/-- What a live reservation owes is part of what its filesystem is owed. -/
theorem Balanced.covers (h : ledgers.Balanced) (hlive : id ∈ ledgers.reservations.live)
    (hdestination : (ledgers.reservations.get id).destination = some filesystem) :
    (ledgers.reservations.get id).outstanding ≤ ledgers.outstanding filesystem := by
  rw [h.sum, ← Reservation.share_self _ hdestination]
  exact Store.le_total _ hlive

theorem Balanced.construct (h : ledgers.Balanced) (hfree : id ∉ ledgers.reservations.live)
    {reservation : Reservation} (hempty : reservation.destination = none) :
    Balanced { ledgers with reservations := ledgers.reservations.construct id reservation } where
  sum filesystem := by
    show ledgers.outstanding filesystem = _
    rw [Store.total_construct _ _ hfree, Reservation.share_empty _ hempty, h.sum]
    rfl
  bounded := h.bounded

/-! The filesystem's value and one reservation's fields move together. -/

theorem Balanced.exchange (h : ledgers.Balanced) (hlive : id ∈ ledgers.reservations.live)
    (hdestination : (ledgers.reservations.get id).destination = some filesystem)
    {change : Reservation → Reservation} {outstanding : Nat}
    (hsame : ∀ other, other ≠ filesystem →
      (change (ledgers.reservations.get id)).share other = 0)
    (hsum : outstanding = ledgers.outstanding filesystem - (ledgers.reservations.get id).outstanding +
      (change (ledgers.reservations.get id)).share filesystem)
    (hbounded : outstanding < wordLimit) :
    Balanced { ledgers.setOutstanding filesystem outstanding with
      reservations := ledgers.reservations.modify id change } where
  sum other := by
    have hmodify := Store.total_modify (Reservation.share other) change hlive
    show Function.update ledgers.outstanding filesystem outstanding other =
      (ledgers.reservations.modify id change).total _
    by_cases heq : other = filesystem
    · subst heq
      rw [Function.update_self, hsum]
      rw [Reservation.share_self _ hdestination] at hmodify
      have hcovers := h.covers hlive hdestination
      have htotal := h.sum other
      omega
    · rw [Function.update_of_ne heq, h.sum]
      rw [Reservation.share_other hdestination heq, hsame other heq] at hmodify
      exact hmodify.symm
  bounded other := by
    show Function.update ledgers.outstanding filesystem outstanding other < _
    by_cases heq : other = filesystem
    · rw [heq, Function.update_self]
      exact hbounded
    · rw [Function.update_of_ne heq]
      exact h.bounded other

/-! `Filesystem::replace` -/

theorem checkedAdd_ok {left right sum : Nat} {message : String}
    (h : checkedAdd left right message = .ok sum) : sum = left + right ∧ sum < wordLimit := by
  rw [checkedAdd] at h
  split at h
  · next hlt =>
      cases h
      exact ⟨rfl, hlt⟩
  · cases h

theorem checkCapacity_ok {available reserved required : Nat} {description : String}
    (h : checkCapacity available reserved required description = .ok ()) :
    reserved + required ≤ available := by
  rw [checkCapacity] at h
  split at h
  · cases h
  · omega

theorem admit_ok {previous required outstanding : Nat} {sample : Bool} {status : VolumeStatus}
    {description : String} (hprevious : previous ≤ ledgers.outstanding filesystem)
    (h : ledgers.admitOutstanding filesystem previous required sample status description = .ok outstanding) :
    outstanding = ledgers.outstanding filesystem - previous + required ∧ outstanding < wordLimit ∧
      (sample = true ∨ required > previous → required ≠ 0 →
        ∃ available, availableBytes status = .ok available ∧ outstanding ≤ available) := by
  rw [admitOutstanding, wordSub_of_le hprevious] at h
  simp only at h
  split at h
  · next hsample =>
      cases havailable : availableBytes status with
      | error failure =>
          rw [havailable] at h
          cases h
      | ok available =>
          rw [havailable] at h
          change (if required ≠ 0 then _ else _) = _ at h
          split at h
          · next hrequired =>
              cases hcheck : checkCapacity available (ledgers.outstanding filesystem - previous)
                  required description with
              | error failure =>
                  rw [hcheck] at h
                  cases h
              | ok _ =>
                  rw [hcheck] at h
                  have hsum := checkedAdd_ok h
                  have hcapacity := checkCapacity_ok hcheck
                  refine ⟨hsum.1, hsum.2, fun _ _ => ⟨available, rfl, ?_⟩⟩
                  rw [hsum.1]
                  exact hcapacity
          · next hzero =>
              have hsum := checkedAdd_ok h
              exact ⟨hsum.1, hsum.2, fun _ hrequired => absurd hrequired hzero⟩
  · next hsample =>
      have hsum := checkedAdd_ok h
      exact ⟨hsum.1, hsum.2, fun hsampled => absurd hsampled hsample⟩

/-! Every operation, with what it leaves behind when it stops. -/

/-- A stopped operation has changed nothing; a finished one keeps the sums. -/
structure Sound (ledgers : Ledgers) (settled : Settled) : Prop where
  unchanged : settled.failure ≠ none → settled.ledgers = ledgers
  balanced : settled.ledgers.Balanced

theorem Sound.stop (h : ledgers.Balanced) (failure : StorageFailure) :
    Sound ledgers ⟨ledgers, some failure⟩ := ⟨fun _ => rfl, h⟩

theorem Sound.done {after : Ledgers} (h : after.Balanced) : Sound ledgers (.done after) :=
  ⟨fun hfailure => absurd rfl hfailure, h⟩

/-- What a finished `replace` leaves in the reservation and in its filesystem. -/
structure Replaced (ledgers : Ledgers) (id promised allocated : Nat) (sample : Bool)
    (status : VolumeStatus) (settled : Settled) : Prop where
  filesystem : ∃ filesystem, (ledgers.reservations.get id).destination = some filesystem ∧
    (settled.ledgers.reservations.get id).destination = some filesystem ∧
    (sample = true ∨ promised - allocated > (ledgers.reservations.get id).outstanding →
      promised - allocated ≠ 0 → ∃ available, availableBytes status = .ok available ∧
        settled.ledgers.outstanding filesystem ≤ available)
  promised : (settled.ledgers.reservations.get id).promised = promised
  allocated : (settled.ledgers.reservations.get id).allocated = allocated

theorem replace_sound (h : ledgers.Balanced) (hlive : id ∈ ledgers.reservations.live)
    (promised allocated : Nat) (description : String) (sample : Bool) (status : VolumeStatus) :
    Sound ledgers (ledgers.replace id promised allocated description sample status) ∧
      ((ledgers.replace id promised allocated description sample status).failure = none →
        Replaced ledgers id promised allocated sample status
          (ledgers.replace id promised allocated description sample status)) := by
  rw [replace]
  cases hdestination : (ledgers.reservations.get id).destination with
  | none => exact ⟨.stop h _, fun hnone => nomatch hnone⟩
  | some filesystem =>
      have hremaining : (if promised > allocated then promised - allocated else 0) =
          promised - allocated := by
        split <;> omega
      simp only [replaceOutstanding, hremaining]
      cases hadmit : ledgers.admitOutstanding filesystem (ledgers.reservations.get id).outstanding
          (promised - allocated) sample status description with
      | error failure => exact ⟨.stop h failure, fun hnone => nomatch hnone⟩
      | ok outstanding =>
          have hspec := admit_ok (h.covers hlive hdestination) hadmit
          have hreplaced : Balanced { ledgers.setOutstanding filesystem outstanding with
              reservations := ledgers.reservations.modify id fun reservation =>
                { reservation with promised := promised, allocated := allocated } } := by
            apply h.exchange hlive hdestination
            · intro other hne
              exact Reservation.share_other hdestination hne
            · rw [Reservation.share_self
              { ledgers.reservations.get id with
                promised := promised, allocated := allocated } hdestination,
                Reservation.outstanding_eq
                { ledgers.reservations.get id with promised := promised, allocated := allocated }]
              exact hspec.1
            · exact hspec.2.1
          refine ⟨.done hreplaced, fun _ => ⟨⟨filesystem, hdestination, ?_, ?_⟩, ?_, ?_⟩⟩
          · simpa [Settled.done, setOutstanding] using hdestination
          · intro hsample hrequired
            obtain ⟨available, hstatus, hle⟩ := hspec.2.2 hsample hrequired
            refine ⟨available, hstatus, ?_⟩
            show Function.update ledgers.outstanding filesystem outstanding filesystem ≤ _
            rw [Function.update_self]
            exact hle
          · simp [Settled.done, setOutstanding]
          · simp [Settled.done, setOutstanding]

theorem reconcileAllocated_sound (h : ledgers.Balanced) (hlive : id ∈ ledgers.reservations.live)
    (allocated : Nat) : Sound ledgers (ledgers.reconcileAllocated id allocated) := by
  rw [reconcileAllocated]
  cases hdestination : (ledgers.reservations.get id).destination with
  | none => exact .done h
  | some filesystem =>
      have hcovers := h.covers hlive hdestination
      simp only [wordSub_of_le hcovers]
      split
      · next failure hfailure => exact .stop h failure
      · next outstanding hadd =>
          have hsum := checkedAdd_ok hadd
          apply Sound.done
          apply h.exchange hlive hdestination
          · intro other hne
            exact Reservation.share_other hdestination hne
          · rw [Reservation.share_self
              { ledgers.reservations.get id with
              allocated := allocated } hdestination]
            exact hsum.1
          · exact hsum.2

theorem reserve_sound (h : ledgers.Balanced) (hfree : id ∉ ledgers.reservations.live)
    (filesystem : Filesystem) (promised : Nat) (description : String) (allocated : Nat)
    (status : VolumeStatus) :
    Sound ledgers (ledgers.reserve id filesystem promised description allocated status) ∧
      ((ledgers.reserve id filesystem promised description allocated status).failure = none →
        promised - allocated ≠ 0 → ∃ available, availableBytes status = .ok available ∧
          (ledgers.reserve id filesystem promised description allocated status).ledgers.outstanding
            filesystem ≤ available) := by
  have hremaining : (if promised > allocated then promised - allocated else 0) =
      promised - allocated := by
    split <;> omega
  rw [reserve]
  simp only [replaceOutstanding, hremaining]
  cases hadmit : ledgers.admitOutstanding filesystem 0 (promised - allocated) true status description with
  | error failure => exact ⟨.stop h failure, fun hnone => nomatch hnone⟩
  | ok outstanding =>
      have hspec := admit_ok (Nat.zero_le _) hadmit
      refine ⟨.done ⟨fun other => ?_, fun other => ?_⟩, fun _ hrequired => ?_⟩
      · show Function.update ledgers.outstanding filesystem outstanding other =
          (ledgers.reservations.construct id ⟨some filesystem, promised, allocated⟩).total _
        rw [Store.total_construct _ _ hfree]
        by_cases heq : other = filesystem
        · rw [heq, Function.update_self, Reservation.share_self _ rfl,
            Reservation.outstanding_eq ⟨some filesystem, promised, allocated⟩, ← h.sum]
          exact hspec.1
        · rw [Function.update_of_ne heq, Reservation.share_other rfl heq, h.sum]
          rfl
      · show Function.update ledgers.outstanding filesystem outstanding other < _
        by_cases heq : other = filesystem
        · rw [heq, Function.update_self]
          exact hspec.2.1
        · rw [Function.update_of_ne heq]
          exact h.bounded other
      · obtain ⟨available, hstatus, hle⟩ := hspec.2.2 (.inl rfl) hrequired
        refine ⟨available, hstatus, ?_⟩
        show Function.update ledgers.outstanding filesystem outstanding filesystem ≤ _
        rw [Function.update_self]
        exact hle

theorem release_balanced (h : ledgers.Balanced) (hlive : id ∈ ledgers.reservations.live) :
    (ledgers.release id).Balanced ∧
      (ledgers.release id).reservations.live = ledgers.reservations.live ∧
      ((ledgers.release id).reservations.get id).destination = none ∧
      ∀ other, other ≠ id →
        (ledgers.release id).reservations.get other = ledgers.reservations.get other := by
  rw [release]
  cases hdestination : (ledgers.reservations.get id).destination with
  | none => exact ⟨h, rfl, hdestination, fun _ _ => rfl⟩
  | some filesystem =>
      refine ⟨?_, rfl, ?_, ?_⟩
      · apply h.exchange hlive hdestination
        · intro other hne
          exact Reservation.share_empty _ rfl
        · rw [wordSub_of_le (h.covers hlive hdestination), Reservation.share_empty _ rfl]
          rfl
        · rw [wordSub_of_le (h.covers hlive hdestination)]
          exact Nat.lt_of_le_of_lt (Nat.sub_le _ _) (h.bounded filesystem)
      · simp
      · intro other hne
        simp [Store.modify_get_of_ne hne]

theorem moveConstruct_balanced (h : ledgers.Balanced) {other : Nat}
    (hfree : id ∉ ledgers.reservations.live) (hother : other ∈ ledgers.reservations.live) :
    (ledgers.moveConstruct id other).Balanced where
  sum filesystem := by
    have hne : other ≠ id := fun heq => hfree (heq ▸ hother)
    have hconstruct := Store.total_construct (Reservation.share filesystem)
      (ledgers.reservations.get other) hfree
    have hlive : other ∈
        (ledgers.reservations.construct id (ledgers.reservations.get other)).live := by
      simp [hother]
    have hmodify := Store.total_modify (Reservation.share filesystem)
      (fun reservation => { reservation with destination := none }) hlive
    rw [Store.construct_get_of_ne hne] at hmodify
    rw [Reservation.share_empty
              { ledgers.reservations.get other with destination := none } rfl] at hmodify
    have hsum := h.sum filesystem
    exact (hsum.trans (by omega : _ = ((ledgers.reservations.construct id
      (ledgers.reservations.get other)).modify other fun reservation =>
        { reservation with destination := none }).total (Reservation.share filesystem)))
  bounded := h.bounded

theorem moveAssign_balanced (h : ledgers.Balanced) {other : Nat}
    (hlive : id ∈ ledgers.reservations.live) (hother : other ∈ ledgers.reservations.live) :
    (ledgers.moveAssign id other).Balanced := by
  rw [moveAssign]
  split
  · exact h
  next hne =>
  obtain ⟨hbalanced, hsame, hempty, hrest⟩ := release_balanced h hlive
  refine ⟨fun filesystem => ?_, hbalanced.bounded⟩
  have hlive' : id ∈ (ledgers.release id).reservations.live := hsame ▸ hlive
  have hother' : other ∈ ((ledgers.release id).reservations.modify id
      fun _ => (ledgers.release id).reservations.get other).live := by
    rw [Store.modify_live, hsame]
    exact hother
  have hassign := Store.total_modify (Reservation.share filesystem)
    (fun _ => (ledgers.release id).reservations.get other) hlive'
  have hclear := Store.total_modify (Reservation.share filesystem)
    (fun reservation => { reservation with destination := none }) hother'
  rw [Store.modify_get_of_ne (Ne.symm hne)] at hclear
  rw [Reservation.share_empty _ hempty] at hassign
  rw [Reservation.share_empty
              { (ledgers.release id).reservations.get other with destination := none } rfl] at hclear
  have hsum := hbalanced.sum filesystem
  show (ledgers.release id).outstanding filesystem =
    (((ledgers.release id).reservations.modify id fun _ =>
      (ledgers.release id).reservations.get other).modify other fun reservation =>
        { reservation with destination := none }).total (Reservation.share filesystem)
  omega

theorem destroy_balanced (h : ledgers.Balanced) (hlive : id ∈ ledgers.reservations.live) :
    (ledgers.destroy id).Balanced := by
  obtain ⟨hbalanced, hsame, hempty, -⟩ := release_balanced h hlive
  refine ⟨fun filesystem => ?_, hbalanced.bounded⟩
  have hlive' : id ∈ (ledgers.release id).reservations.live := hsame ▸ hlive
  have hdestroy := Store.total_destroy (Reservation.share filesystem) hlive'
  rw [Reservation.share_empty _ hempty] at hdestroy
  have hsum := hbalanced.sum filesystem
  show (ledgers.release id).outstanding filesystem = ((ledgers.release id).reservations.destroy id).total _
  omega

end Ledgers

open Ledgers in
theorem Operation.sound {ledgers : Ledgers} (h : ledgers.Balanced) {operation : Operation}
    (hvalid : operation.Valid ledgers) : Sound ledgers (operation.run ledgers) := by
  cases operation with
  | construct id => exact .done (h.construct hvalid rfl)
  | reserve id filesystem promised description allocated status =>
      exact (reserve_sound h hvalid.1 filesystem promised description allocated status).1
  | grow id promised description status =>
      show Sound ledgers (ledgers.grow id promised description status)
      rw [Ledgers.grow]
      split
      · exact (replace_sound h hvalid.1 _ _ _ _ _).1
      · exact .done h
  | resize id promised description status => exact (replace_sound h hvalid.1 _ _ _ _ _).1
  | reserveGrowth id allocated additional description status =>
      show Sound ledgers (ledgers.reserveGrowth id allocated additional description status)
      rw [Ledgers.reserveGrowth]
      split
      · exact .stop h _
      · exact (replace_sound h hvalid.1 _ _ _ _ _).1
  | reconcile id status =>
      show Sound ledgers (ledgers.reconcile id status)
      rw [Ledgers.reconcile]
      split
      · split
        · exact .stop h _
        · exact reconcileAllocated_sound h hvalid _
      · exact .done h
  | reconcileAllocated id allocated => exact reconcileAllocated_sound h hvalid.1 allocated
  | withdrawAllocation id => exact reconcileAllocated_sound h hvalid 0
  | moveConstruct id other => exact .done (moveConstruct_balanced h hvalid.1 hvalid.2)
  | moveAssign id other => exact .done (moveAssign_balanced h hvalid.1 hvalid.2)
  | release id => exact .done (release_balanced h hvalid).1
  | destroy id => exact .done (destroy_balanced h hvalid)

theorem Reachable.balanced {ledgers : Ledgers} (h : Reachable ledgers) : ledgers.Balanced := by
  induction h with
  | initial => exact .initial
  | step operation _ hvalid ih => exact (Operation.sound ih hvalid).balanced

/-! Growth. -/

/-- The reservation an operation may promise more to, and the sample it would be admitted
against. -/
def Operation.growth : Operation → Option (Nat × VolumeStatus)
  | .reserve id _ _ _ _ status => some (id, status)
  | .grow id _ _ status => some (id, status)
  | .resize id _ _ status => some (id, status)
  | .reserveGrowth id _ _ _ status => some (id, status)
  | _ => none

def Operation.reserves : Operation → Bool
  | .reserve .. => true
  | _ => false

def Operation.samplesAlways : Operation → Bool
  | .reserve .. => true
  | .reserveGrowth .. => true
  | _ => false

open Ledgers in
theorem Operation.growth_admitted {ledgers : Ledgers} (h : ledgers.Balanced)
    {operation : Operation} (hvalid : operation.Valid ledgers) {id : Nat} {status : VolumeStatus}
    (hgrowth : operation.growth = some (id, status))
    (hfinished : (operation.run ledgers).failure = none)
    (hgrew : operation.samplesAlways = true ∧
        0 < ((operation.run ledgers).ledgers.reservations.get id).outstanding ∨
      operation.reserves = false ∧ (ledgers.reservations.get id).outstanding <
        ((operation.run ledgers).ledgers.reservations.get id).outstanding) :
    ∃ filesystem available,
      ((operation.run ledgers).ledgers.reservations.get id).destination = some filesystem ∧
        availableBytes status = .ok available ∧
        (operation.run ledgers).ledgers.outstanding filesystem ≤ available := by
  have hreplaced : ∀ promised allocated sample, id ∈ ledgers.reservations.live →
      Replaced ledgers id promised allocated sample status (operation.run ledgers) →
      (operation.samplesAlways = true → sample = true) →
      ∃ filesystem available,
        ((operation.run ledgers).ledgers.reservations.get id).destination = some filesystem ∧
          availableBytes status = .ok available ∧
          (operation.run ledgers).ledgers.outstanding filesystem ≤ available := by
    intro promised allocated sample hlive hspec hsample
    obtain ⟨filesystem, -, hdestination, hadmitted⟩ := hspec.filesystem
    rw [Reservation.outstanding_eq ((operation.run ledgers).ledgers.reservations.get id),
      hspec.promised, hspec.allocated] at hgrew
    have hgrows : sample = true ∨
        promised - allocated > (ledgers.reservations.get id).outstanding := by
      rcases hgrew with halways | hmore
      · exact .inl (hsample halways.1)
      · exact .inr hmore.2
    have hpositive : promised - allocated ≠ 0 := by
      rcases hgrew with halways | hmore
      · exact Nat.ne_of_gt halways.2
      · exact Nat.ne_of_gt (Nat.lt_of_le_of_lt (Nat.zero_le _) hmore.2)
    obtain ⟨available, hstatus, hle⟩ := hadmitted hgrows hpositive
    exact ⟨filesystem, available, hdestination, hstatus, hle⟩
  cases operation with
  | reserve target filesystem promised description allocated answer =>
      cases hgrowth
      have hspec := (reserve_sound h hvalid.1 filesystem promised description allocated status).2
        hfinished
      have hstored : (((Operation.reserve id filesystem promised description allocated status).run
          ledgers).ledgers.reservations.get id) = ⟨some filesystem, promised, allocated⟩ := by
        simp only [Operation.run, Ledgers.reserve] at hfinished ⊢
        split at hfinished
        · next failure hfailure =>
            rw [hfailure] at hfinished
            cases hfinished
        · exact Store.construct_get
      rw [hstored] at hgrew ⊢
      rw [Reservation.outstanding_eq ⟨some filesystem, promised, allocated⟩] at hgrew
      have hpositive : promised - allocated ≠ 0 := by
        rcases hgrew with halways | hmore
        · exact Nat.ne_of_gt halways.2
        · cases hmore.1
      obtain ⟨available, hstatus, hle⟩ := hspec hpositive
      exact ⟨filesystem, available, rfl, hstatus, hle⟩
  | grow target promised description answer =>
      cases hgrowth
      by_cases hlarger : promised > (ledgers.reservations.get id).promised
      · have hrun : (Operation.grow id promised description status).run ledgers =
            ledgers.replace id promised (ledgers.reservations.get id).allocated description
              false status := if_pos hlarger
        apply hreplaced promised (ledgers.reservations.get id).allocated false hvalid.1
        · rw [hrun] at hfinished ⊢
          exact (replace_sound h hvalid.1 _ _ _ _ _).2 hfinished
        · exact fun halways => halways
      · have hrun : (Operation.grow id promised description status).run ledgers = .done ledgers :=
          if_neg hlarger
        rw [hrun] at hgrew
        rcases hgrew with halways | hmore
        · cases halways.1
        · exact absurd hmore.2 (Nat.lt_irrefl _)
  | resize target promised description answer =>
      cases hgrowth
      apply hreplaced promised (ledgers.reservations.get id).allocated false hvalid.1
      · exact (replace_sound h hvalid.1 _ _ _ _ _).2 hfinished
      · exact fun halways => halways
  | reserveGrowth target allocated additional description answer =>
      cases hgrowth
      cases hadd : checkedAdd allocated additional "staged growth overflow" with
      | error failure =>
          simp only [Operation.run, Ledgers.reserveGrowth, hadd] at hfinished
          cases hfinished
      | ok promised =>
          have hrun : (Operation.reserveGrowth id allocated additional description status).run
              ledgers = ledgers.replace id promised allocated description true status := by
            simp only [Operation.run, Ledgers.reserveGrowth, hadd]
          apply hreplaced promised allocated true hvalid.1
          · rw [hrun] at hfinished ⊢
            exact (replace_sound h hvalid.1 _ _ _ _ _).2 hfinished
          · exact fun _ => rfl
  | _ => cases hgrowth

/-! The ledger over every run. -/

/-- Every filesystem owes exactly what its live reservations still promise beyond what they
have allocated.  All subtractions are from a value at least as large, all values fit their
word, a failed operation changes nothing, and growth stays inside the sample it saw. -/
theorem reservations_accounted {ledgers : Ledgers} (h : Reachable ledgers) :
    (∀ filesystem, ledgers.outstanding filesystem =
      ledgers.reservations.total fun reservation =>
        if reservation.destination = some filesystem then
          reservation.promised - reservation.allocated else 0) ∧
    (∀ filesystem, ledgers.outstanding filesystem < wordLimit) ∧
    (∀ id ∈ ledgers.reservations.live, ∀ filesystem,
      (ledgers.reservations.get id).destination = some filesystem →
        (ledgers.reservations.get id).outstanding ≤ ledgers.outstanding filesystem) ∧
    ∀ operation : Operation, operation.Valid ledgers →
      ((operation.run ledgers).failure ≠ none → (operation.run ledgers).ledgers = ledgers) ∧
      ∀ id status, operation.growth = some (id, status) →
        (operation.run ledgers).failure = none →
        (operation.samplesAlways = true ∧
            0 < ((operation.run ledgers).ledgers.reservations.get id).outstanding ∨
          operation.reserves = false ∧ (ledgers.reservations.get id).outstanding <
            ((operation.run ledgers).ledgers.reservations.get id).outstanding) →
        ∃ filesystem available,
          ((operation.run ledgers).ledgers.reservations.get id).destination = some filesystem ∧
            availableBytes status = .ok available ∧
            (operation.run ledgers).ledgers.outstanding filesystem ≤ available := by
  have hbalanced := h.balanced
  refine ⟨?_, hbalanced.bounded, ?_, ?_⟩
  · intro filesystem
    rw [hbalanced.sum]
    apply Store.total_congr rfl
    intro id _
    rw [Reservation.share, Reservation.outstanding_eq]
  · intro id hlive filesystem hdestination
    exact hbalanced.covers hlive hdestination
  · intro operation hvalid
    refine ⟨(Operation.sound hbalanced hvalid).unchanged, ?_⟩
    intro id status hgrowth hfinished hgrew
    exact Operation.growth_admitted hbalanced hvalid hgrowth hfinished hgrew

/-- Two reservations on one filesystem, the first allocated past its promise. -/
def shared : Ledgers :=
  ((Operation.reconcileAllocated 0 150).run
    ((Operation.reserve 1 ⟨0, 7⟩ 30 "cache" 0 (.ok (1, 4096))).run
      ((Operation.reserve 0 ⟨0, 7⟩ 100 "staging" 0 (.ok (1, 4096))).run
        .initial).ledgers).ledgers).ledgers

theorem shared_reachable : Reachable shared := by
  refine .step _ (.step _ (.step _ .initial ?_) ?_) ?_
  · exact ⟨by decide, by decide, by decide⟩
  · exact ⟨by decide, by decide, by decide⟩
  · exact ⟨by decide, by decide⟩

theorem reservations_accounted_shared :
    shared.outstanding ⟨0, 7⟩ = 30 ∧ shared.reservations.total (fun reservation =>
      if reservation.destination = some ⟨0, 7⟩ then
        reservation.promised - reservation.allocated else 0) = 30 := by
  have hvalue : shared.outstanding ⟨0, 7⟩ = 30 := by decide
  exact ⟨hvalue, ((reservations_accounted shared_reachable).1 ⟨0, 7⟩).symm.trans hvalue⟩

end Mmltk.Storage
