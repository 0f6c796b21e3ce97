import Mathlib.Order.Interval.Finset.Nat
import Mmltk.Loading.DatasetLoader

namespace Mmltk.Loading

namespace Loader

/-- Nothing keeps the loader from refilling. -/
def Normal (loader : Loader) : Prop :=
  loader.failure = none ∧ loader.stopping = false ∧ loader.resetting = false

/-- A slot that still holds its batch for the consumer; one whose read was cancelled or failed
does so in name only. -/
def Holds (loader : Loader) (slot : LoaderSlot) : Prop :=
  slot.state = .reading ∨ slot.state = .ready ∨ slot.state = .released ∧ ¬loader.Normal

/-- The slot the ring lists a batch in. -/
def listed (loader : Loader) (batch : Nat) : Nat :=
  loader.batchSlots (batch % loader.slotCount)

def Filling (slot : LoaderSlot) : Prop := slot.state = .reading ∨ slot.state = .ready

structure Filled (loader : Loader) (index : Nat) (slot : LoaderSlot) : Prop where
  consumed_le : loader.consumed ≤ slot.batch
  lt_submitted : slot.batch < loader.submitted
  listed : loader.listed slot.batch = index
  start : slot.start = loader.source.batchStart loader.config slot.batch
  count : slot.count = loader.source.batchImages loader.config slot.batch
  reads : slot.reads = loader.source.batchIndices loader.config slot.batch
  lease : slot.lease < loader.nextLease

/-- The content of a batch of the epoch, as the schedule has it. -/
def scheduled (loader : Loader) (batch : Nat) : BatchContent :=
  loader.source.content loader.config (loader.source.batchStart loader.config batch)
    (loader.source.batchImages loader.config batch)

structure Invariant (loader : Loader) : Prop where
  slots_pos : 0 < loader.slotCount
  valid : loader.config.Valid
  count : loader.batchCount = loader.source.batchCount loader.config
  order : List.Perm loader.source.order loader.eligible
  consumed_le : loader.consumed ≤ loader.submitted
  submitted_le : loader.submitted ≤ loader.batchCount
  pending : ∀ batch, loader.consumed ≤ batch → batch < loader.submitted →
    loader.listed batch < loader.slotCount ∧ (loader.slots (loader.listed batch)).batch = batch ∧
      loader.Holds (loader.slots (loader.listed batch))
  filled : ∀ index < loader.slotCount, Filling (loader.slots index) →
    loader.Filled index (loader.slots index)
  callbacks : ∀ index < loader.slotCount,
    ((loader.slots index).state = .reading ↔ (loader.callbacks index).read = true) ∧
      ((loader.slots index).transferPending = true → (loader.callbacks index).transfer = true) ∧
      ((loader.slots index).consumerPending = true → (loader.callbacks index).consumer = true)
  delivered : loader.delivered.map Batch.toBatchContent =
    (List.range loader.consumed).map loader.scheduled
  handed : ∀ entry ∈ loader.handed, entry.1 ≤ loader.generation ∧
    entry.2.leaseId < loader.nextLease ∧
      ((loader.slots entry.2.slotIndex).lease = entry.2.leaseId →
        (loader.slots entry.2.slotIndex).state ≠ .free → entry.1 = loader.generation)
  beginning : loader.beginning ≠ none → loader.resetting = true ∧ ¬loader.checkedOut

/-- While batches remain to be submitted no slot is left that could take one. -/
def Working (loader : Loader) (done : Nat → Prop) : Prop :=
  loader.Normal → loader.epoch = true → loader.submitted < loader.batchCount →
    ∀ index < loader.slotCount, done index → ¬(loader.slots index).Refillable

variable {loader : Loader} {index : Nat}

/-- How one slot may change with the stream's callbacks for it. -/
structure Evolves (loader : Loader) (index : Nat) (slot : LoaderSlot) (callbacks : Callbacks)
    (error : Option String) : Prop where
  batch : slot.batch = (loader.slots index).batch
  start : slot.start = (loader.slots index).start
  count : slot.count = (loader.slots index).count
  lease : slot.lease = (loader.slots index).lease
  reads : slot.reads = (loader.slots index).reads
  filling : Filling slot → Filling (loader.slots index)
  failure : error = none → loader.failure = none
  holds : loader.Holds (loader.slots index) → Filling slot ∨
    slot.state = .released ∧ ¬(error = none ∧ loader.stopping = false ∧ loader.resetting = false)
  taken : slot.state ≠ .free → (loader.slots index).state ≠ .free
  checkedOut : slot.state = .checkedOut → (loader.slots index).state = .checkedOut
  callbacks : (slot.state = .reading ↔ callbacks.read = true) ∧
    (slot.transferPending = true → callbacks.transfer = true) ∧
    (slot.consumerPending = true → callbacks.consumer = true)

def evolve (loader : Loader) (index : Nat) (slot : LoaderSlot) (callbacks : Callbacks)
    (failure : Option String) : Loader :=
  { (loader.setCallbacks index callbacks).setSlot index slot with failure := failure }

theorem evolve_slots_self {slot : LoaderSlot} {callbacks : Callbacks} {failure : Option String} :
    (loader.evolve index slot callbacks failure).slots index = slot :=
  Function.update_self _ _ _

theorem evolve_slots_other {slot : LoaderSlot} {callbacks : Callbacks} {failure : Option String}
    {other : Nat} (h : other ≠ index) :
    (loader.evolve index slot callbacks failure).slots other = loader.slots other :=
  Function.update_of_ne h _ _

theorem evolve_listed {slot : LoaderSlot} {callbacks : Callbacks} {failure : Option String}
    {batch : Nat} : (loader.evolve index slot callbacks failure).listed batch =
      loader.listed batch := rfl

theorem evolve_callbacks_self {slot : LoaderSlot} {callbacks : Callbacks}
    {failure : Option String} :
    (loader.evolve index slot callbacks failure).callbacks index = callbacks :=
  Function.update_self _ _ _

theorem evolve_callbacks_other {slot : LoaderSlot} {callbacks : Callbacks}
    {failure : Option String} {other : Nat} (h : other ≠ index) :
    (loader.evolve index slot callbacks failure).callbacks other = loader.callbacks other :=
  Function.update_of_ne h _ _

theorem Invariant.evolve (h : loader.Invariant) {slot : LoaderSlot} {callbacks : Callbacks}
    {failure : Option String} (hslot : loader.Evolves index slot callbacks failure) :
    (loader.evolve index slot callbacks failure).Invariant where
  slots_pos := h.slots_pos
  valid := h.valid
  count := h.count
  order := h.order
  consumed_le := h.consumed_le
  submitted_le := h.submitted_le
  pending batch hge hlt := by
    have hpending := h.pending batch hge hlt
    rw [evolve_listed]
    generalize loader.listed batch = place at hpending ⊢
    obtain ⟨hplace, hbatch, hholds⟩ := hpending
    by_cases heq : place = index
    · subst heq
      rw [evolve_slots_self]
      refine ⟨hplace, hslot.batch.trans hbatch, ?_⟩
      rcases hslot.holds hholds with (hreading | hready) | hreleased
      · exact .inl hreading
      · exact .inr (.inl hready)
      · exact .inr (.inr hreleased)
    · rw [evolve_slots_other heq]
      refine ⟨hplace, hbatch, hholds.imp_right (Or.imp_right fun hreleased => ?_)⟩
      exact ⟨hreleased.1, fun hnormal => hreleased.2 ⟨hslot.failure hnormal.1, hnormal.2⟩⟩
  filled other hother hfilling := by
    by_cases heq : other = index
    · subst heq
      rw [evolve_slots_self] at hfilling ⊢
      have hold := h.filled other hother (hslot.filling hfilling)
      refine ⟨?_, ?_, ?_, ?_, ?_, ?_, ?_⟩
      · exact hslot.batch ▸ hold.consumed_le
      · exact hslot.batch ▸ hold.lt_submitted
      · exact hslot.batch ▸ hold.listed
      · exact hslot.start.trans (hslot.batch ▸ hold.start)
      · exact hslot.count.trans (hslot.batch ▸ hold.count)
      · exact hslot.reads.trans (hslot.batch ▸ hold.reads)
      · exact hslot.lease ▸ hold.lease
    · rw [evolve_slots_other heq] at hfilling ⊢
      have hold := h.filled other hother hfilling
      exact ⟨hold.consumed_le, hold.lt_submitted, hold.listed, hold.start, hold.count, hold.reads,
        hold.lease⟩
  callbacks other hother := by
    by_cases heq : other = index
    · subst heq
      rw [evolve_slots_self, evolve_callbacks_self]
      exact hslot.callbacks
    · rw [evolve_slots_other heq, evolve_callbacks_other heq]
      exact h.callbacks other hother
  delivered := h.delivered
  handed entry hmem := by
    obtain ⟨hgeneration, hlease, hstale⟩ := h.handed entry hmem
    refine ⟨hgeneration, hlease, ?_⟩
    by_cases heq : entry.2.slotIndex = index
    · rw [heq, evolve_slots_self, hslot.lease]
      rw [heq] at hstale
      exact fun hsame htaken => hstale hsame (hslot.taken htaken)
    · rw [evolve_slots_other heq]
      exact hstale
  beginning hbeginning := by
    obtain ⟨hresetting, hnone⟩ := h.beginning hbeginning
    refine ⟨hresetting, fun ⟨other, hmem, hout⟩ => hnone ⟨other, hmem, ?_⟩⟩
    by_cases heq : other = index
    · subst heq
      rw [evolve_slots_self] at hout
      exact hslot.checkedOut hout
    · rwa [evolve_slots_other heq] at hout

/-! A free slot takes the next batch. -/

/-- Every batch in flight has a slot of its own, so a free slot leaves room in the ring. -/
theorem Invariant.window (h : loader.Invariant) (hindex : index < loader.slotCount)
    (hfree : (loader.slots index).state = .free) :
    loader.submitted < loader.consumed + loader.slotCount := by
  have hcard : (Finset.Ico loader.consumed loader.submitted).card ≤
      ((Finset.range loader.slotCount).erase index).card := by
    apply Finset.card_le_card_of_injOn loader.listed
    · intro batch hmem
      obtain ⟨hge, hlt⟩ := Finset.mem_Ico.mp hmem
      obtain ⟨hplace, -, hholds⟩ := h.pending batch hge hlt
      refine Finset.mem_erase.mpr ⟨fun heq => ?_, Finset.mem_range.mpr hplace⟩
      rw [heq, Holds, hfree] at hholds
      rcases hholds with hreading | hready | ⟨hreleased, -⟩
      · cases hreading
      · cases hready
      · cases hreleased
    · intro batch hmem other hother heq
      obtain ⟨hge, hlt⟩ := Finset.mem_Ico.mp hmem
      obtain ⟨hge', hlt'⟩ := Finset.mem_Ico.mp hother
      have hbatch := (h.pending batch hge hlt).2.1
      rw [heq, (h.pending other hge' hlt').2.1] at hbatch
      exact hbatch.symm
  rw [Nat.card_Ico, Finset.card_erase_of_mem (Finset.mem_range.mpr hindex),
    Finset.card_range] at hcard
  have hpos := h.slots_pos
  omega

theorem mod_ne {batch next count : Nat} (hlt : batch < next) (hwindow : next < batch + count) :
    batch % count ≠ next % count := by
  intro heq
  have hdvd : count ∣ next - batch :=
    Nat.dvd_of_mod_eq_zero (Nat.sub_mod_eq_zero_of_mod_eq heq.symm)
  have := Nat.le_of_dvd (Nat.sub_pos_of_lt hlt) hdvd
  omega

/-- The loader with the next batch in a slot. -/
def install (loader : Loader) (index : Nat) (slot : LoaderSlot) (callbacks : Callbacks)
    (error : Option String) : Loader :=
  { (loader.place index).setSlot index slot with
    callbacks := Function.update loader.callbacks index callbacks
    failure := error }

/-- The slot is being read, or its submission failed and the loader with it. -/
structure Installed (loader : Loader) (slot : LoaderSlot) (callbacks : Callbacks)
    (error : Option String) : Prop where
  batch : slot.batch = loader.submitted
  start : slot.start = loader.source.batchStart loader.config loader.submitted
  count : slot.count = loader.source.batchImages loader.config loader.submitted
  reads : slot.reads = loader.source.batchIndices loader.config loader.submitted
  lease : slot.lease = loader.nextLease
  state : slot.state = .reading ∨ slot.state = .released ∧ error ≠ none
  callbacks : (slot.state = .reading ↔ callbacks.read = true) ∧
    (slot.transferPending = true → callbacks.transfer = true) ∧
    (slot.consumerPending = true → callbacks.consumer = true)

theorem install_slots_self {slot : LoaderSlot} {callbacks : Callbacks} {error : Option String} :
    (loader.install index slot callbacks error).slots index = slot :=
  Function.update_self _ _ _

theorem install_slots_other {slot : LoaderSlot} {callbacks : Callbacks} {error : Option String}
    {other : Nat} (h : other ≠ index) :
    (loader.install index slot callbacks error).slots other = loader.slots other :=
  (Function.update_of_ne h _ _).trans (Function.update_of_ne h _ _)

theorem install_callbacks_self {slot : LoaderSlot} {callbacks : Callbacks}
    {error : Option String} :
    (loader.install index slot callbacks error).callbacks index = callbacks :=
  Function.update_self _ _ _

theorem install_callbacks_other {slot : LoaderSlot} {callbacks : Callbacks}
    {error : Option String} {other : Nat} (h : other ≠ index) :
    (loader.install index slot callbacks error).callbacks other = loader.callbacks other :=
  Function.update_of_ne h _ _

theorem install_listed_self {slot : LoaderSlot} {callbacks : Callbacks} {error : Option String} :
    (loader.install index slot callbacks error).listed loader.submitted = index :=
  Function.update_self _ _ _

theorem install_listed_other {slot : LoaderSlot} {callbacks : Callbacks} {error : Option String}
    {batch : Nat} (h : batch % loader.slotCount ≠ loader.submitted % loader.slotCount) :
    (loader.install index slot callbacks error).listed batch = loader.listed batch :=
  Function.update_of_ne h _ _

theorem Invariant.install (h : loader.Invariant) (hnormal : loader.Normal)
    (hindex : index < loader.slotCount) (hfree : (loader.slots index).state = .free)
    (hmore : loader.submitted < loader.batchCount) (hbegun : loader.beginning = none)
    {slot : LoaderSlot} {callbacks : Callbacks} {error : Option String}
    (hslot : loader.Installed slot callbacks error) :
    (loader.install index slot callbacks error).Invariant := by
  have hwindow := h.window hindex hfree
  have hlisted : ∀ batch, loader.consumed ≤ batch → batch < loader.submitted →
      (loader.install index slot callbacks error).listed batch = loader.listed batch := by
    intro batch hge hlt
    exact install_listed_other (mod_ne hlt (by omega))
  -- a batch in flight is not in the free slot
  have hother : ∀ batch, loader.consumed ≤ batch → batch < loader.submitted →
      loader.listed batch ≠ index := by
    intro batch hge hlt heq
    have hholds := (h.pending batch hge hlt).2.2
    rw [heq, Holds, hfree] at hholds
    rcases hholds with hreading | hready | ⟨hreleased, -⟩
    · cases hreading
    · cases hready
    · cases hreleased
  refine ⟨h.slots_pos, h.valid, h.count, h.order, Nat.le_succ_of_le h.consumed_le, hmore, ?_, ?_,
    ?_, h.delivered, ?_, fun hbeginning => absurd hbegun hbeginning⟩
  · intro batch hge hlt
    rcases Nat.lt_succ_iff_lt_or_eq.mp hlt with hbefore | heq
    · rw [hlisted batch hge hbefore, install_slots_other (hother batch hge hbefore)]
      obtain ⟨hplace, hbatch, hholds⟩ := h.pending batch hge hbefore
      refine ⟨hplace, hbatch, ?_⟩
      rcases hholds with hreading | hready | hreleased
      · exact .inl hreading
      · exact .inr (.inl hready)
      · exact absurd hnormal hreleased.2
    · subst heq
      rw [install_listed_self, install_slots_self]
      refine ⟨hindex, hslot.batch, ?_⟩
      rcases hslot.state with hreading | ⟨hreleased, herror⟩
      · exact .inl hreading
      · exact .inr (.inr ⟨hreleased, fun hafter => herror hafter.1⟩)
  · intro other hlt hfilling
    by_cases heq : other = index
    · subst heq
      rw [install_slots_self]
      refine ⟨?_, ?_, ?_, ?_, ?_, ?_, ?_⟩
      · exact hslot.batch ▸ h.consumed_le
      · exact hslot.batch ▸ Nat.lt_succ_self _
      · rw [hslot.batch]
        exact install_listed_self
      · exact hslot.start.trans (hslot.batch ▸ rfl)
      · exact hslot.count.trans (hslot.batch ▸ rfl)
      · exact hslot.reads.trans (hslot.batch ▸ rfl)
      · exact hslot.lease ▸ Nat.lt_succ_self _
    · rw [install_slots_other heq] at hfilling ⊢
      have hold := h.filled other hlt hfilling
      refine ⟨hold.consumed_le, Nat.lt_succ_of_lt hold.lt_submitted, ?_, hold.start, hold.count,
        hold.reads, Nat.lt_succ_of_lt hold.lease⟩
      rw [hlisted _ hold.consumed_le hold.lt_submitted]
      exact hold.listed
  · intro other hlt
    by_cases heq : other = index
    · subst heq
      rw [install_slots_self, install_callbacks_self]
      exact hslot.callbacks
    · rw [install_slots_other heq, install_callbacks_other heq]
      exact h.callbacks other hlt
  · intro entry hmem
    obtain ⟨hgeneration, hlease, hstale⟩ := h.handed entry hmem
    refine ⟨hgeneration, Nat.lt_succ_of_lt hlease, ?_⟩
    by_cases heq : entry.2.slotIndex = index
    · rw [heq, install_slots_self, hslot.lease]
      intro hsame
      exact absurd hsame.symm (Nat.ne_of_lt hlease)
    · rw [install_slots_other heq]
      exact hstale

/-! `refill` -/

theorem setSlot_eq_evolve (loader : Loader) (index : Nat) (slot : LoaderSlot) :
    loader.setSlot index slot =
      loader.evolve index slot (loader.callbacks index) loader.failure := by
  simp [setSlot, evolve, setCallbacks, Function.update_eq_self]

theorem install_filled (loader : Loader) (index : Nat) (callbacks : Callbacks) :
    (loader.place index).setCallbacks index callbacks =
      loader.install index (loader.filledSlot (loader.slots index)) callbacks loader.failure := by
  simp [install, place, setSlot, setCallbacks]

theorem install_failed (loader : Loader) (index : Nat) (slot : LoaderSlot) (failure : String) :
    { (loader.place index).setSlot index slot with failure := some failure } =
      loader.install index slot (loader.callbacks index) (some failure) := by
  simp [install, place, setSlot, Function.update_eq_self]

theorem installed_filled (loader : Loader) {callbacks : Callbacks}
    (hconsumer : (loader.slots index).consumerPending = true → callbacks.consumer = true) :
    loader.Installed (loader.filledSlot (loader.slots index))
      { callbacks with read := true, transfer := true } loader.failure where
  batch := rfl
  start := rfl
  count := rfl
  reads := rfl
  lease := rfl
  state := .inl rfl
  callbacks := ⟨iff_of_true rfl rfl, fun _ => rfl, hconsumer⟩

theorem installed_failed (loader : Loader) {callbacks : Callbacks} {failure : String}
    (hread : callbacks.read ≠ true)
    (hconsumer : (loader.slots index).consumerPending = true → callbacks.consumer = true) :
    loader.Installed
      { (loader.place index).slots index with transferPending := false, state := .released }
      callbacks (some failure) := by
  have hplaced : (loader.place index).slots index = loader.filledSlot (loader.slots index) :=
    Function.update_self _ _ _
  rw [hplaced]
  exact ⟨rfl, rfl, rfl, rfl, rfl, .inr ⟨rfl, nofun⟩, iff_of_false nofun hread, nofun, hconsumer⟩

theorem filledSlot_not_refillable (loader : Loader) (slot : LoaderSlot) :
    ¬(loader.filledSlot slot).Refillable := by
  rintro (hstate | hstate)
  · cases hstate
  · cases hstate.1

/-- The end of `refill`, once the slot is freed. -/
def submitFreed (loader : Loader) (index : Nat) (submit : Option String) :
    Loader × Option String :=
  if loader.submitted = loader.batchCount ∨ (loader.slots index).state ≠ .free then (loader, none)
  else
    match submit with
    | none =>
        ((loader.place index).setCallbacks index
          { loader.callbacks index with read := true, transfer := true }, none)
    | some failure =>
        ({ (loader.place index).setSlot index
            { (loader.place index).slots index with
              transferPending := false, state := .released } with
          failure := some failure }, some failure)

/-- What only the begin of an epoch changes. -/
def frame (loader : Loader) :
    (LoaderConfig × List Nat × Nat × EpochSource) × Nat × Nat × Bool × Bool ×
      Option (Option IndexSchedule × Nat) :=
  ((loader.config, loader.eligible, loader.seed, loader.source), loader.slotCount,
    loader.batchCount, loader.epoch, loader.resetting, loader.beginning)

/-- What a refill leaves, and that it leaves nothing to refill in its slot. -/
structure Refilled (loader after : Loader) (index : Nat) (thrown : Option String) : Prop where
  invariant : after.Invariant
  normal : thrown = none → after.Normal
  failed : thrown ≠ none → after.failure ≠ none
  others : ∀ other, other ≠ index → after.slots other = loader.slots other
  kept : ¬(loader.slots index).Refillable → after.slots index = loader.slots index
  full : thrown = none → after.submitted < after.batchCount → ¬(after.slots index).Refillable
  frame : after.frame = loader.frame
  submitted : loader.submitted ≤ after.submitted

/-- The slot `refill` looks at, freed where that is possible. -/
def freed (slot : LoaderSlot) : LoaderSlot :=
  if slot.Refillable then { slot with state := .free } else slot

theorem freed_state {slot : LoaderSlot} (h : slot.Refillable) : (freed slot).state = .free := by
  rw [freed, if_pos h]

theorem freed_of_not {slot : LoaderSlot} (h : ¬slot.Refillable) : freed slot = slot := if_neg h

theorem evolves_freed (h : loader.Invariant) (hnormal : loader.Normal)
    (hindex : index < loader.slotCount) :
    loader.Evolves index (freed (loader.slots index)) (loader.callbacks index) loader.failure := by
  by_cases hrefillable : (loader.slots index).Refillable
  · rw [freed, if_pos hrefillable]
    refine ⟨rfl, rfl, rfl, rfl, rfl, ?_, id, ?_, fun htaken => absurd rfl htaken, nofun, ?_⟩
    · rintro (hreading | hready)
      · cases hreading
      · cases hready
    · intro hholds
      rcases hholds with hreading | hready | hreleased
      · rcases hrefillable with hfree | hfree
        · exact absurd (hreading.symm.trans hfree) nofun
        · exact absurd (hreading.symm.trans hfree.1) nofun
      · rcases hrefillable with hfree | hfree
        · exact absurd (hready.symm.trans hfree) nofun
        · exact absurd (hready.symm.trans hfree.1) nofun
      · exact absurd hnormal hreleased.2
    · have hcallbacks := h.callbacks index hindex
      refine ⟨iff_of_false nofun fun hread => ?_, hcallbacks.2⟩
      have hreading := hcallbacks.1.mpr hread
      rcases hrefillable with hfree | hfree
      · exact absurd (hreading.symm.trans hfree) nofun
      · exact absurd (hreading.symm.trans hfree.1) nofun
  · rw [freed_of_not hrefillable]
    refine ⟨rfl, rfl, rfl, rfl, rfl, id, id, ?_, id, id, h.callbacks index hindex⟩
    intro hholds
    rcases hholds with hreading | hready | hreleased
    · exact .inl (.inl hreading)
    · exact .inl (.inr hready)
    · exact absurd hnormal hreleased.2

theorem install_normal {slot : LoaderSlot} {callbacks : Callbacks} {error : Option String} :
    (loader.install index slot callbacks error).Normal ↔
      error = none ∧ loader.stopping = false ∧ loader.resetting = false := Iff.rfl

theorem evolve_normal {slot : LoaderSlot} {callbacks : Callbacks} {error : Option String} :
    (loader.evolve index slot callbacks error).Normal ↔
      error = none ∧ loader.stopping = false ∧ loader.resetting = false := Iff.rfl

theorem refilled_install {middle : Loader} {slot : LoaderSlot} {callbacks : Callbacks}
    {error thrown : Option String} (hrefillable : (loader.slots index).Refillable)
    (hothers : ∀ other, other ≠ index → middle.slots other = loader.slots other)
    (hframe : middle.frame = loader.frame) (hsubmitted : middle.submitted = loader.submitted)
    (hinvariant : (middle.install index slot callbacks error).Invariant)
    (hnormal : thrown = none → error = none ∧ middle.stopping = false ∧ middle.resetting = false)
    (hfailed : thrown ≠ none → error ≠ none) (hfull : thrown = none → ¬slot.Refillable) :
    Refilled loader (middle.install index slot callbacks error) index thrown where
  invariant := hinvariant
  normal hthrown := install_normal.mpr (hnormal hthrown)
  failed := hfailed
  others other hne := (install_slots_other hne).trans (hothers other hne)
  kept hnot := absurd hrefillable hnot
  full hthrown _ := by
    rw [install_slots_self]
    exact hfull hthrown
  frame := hframe
  submitted := hsubmitted ▸ Nat.le_succ _

/-- The slot has been freed where that is possible, and takes a batch if there is one. -/
theorem refilled_middle {middle : Loader} (h : middle.Invariant) (hnormal : middle.Normal)
    (hindex : index < middle.slotCount) (hbegun : middle.beginning = none)
    (hslot : middle.slots index = freed (loader.slots index))
    (hothers : ∀ other, other ≠ index → middle.slots other = loader.slots other)
    (hframe : middle.frame = loader.frame) (hsubmitted : middle.submitted = loader.submitted)
    (submit : Option String) :
    Refilled loader (middle.submitFreed index submit).1 index
      (middle.submitFreed index submit).2 := by
  have hkept : (freed (loader.slots index)).state ≠ .free → ¬(loader.slots index).Refillable :=
    fun hstate hrefillable => hstate (freed_state hrefillable)
  unfold submitFreed
  split
  · next hstop =>
      refine ⟨h, fun _ => hnormal, fun hthrown => absurd rfl hthrown, hothers, ?_, ?_, hframe,
        Nat.le_of_eq hsubmitted.symm⟩
      · intro hrefillable
        rw [hslot, freed_of_not hrefillable]
      · intro _ hmore
        rcases hstop with hall | hstate
        · exact absurd hall (Nat.ne_of_lt hmore)
        · rw [hslot] at hstate ⊢
          rw [freed_of_not (hkept hstate)]
          exact hkept hstate
  · next hgo =>
      obtain ⟨hmore, hstate⟩ := not_or.mp hgo
      have hfree := Decidable.not_not.mp hstate
      have hlt : middle.submitted < middle.batchCount := Nat.lt_of_le_of_ne h.submitted_le hmore
      have hrefillable : (loader.slots index).Refillable := by
        by_contra hnot
        rw [hslot, freed_of_not hnot] at hfree
        exact hnot (.inl hfree)
      obtain ⟨hread, -, hconsumer⟩ := h.callbacks index hindex
      cases submit with
      | none =>
          simp only
          rw [install_filled]
          apply refilled_install hrefillable hothers hframe hsubmitted
          · exact h.install hnormal hindex hfree hlt hbegun (installed_filled middle hconsumer)
          · exact fun _ => hnormal
          · exact fun hthrown => absurd rfl hthrown
          · exact fun _ => filledSlot_not_refillable middle _
      | some failure =>
          simp only
          rw [install_failed]
          apply refilled_install hrefillable hothers hframe hsubmitted
          · have hunread : (middle.callbacks index).read ≠ true := fun hread' =>
              absurd ((hread.mpr hread').symm.trans hfree) nofun
            exact h.install hnormal hindex hfree hlt hbegun
              (installed_failed middle hunread hconsumer)
          · exact fun hthrown => absurd hthrown (Option.some_ne_none failure)
          · exact fun _ => Option.some_ne_none failure
          · exact fun hthrown => absurd hthrown (Option.some_ne_none failure)

theorem refill_eq (hnormal : loader.Normal) (submit : Option String) :
    loader.refill index submit =
      (loader.evolve index (freed (loader.slots index)) (loader.callbacks index)
        loader.failure).submitFreed index submit := by
  have hcheck : loader.checkFailure = none := by
    rw [checkFailure, hnormal.1, if_neg (by rw [hnormal.2.1]; decide)]
  rw [refill, hcheck, ← setSlot_eq_evolve]
  unfold submitFreed
  have hslot : (loader.setSlot index (freed (loader.slots index))).slots index =
      freed (loader.slots index) := Function.update_self _ _ _
  rw [hslot]
  rfl

theorem refill_spec (h : loader.Invariant) (hnormal : loader.Normal)
    (hindex : index < loader.slotCount) (hbegun : loader.beginning = none)
    (submit : Option String) :
    Refilled loader (loader.refill index submit).1 index (loader.refill index submit).2 := by
  rw [refill_eq hnormal]
  exact refilled_middle (h.evolve (evolves_freed h hnormal hindex)) (evolve_normal.mpr hnormal)
    hindex hbegun evolve_slots_self (fun _ hne => evolve_slots_other hne) rfl rfl submit

end Loader

end Mmltk.Loading
