import Mmltk.Loading.LoaderInvariant

namespace Mmltk.Loading

namespace Loader

variable {loader : Loader} {index : Nat}

/-! The flags alone. -/

def flagged (loader : Loader) (failure : Option String) (stopping resetting : Bool)
    (beginning : Option (Option IndexSchedule × Nat)) : Loader :=
  { loader with
    failure := failure
    stopping := stopping
    resetting := resetting
    beginning := beginning }

theorem Invariant.flagged (h : loader.Invariant) {failure : Option String}
    {stopping resetting : Bool} {beginning : Option (Option IndexSchedule × Nat)}
    (hnormal : (loader.flagged failure stopping resetting beginning).Normal → loader.Normal)
    (hbeginning : beginning ≠ none → resetting = true ∧ ¬loader.checkedOut) :
    (loader.flagged failure stopping resetting beginning).Invariant where
  slots_pos := h.slots_pos
  valid := h.valid
  count := h.count
  order := h.order
  consumed_le := h.consumed_le
  submitted_le := h.submitted_le
  pending batch hge hlt := by
    obtain ⟨hplace, hbatch, hholds⟩ := h.pending batch hge hlt
    refine ⟨hplace, hbatch, hholds.imp_right (Or.imp_right fun hreleased => ?_)⟩
    exact ⟨hreleased.1, fun hafter => hreleased.2 (hnormal hafter)⟩
  filled other hlt hfilling := by
    have hold := h.filled other hlt hfilling
    exact ⟨hold.consumed_le, hold.lt_submitted, hold.listed, hold.start, hold.count, hold.reads,
      hold.lease⟩
  callbacks := h.callbacks
  delivered := h.delivered
  handed := h.handed
  beginning := hbeginning

theorem Working.of_failed {done : Nat → Prop} (h : ¬loader.Normal) : loader.Working done :=
  fun hnormal => absurd hnormal h

/-! Refills outside `begin_epoch`. -/

/-- What a refill of one slot leaves, whether or not the loader was in a state to refill. -/
structure Refreshed (loader after : Loader) (index : Nat) : Prop where
  invariant : after.Invariant
  others : ∀ other, other ≠ index → after.slots other = loader.slots other
  kept : ¬(loader.slots index).Refillable → after.slots index = loader.slots index
  working : loader.Working (· ≠ index) → after.Working fun _ => True
  frame : after.frame = loader.frame

theorem Refilled.working {after : Loader} {thrown : Option String} {done : Nat → Prop}
    (h : Refilled loader after index thrown) (hthrown : thrown = none) (hnormal : loader.Normal)
    (hworking : loader.Working done) : after.Working fun other => done other ∨ other = index := by
  intro _ hepoch hmore other hother hdone
  have hframe := h.frame
  simp only [Loader.frame, Prod.mk.injEq] at hframe
  obtain ⟨-, hslotCount, hbatchCount, hepochs, -, -⟩ := hframe
  by_cases heq : other = index
  · subst heq
    exact h.full hthrown hmore
  · rw [h.others other heq]
    have hbefore : loader.submitted < loader.batchCount :=
      Nat.lt_of_le_of_lt h.submitted (hbatchCount ▸ hmore)
    exact hworking hnormal (hepochs ▸ hepoch) hbefore other (hslotCount ▸ hother)
      (hdone.resolve_right heq)

theorem tryRefill_spec (h : loader.Invariant) (hindex : index < loader.slotCount)
    (submit : Option String) : Refreshed loader (loader.tryRefill index submit) index := by
  rw [tryRefill]
  split
  · next hnormal =>
      have hbegun : loader.beginning = none := by
        by_contra hbeginning
        exact absurd ((h.beginning hbeginning).1.symm.trans hnormal.2.2) nofun
      have hrefilled := refill_spec h hnormal hindex hbegun submit
      split
      · next after heq =>
          rw [heq] at hrefilled
          refine ⟨hrefilled.invariant, hrefilled.others, hrefilled.kept, ?_, hrefilled.frame⟩
          intro hworking hafter hepoch hmore other hother _
          exact hrefilled.working rfl hnormal hworking hafter hepoch hmore other hother
            (ne_or_eq other index)
      · next after failure heq =>
          rw [heq] at hrefilled
          have hfailed := hrefilled.failed (Option.some_ne_none failure)
          have hbeginning : after.beginning = none := by
            have hframe := hrefilled.frame
            simp only [Loader.frame, Prod.mk.injEq] at hframe
            exact hframe.2.2.2.2.2.trans hbegun
          have hinvariant : (after.flagged (some failure) after.stopping after.resetting
              after.beginning).Invariant :=
            hrefilled.invariant.flagged (fun hafter => nomatch hafter.1)
              (fun hne => absurd hbeginning hne)
          refine ⟨hinvariant, hrefilled.others, hrefilled.kept, fun _ => .of_failed ?_,
            hrefilled.frame⟩
          exact fun hafter => nomatch hafter.1
  · next hnot =>
      exact ⟨h, fun _ _ => rfl, fun _ => rfl, fun _ => .of_failed hnot, rfl⟩

/-! The stream's callbacks and `release`. -/

theorem evolve_working {slot : LoaderSlot} {callbacks : Callbacks} {failure : Option String}
    (hfailure : failure = none → loader.failure = none) (h : loader.Working fun _ => True) :
    (loader.evolve index slot callbacks failure).Working (· ≠ index) := by
  intro hnormal hepoch hmore other hother hne
  rw [evolve_slots_other hne]
  exact h ⟨hfailure hnormal.1, hnormal.2⟩ hepoch hmore other hother trivial

/-- What holds in every state of a run. -/
structure Sound (loader : Loader) : Prop extends Invariant loader where
  working : loader.Working fun _ => True

/-- A slot that changes with its callbacks and is then offered a batch. -/
theorem Sound.evolve_tryRefill (h : loader.Sound) (hindex : index < loader.slotCount)
    {slot : LoaderSlot} {callbacks : Callbacks} {failure : Option String}
    (hslot : loader.Evolves index slot callbacks failure) (submit : Option String) :
    ((loader.evolve index slot callbacks failure).tryRefill index submit).Sound := by
  have hrefreshed := tryRefill_spec (h.toInvariant.evolve hslot) hindex submit
  exact ⟨hrefreshed.invariant, hrefreshed.working (evolve_working hslot.failure h.working)⟩

theorem or_eq_none {failure error : Option String} (h : failure.or error = none) :
    failure = none ∧ error = none := by
  cases failure with
  | none => exact ⟨rfl, h⟩
  | some failure => cases h

/-- What an evolving slot holds stays held unless it is given up for a reason that lasts. -/
theorem Holds.cases {slot : LoaderSlot} (h : loader.Holds slot) :
    Filling slot ∨ slot.state = .released ∧ ¬loader.Normal := by
  rcases h with hreading | hready | hreleased
  · exact .inl (.inl hreading)
  · exact .inl (.inr hready)
  · exact .inr hreleased

theorem not_normal_or {failure error : Option String} (hfailure : loader.failure = failure)
    (h : ¬loader.Normal) :
    ¬(failure.or error = none ∧ loader.stopping = false ∧ loader.resetting = false) :=
  fun hafter => h ⟨hfailure.trans (or_eq_none hafter.1).1, hafter.2⟩

def afterRead (slot : LoaderSlot) (error : Option String) (read : Bool) : LoaderSlot :=
  if error.isSome ∨ read = false then { slot with state := .released, transferPending := false }
  else { slot with state := .ready }

theorem readComplete_eq (loader : Loader) (index : Nat) (error : Option String) (read : Bool) :
    loader.readComplete index error read =
      loader.evolve index (afterRead (loader.slots index) error read)
        { loader.callbacks index with read := false } (loader.failure.or error) := rfl

theorem evolves_afterRead (h : loader.Invariant) (hindex : index < loader.slotCount)
    (hread : (loader.callbacks index).read = true) {error : Option String} {read : Bool}
    (hcancelled : error = none → read = false → loader.resetting = true ∨ loader.stopping = true) :
    loader.Evolves index (afterRead (loader.slots index) error read)
      { loader.callbacks index with read := false } (loader.failure.or error) := by
  obtain ⟨hreading, htransfer, hconsumer⟩ := h.callbacks index hindex
  have hstate : (loader.slots index).state = .reading := hreading.mpr hread
  rw [afterRead]
  split
  · next hfailed =>
      refine ⟨rfl, rfl, rfl, rfl, rfl, ?_, fun hnone => (or_eq_none hnone).1, ?_, ?_, nofun,
        iff_of_false nofun nofun, nofun, hconsumer⟩
      · rintro (hfilling | hfilling)
        · cases hfilling
        · cases hfilling
      · refine fun _ => .inr ⟨rfl, fun ⟨hnone, hstopping, hresetting⟩ => ?_⟩
        have herror := (or_eq_none hnone).2
        have hunread : read = false := hfailed.resolve_left (by rw [herror]; decide)
        rcases hcancelled herror hunread with hflag | hflag
        · exact absurd (hflag.symm.trans hresetting) nofun
        · exact absurd (hflag.symm.trans hstopping) nofun
      · exact fun _ hfree => absurd (hstate.symm.trans hfree) nofun
  · refine ⟨rfl, rfl, rfl, rfl, rfl, fun _ => .inl hstate, fun hnone => (or_eq_none hnone).1,
      fun _ => .inl (.inr rfl), ?_, nofun, iff_of_false nofun nofun, htransfer, hconsumer⟩
    exact fun _ hfree => absurd (hstate.symm.trans hfree) nofun

theorem Sound.readComplete (h : loader.Sound) (hindex : index < loader.slotCount)
    (hread : (loader.callbacks index).read = true) {error : Option String} {read : Bool}
    (hcancelled : error = none → read = false → loader.resetting = true ∨ loader.stopping = true) :
    (loader.readComplete index error read).Sound := by
  have hevolves := evolves_afterRead h.toInvariant hindex hread hcancelled
  rw [readComplete_eq]
  refine ⟨h.toInvariant.evolve hevolves, ?_⟩
  intro hnormal hepoch hmore other hother _
  by_cases heq : other = index
  · subst heq
    rw [evolve_slots_self, afterRead]
    split
    · next hfailed =>
        have herror := (or_eq_none hnormal.1).2
        have hunread : read = false := hfailed.resolve_left (by rw [herror]; decide)
        rcases hcancelled herror hunread with hflag | hflag
        · exact absurd (hflag.symm.trans hnormal.2.2) nofun
        · exact absurd (hflag.symm.trans hnormal.2.1) nofun
    · rintro (hfree | hfree)
      · cases hfree
      · cases hfree.1
  · exact evolve_working hevolves.failure h.working hnormal hepoch hmore other hother heq

/-- A callback that only takes its own mark off the slot. -/
theorem evolves_mark (h : loader.Invariant) (hindex : index < loader.slotCount)
    {transferPending consumerPending transfer consumer : Bool}
    (htransfer : transferPending = true → transfer = true)
    (hconsumer : consumerPending = true → consumer = true) (error : Option String) :
    loader.Evolves index
      { loader.slots index with
        transferPending := transferPending, consumerPending := consumerPending }
      ⟨(loader.callbacks index).read, transfer, consumer⟩ (loader.failure.or error) := by
  refine ⟨rfl, rfl, rfl, rfl, rfl, id, fun hnone => (or_eq_none hnone).1, ?_, id, id,
    (h.callbacks index hindex).1, htransfer, hconsumer⟩
  intro hholds
  rcases hholds.cases with hfilling | ⟨hreleased, hnot⟩
  · exact .inl hfilling
  · exact .inr ⟨hreleased, not_normal_or rfl hnot⟩

theorem transferComplete_eq (loader : Loader) (index : Nat) (error submit : Option String) :
    loader.transferComplete index error submit =
      (loader.evolve index { loader.slots index with transferPending := false }
        { loader.callbacks index with transfer := false }
        (loader.failure.or error)).tryRefill index submit := rfl

theorem evolves_transferred (h : loader.Invariant) (hindex : index < loader.slotCount)
    (error : Option String) :
    loader.Evolves index { loader.slots index with transferPending := false }
      { loader.callbacks index with transfer := false } (loader.failure.or error) :=
  evolves_mark h hindex (fun hmarked : false = true => nomatch hmarked)
    (h.callbacks index hindex).2.2 error

theorem consumerComplete_eq (loader : Loader) (index : Nat) (error submit : Option String) :
    loader.consumerComplete index error submit =
      (loader.evolve index { loader.slots index with consumerPending := false }
        { loader.callbacks index with consumer := false }
        (loader.failure.or error)).tryRefill index submit := rfl

theorem evolves_consumed (h : loader.Invariant) (hindex : index < loader.slotCount)
    (error : Option String) :
    loader.Evolves index { loader.slots index with consumerPending := false }
      { loader.callbacks index with consumer := false } (loader.failure.or error) :=
  evolves_mark h hindex (h.callbacks index hindex).2.1
    (fun hmarked : false = true => nomatch hmarked) error

theorem Sound.transferComplete (h : loader.Sound) (hindex : index < loader.slotCount)
    (error submit : Option String) : (loader.transferComplete index error submit).Sound := by
  rw [transferComplete_eq]
  exact h.evolve_tryRefill hindex (evolves_transferred h.toInvariant hindex error) submit

theorem Sound.consumerComplete (h : loader.Sound) (hindex : index < loader.slotCount)
    (error submit : Option String) : (loader.consumerComplete index error submit).Sound := by
  rw [consumerComplete_eq]
  exact h.evolve_tryRefill hindex (evolves_consumed h.toInvariant hindex error) submit

theorem require_ok {batch : Batch} {operation : String} {released : Bool} {slot : LoaderSlot}
    (h : loader.require batch operation released = .ok slot) :
    batch.slotIndex < loader.slotCount ∧ slot = loader.slots batch.slotIndex ∧
      slot.lease = batch.leaseId ∧
      (slot.state = .checkedOut ∨ released = true ∧ slot.state = .released) := by
  rw [require] at h
  split at h
  · cases h
  · next hindex =>
      simp only at h
      split at h
      · cases h
      · next hlease =>
          split at h
          · cases h
          · next hstate =>
              cases h
              refine ⟨Nat.lt_of_not_le hindex, rfl, Decidable.not_not.mp hlease, ?_⟩
              by_cases hout : (loader.slots batch.slotIndex).state = .checkedOut
              · exact .inl hout
              · exact .inr (Decidable.not_not.mp fun hnot => hstate ⟨hout, hnot⟩)

theorem evolves_released (h : loader.Invariant) (hindex : index < loader.slotCount)
    (hout : (loader.slots index).state = .checkedOut) {consumerPending consumer : Bool}
    (hconsumer : consumerPending = true → consumer = true) :
    loader.Evolves index
      { loader.slots index with state := .released, consumerPending := consumerPending }
      { loader.callbacks index with consumer := consumer } loader.failure := by
  obtain ⟨hreading, htransfer, -⟩ := h.callbacks index hindex
  have hunread : (loader.callbacks index).read ≠ true := fun hread =>
    absurd (hout.symm.trans (hreading.mpr hread)) nofun
  refine ⟨rfl, rfl, rfl, rfl, rfl, ?_, id, ?_, ?_, nofun, iff_of_false nofun hunread, htransfer,
    hconsumer⟩
  · rintro (hfilling | hfilling)
    · cases hfilling
    · cases hfilling
  · intro hholds
    rcases hholds.cases with (hreading | hready) | ⟨hreleased, -⟩
    · exact absurd (hout.symm.trans hreading) nofun
    · exact absurd (hout.symm.trans hready) nofun
    · exact absurd (hout.symm.trans hreleased) nofun
  · exact fun _ hfree => absurd (hout.symm.trans hfree) nofun

/-- A release is refused, or it gives up the slot that has the batch's lease. -/
theorem release_cases (h : loader.Invariant) (batch : Batch) (hasConsumer : Bool)
    (settled submit : Option String) :
    (∃ failure, loader.release batch hasConsumer settled submit = (loader, .threw failure)) ∨
      batch.slotIndex < loader.slotCount ∧
        (loader.slots batch.slotIndex).lease = batch.leaseId ∧
        ∃ slot callbacks, loader.Evolves batch.slotIndex slot callbacks loader.failure ∧
          loader.release batch hasConsumer settled submit =
            ((loader.evolve batch.slotIndex slot callbacks loader.failure).tryRefill
              batch.slotIndex submit, .returned) := by
  rw [release]
  split
  · next failure _ => exact .inl ⟨failure, rfl⟩
  · next slot hrequire =>
      obtain ⟨hindex, rfl, hlease, hstate⟩ := require_ok hrequire
      have hout := hstate.resolve_right nofun
      split
      · next failure _ => exact .inl ⟨failure, rfl⟩
      · refine .inr ⟨hindex, hlease, ?_⟩
        by_cases hfenced : (hasConsumer && !loader.stopping) = true
        · refine ⟨_, _, evolves_released h hindex hout fun _ : true = true => rfl, ?_⟩
          simp only [hfenced, if_true]
          rfl
        · refine ⟨_, _, evolves_released h hindex hout (h.callbacks _ hindex).2.2, ?_⟩
          simp only [hfenced, setSlot_eq_evolve]
          rfl

theorem Sound.release (h : loader.Sound) (batch : Batch) (hasConsumer : Bool)
    (settled submit : Option String) :
    (loader.release batch hasConsumer settled submit).1.Sound := by
  rcases release_cases h.toInvariant batch hasConsumer settled submit with
    ⟨failure, heq⟩ | ⟨hindex, -, slot, callbacks, hslot, heq⟩
  · rwa [heq]
  · rw [heq]
    exact h.evolve_tryRefill hindex hslot submit

/-! `next_batch` -/

/-- The batch in a slot. -/
def taken (loader : Loader) (index : Nat) : Batch where
  toBatchContent :=
    loader.source.content loader.config (loader.slots index).start (loader.slots index).count
  slotIndex := index
  leaseId := (loader.slots index).lease

/-- What a batch that is ready leaves of the loader. -/
def deliver (loader : Loader) (index : Nat) : Loader :=
  { loader.setSlot index { loader.slots index with state := .checkedOut } with
    consumed := loader.consumed + 1
    delivered := loader.delivered ++ [loader.taken index]
    handed := loader.handed ++ [(loader.generation, loader.taken index)] }

theorem deliver_slots_self :
    (loader.deliver index).slots index = { loader.slots index with state := .checkedOut } :=
  Function.update_self _ _ _

theorem deliver_slots_other {other : Nat} (h : other ≠ index) :
    (loader.deliver index).slots other = loader.slots other := Function.update_of_ne h _ _

theorem Sound.deliver (h : loader.Sound) (hbegun : loader.beginning = none)
    (hmore : loader.consumed < loader.submitted)
    (hready : (loader.slots (loader.listed loader.consumed)).state = .ready) :
    (loader.deliver (loader.listed loader.consumed)).Sound := by
  obtain ⟨hindex, hbatch, -⟩ := h.pending loader.consumed (Nat.le_refl _) hmore
  have hfilled := h.filled _ hindex (.inr hready)
  generalize hplace : loader.listed loader.consumed = index at *
  refine ⟨⟨h.slots_pos, h.valid, h.count, h.order, hmore, h.submitted_le, ?_, ?_, ?_, ?_, ?_, ?_⟩,
    ?_⟩
  · intro batch hge hlt
    obtain ⟨hlisted, hother, hholds⟩ := h.pending batch (Nat.le_of_succ_le hge) hlt
    have hne : loader.listed batch ≠ index := by
      intro heq
      rw [heq, hbatch] at hother
      exact absurd hother (Nat.ne_of_lt hge)
    refine ⟨hlisted, ?_, ?_⟩
    · exact (congrArg LoaderSlot.batch (deliver_slots_other hne)).trans hother
    · have hsame : (loader.deliver index).slots (loader.listed batch) =
          loader.slots (loader.listed batch) := deliver_slots_other hne
      exact hsame ▸ hholds
  · intro other hlt hfilling
    by_cases heq : other = index
    · subst heq
      rw [deliver_slots_self] at hfilling
      rcases hfilling with hreading | hready
      · cases hreading
      · cases hready
    · rw [deliver_slots_other heq] at hfilling ⊢
      have hold := h.filled other hlt hfilling
      refine ⟨Nat.lt_of_le_of_ne hold.consumed_le fun hsame => heq ?_, hold.lt_submitted,
        hold.listed, hold.start, hold.count, hold.reads, hold.lease⟩
      rw [← hold.listed, ← hsame, hplace]
  · intro other hlt
    by_cases heq : other = index
    · subst heq
      obtain ⟨hreading, hmarks⟩ := h.callbacks other hlt
      rw [deliver_slots_self]
      refine ⟨iff_of_false nofun fun hread => ?_, hmarks⟩
      exact absurd ((hreading.mpr hread).symm.trans hready) nofun
    · rw [deliver_slots_other heq]
      exact h.callbacks other hlt
  · have htaken : (loader.taken index).toBatchContent = loader.scheduled loader.consumed := by
      simp only [taken, scheduled]
      rw [hfilled.start, hfilled.count, hbatch]
    have hall : (loader.delivered ++ [loader.taken index]).map Batch.toBatchContent =
        (List.range (loader.consumed + 1)).map loader.scheduled := by
      rw [List.map_append, h.delivered, List.range_succ, List.map_append, List.map_singleton,
        List.map_singleton, htaken]
    exact hall
  · intro entry hmem
    rcases List.mem_append.mp hmem with hbefore | hnow
    · obtain ⟨hgeneration, hlease, hstale⟩ := h.handed entry hbefore
      refine ⟨hgeneration, hlease, ?_⟩
      by_cases heq : entry.2.slotIndex = index
      · rw [heq, deliver_slots_self]
        rw [heq] at hstale
        exact fun hsame _ => hstale hsame fun hfree => absurd (hready.symm.trans hfree) nofun
      · rw [deliver_slots_other heq]
        exact hstale
    · cases List.mem_singleton.mp hnow
      exact ⟨Nat.le_refl _, hfilled.lease, fun _ _ => rfl⟩
  · exact fun hbeginning => absurd hbegun hbeginning
  · intro hnormal hepoch hleft other hother _
    by_cases heq : other = index
    · subst heq
      rw [deliver_slots_self]
      rintro (hfree | hfree)
      · cases hfree
      · cases hfree.1
    · rw [deliver_slots_other heq]
      exact h.working hnormal hepoch hleft other hother trivial

/-- `next_batch` delivers the next batch when it is ready, or changes nothing. -/
theorem nextBatch_cases (loader : Loader) (stopRequested : Bool) :
    (loader.nextBatch stopRequested = (loader.deliver (loader.listed loader.consumed),
          .batch (loader.taken (loader.listed loader.consumed))) ∧
        loader.consumed ≠ loader.submitted ∧
        (loader.slots (loader.listed loader.consumed)).state = .ready) ∨
      ∃ outcome, loader.nextBatch stopRequested = (loader, outcome) ∧
        (outcome = .finished → loader.stopping = true ∨ stopRequested = true ∨
          loader.consumed = loader.batchCount) ∧
        ∀ batch, outcome ≠ .batch batch := by
  rw [nextBatch]
  split
  · next hstopping => exact .inr ⟨_, rfl, fun _ => .inl hstopping, nofun⟩
  · split
    · next failure _ => exact .inr ⟨_, rfl, nofun, nofun⟩
    · split
      · next hall => exact .inr ⟨_, rfl, fun _ => .inr hall, nofun⟩
      · split
        · exact .inr ⟨_, rfl, nofun, nofun⟩
        · next hmore =>
            simp only
            split
            · next hready => exact .inl ⟨rfl, hmore, hready.2⟩
            · exact .inr ⟨_, rfl, nofun, nofun⟩

theorem Sound.nextBatch (h : loader.Sound) (hbegun : loader.beginning = none)
    (stopRequested : Bool) : (loader.nextBatch stopRequested).1.Sound := by
  rcases nextBatch_cases loader stopRequested with ⟨heq, hmore, hready⟩ | ⟨outcome, heq, -⟩
  · rw [heq]
    exact h.deliver hbegun (Nat.lt_of_le_of_ne h.consumed_le hmore) hready
  · rwa [heq]

/-! `begin_epoch` -/

theorem Sound.flagged (h : loader.Sound) {failure : Option String} {stopping resetting : Bool}
    {beginning : Option (Option IndexSchedule × Nat)}
    (hnormal : (loader.flagged failure stopping resetting beginning).Normal → loader.Normal)
    (hbeginning : beginning ≠ none → resetting = true ∧ ¬loader.checkedOut) :
    (loader.flagged failure stopping resetting beginning).Sound :=
  ⟨h.toInvariant.flagged hnormal hbeginning, fun hafter => h.working (hnormal hafter)⟩

theorem beginEpoch_cases (loader : Loader) (schedule : Option IndexSchedule) (resumeOffset : Nat) :
    (∃ failure, loader.beginEpoch schedule resumeOffset = (loader, .threw failure)) ∨
      ¬loader.checkedOut ∧ loader.beginEpoch schedule resumeOffset =
        (loader.flagged loader.failure loader.stopping true (some (schedule, resumeOffset)),
          .waiting) := by
  rw [beginEpoch]
  split
  · next failure _ => exact .inl ⟨failure, rfl⟩
  · split
    · next failure _ => exact .inl ⟨failure, rfl⟩
    · split
      · exact .inl ⟨_, rfl⟩
      · next hnone => exact .inr ⟨hnone, rfl⟩

theorem Sound.beginEpoch (h : loader.Sound) (schedule : Option IndexSchedule)
    (resumeOffset : Nat) : (loader.beginEpoch schedule resumeOffset).1.Sound := by
  rcases beginEpoch_cases loader schedule resumeOffset with ⟨failure, heq⟩ | ⟨hnone, heq⟩
  · rwa [heq]
  · rw [heq]
    exact h.flagged (fun hafter => nomatch hafter.2.2) fun _ => ⟨rfl, hnone⟩

theorem Sound.beginFailed (h : loader.Sound) (failure : String) :
    (loader.beginFailed failure).1.Sound :=
  h.flagged (fun hafter => hafter) fun hne => absurd rfl hne

theorem Sound.stopWorkers (h : loader.Sound) :
    (loader.flagged loader.failure true loader.resetting loader.beginning).Sound :=
  h.flagged (fun hafter => nomatch hafter.2.1) h.toInvariant.beginning

/-- The slots before a turn of the loop have been refilled, and nothing has been thrown. -/
theorem refillAll_spec (submits : Nat → Option String) (places : List Nat) {done : Nat → Prop}
    (h : loader.Invariant) (hnormal : loader.Normal) (hbegun : loader.beginning = none)
    (hplaces : ∀ index ∈ places, index < loader.slotCount) (hworking : loader.Working done) :
    (loader.refillAll submits places).1.Invariant ∧
      (loader.refillAll submits places).1.frame = loader.frame ∧
      (loader.refillAll submits places).1.Working fun index => done index ∨ index ∈ places := by
  induction places generalizing loader done with
  | nil =>
      refine ⟨h, rfl, fun hafter hepoch hmore index hindex hdone => ?_⟩
      exact hworking hafter hepoch hmore index hindex (hdone.resolve_right List.not_mem_nil)
  | cons place rest ih =>
      have hrefilled := refill_spec h hnormal (hplaces place List.mem_cons_self) hbegun
        (submits place)
      rw [refillAll]
      split
      · next after heq =>
          rw [heq] at hrefilled
          have hframe := hrefilled.frame
          simp only [Loader.frame, Prod.mk.injEq] at hframe
          obtain ⟨-, hslotCount, -, -, -, hbeginning⟩ := hframe
          have hrest : ∀ index ∈ rest, index < after.slotCount := fun index hmem =>
            hslotCount.symm ▸ hplaces index (List.mem_cons_of_mem _ hmem)
          obtain ⟨hinvariant, hsame, hall⟩ := ih hrefilled.invariant (hrefilled.normal rfl)
            (hbeginning.trans hbegun) hrest (hrefilled.working rfl hnormal hworking)
          refine ⟨hinvariant, hsame.trans hrefilled.frame, ?_⟩
          intro hafter hepoch hmore index hindex hdone
          apply hall hafter hepoch hmore index hindex
          rcases hdone with hdone | hmem
          · exact .inl (.inl hdone)
          · exact (List.mem_cons.mp hmem).imp_left .inr
      · next after failure heq =>
          rw [heq] at hrefilled
          refine ⟨hrefilled.invariant, hrefilled.frame, .of_failed fun hafter => ?_⟩
          exact hrefilled.failed (Option.some_ne_none failure) hafter.1

theorem Invariant.reset (h : loader.Invariant) (source : EpochSource) (seed : Nat)
    (horder : List.Perm source.order loader.eligible)
    (hdrained : ∀ index < loader.slotCount, loader.callbacks index = .none) :
    (loader.reset source seed).Invariant where
  slots_pos := h.slots_pos
  valid := h.valid
  count := rfl
  order := horder
  consumed_le := Nat.le_refl _
  submitted_le := Nat.zero_le _
  pending batch _ hlt := absurd hlt (Nat.not_lt_zero batch)
  filled index _ hfilling := by
    rcases hfilling with hreading | hready
    · cases hreading
    · cases hready
  callbacks index hindex := by
    have hmarks := (h.callbacks index hindex).2
    have hnone : (loader.reset source seed).callbacks index = .none := hdrained index hindex
    rw [hnone]
    rw [hdrained index hindex] at hmarks
    exact ⟨iff_of_false nofun nofun, hmarks⟩
  delivered := rfl
  handed entry hmem := by
    obtain ⟨hgeneration, hlease, -⟩ := h.handed entry hmem
    exact ⟨Nat.le_succ_of_le hgeneration, hlease, fun _ htaken => absurd rfl htaken⟩
  beginning hbeginning := absurd rfl hbeginning

theorem epochOrder_perm (shuffler : Shuffler) (h : loader.Invariant)
    (schedule : Option IndexSchedule) :
    ∃ order, loader.epochOrder shuffler schedule = .ok order ∧
      List.Perm order loader.eligible := by
  rw [epochOrder]
  split
  · exact shuffler.buildBlockShuffledOrder_perm loader.eligible h.valid.batchSize _
  · exact ⟨_, rfl, h.order⟩

/-- The epoch that begins when the stream has drained. -/
theorem beginFinished_cases (shuffler : Shuffler) (h : loader.Invariant)
    (submits : Nat → Option String) (hbeginning : loader.beginning ≠ none) :
    (∃ failure, loader.beginFinished shuffler submits =
        (loader.flagged loader.failure loader.stopping loader.resetting none, .threw failure)) ∨
      ∃ schedule resumeOffset order, loader.beginning = some (schedule, resumeOffset) ∧
        loader.failure = none ∧ loader.stopping = false ∧
        loader.epochOrder shuffler schedule = .ok order ∧ List.Perm order loader.eligible ∧
        (loader.beginFinished shuffler submits).1 =
          ((loader.reset ⟨order, schedule, resumeOffset⟩ (loader.nextSeed schedule)).refillAll
            submits (List.range loader.slotCount)).1 := by
  obtain ⟨⟨schedule, resumeOffset⟩, hbegun⟩ := Option.ne_none_iff_exists'.mp hbeginning
  rw [beginFinished, hbegun]
  simp only
  split
  · next failure _ => exact .inl ⟨failure, rfl⟩
  · next hcheck =>
      obtain ⟨order, horder, hperm⟩ := epochOrder_perm shuffler h schedule
      have hflags : loader.failure = none ∧ loader.stopping = false := by
        rw [checkFailure] at hcheck
        split at hcheck
        · cases hcheck
        · next hnone =>
            refine ⟨hnone, ?_⟩
            by_contra hstopping
            rw [if_pos (Bool.eq_true_of_not_eq_false hstopping)] at hcheck
            cases hcheck
      refine .inr ⟨schedule, resumeOffset, order, rfl, hflags.1, hflags.2, horder, hperm, ?_⟩
      rw [horder]
      simp only
      split
      · next heq => exact (congrArg Prod.fst heq).symm
      · next heq => exact (congrArg Prod.fst heq).symm

theorem Sound.beginFinished (shuffler : Shuffler) (h : loader.Sound)
    (hbeginning : loader.beginning ≠ none)
    (hdrained : ∀ index < loader.slotCount, loader.callbacks index = .none)
    (submits : Nat → Option String) : (loader.beginFinished shuffler submits).1.Sound := by
  rcases beginFinished_cases shuffler h.toInvariant submits hbeginning with
    ⟨failure, heq⟩ | ⟨schedule, resumeOffset, order, -, hfailure, hstopping, -, hperm, heq⟩
  · rw [heq]
    exact h.flagged (fun hafter => hafter) fun hne => absurd rfl hne
  · rw [heq]
    have hreset := h.toInvariant.reset ⟨order, schedule, resumeOffset⟩ (loader.nextSeed schedule)
      hperm hdrained
    have hnone : (loader.reset ⟨order, schedule, resumeOffset⟩
        (loader.nextSeed schedule)).Working fun _ => False := fun _ _ _ _ _ hdone => hdone.elim
    obtain ⟨hinvariant, hframe, hworking⟩ := refillAll_spec submits (List.range loader.slotCount)
      hreset ⟨hfailure, hstopping, rfl⟩ rfl (fun index hmem => List.mem_range.mp hmem) hnone
    simp only [Loader.frame, Prod.mk.injEq] at hframe
    refine ⟨hinvariant, fun hnormal hepoch hmore index hindex _ => ?_⟩
    exact hworking hnormal hepoch hmore index hindex
      (.inr (List.mem_range.mpr (hframe.2.1 ▸ hindex)))

/-! Whole runs. -/

theorem Sound.constructed {config : LoaderConfig} (hvalid : config.Valid) (seed : Nat)
    (eligible : List Nat) (prefetch : Nat) :
    (Loader.constructed config seed eligible prefetch).Sound where
  slots_pos := Nat.lt_of_lt_of_le Nat.one_pos (Nat.le_max_left _ _)
  valid := hvalid
  count := rfl
  order := .refl _
  consumed_le := Nat.le_refl _
  submitted_le := Nat.zero_le _
  pending batch _ hlt := absurd hlt (Nat.not_lt_zero batch)
  filled _ _ hfilling := by
    rcases hfilling with hreading | hready
    · cases hreading
    · cases hready
  callbacks _ _ := ⟨iff_of_false nofun nofun, nofun, nofun⟩
  delivered := rfl
  handed _ hmem := absurd hmem List.not_mem_nil
  beginning hbeginning := absurd rfl hbeginning
  working _ hepoch := nomatch hepoch

theorem Sound.run {shuffler : Shuffler} (h : loader.Sound) {action : LoaderAction}
    (henabled : action.Enabled loader) : (action.run shuffler loader).1.Sound := by
  cases action with
  | beginEpoch schedule resumeOffset => exact h.beginEpoch schedule resumeOffset
  | beginFailed failure => exact h.beginFailed failure
  | beginFinished submits => exact h.beginFinished shuffler henabled.1 henabled.2 submits
  | nextBatch stopped stopRequested =>
      rw [LoaderAction.run, requestBatch]
      split
      · exact h
      · split
        · exact h.beginEpoch none 0
        · exact h.nextBatch henabled stopRequested
  | release batch hasConsumer settled submit => exact h.release batch hasConsumer settled submit
  | readComplete index error read =>
      exact h.readComplete henabled.1 henabled.2.1 henabled.2.2
  | transferComplete index error submit => exact h.transferComplete henabled.1 error submit
  | consumerComplete index error submit => exact h.consumerComplete henabled.1 error submit
  | stopWorkers => exact h.stopWorkers

theorem Reachable.sound {shuffler : Shuffler} (h : Reachable shuffler loader) : loader.Sound := by
  induction h with
  | constructed config hvalid seed _ eligible prefetch =>
      exact .constructed hvalid seed eligible prefetch
  | step action _ henabled ih => exact ih.run henabled

end Loader

end Mmltk.Loading
