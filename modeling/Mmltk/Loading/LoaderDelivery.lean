import Mmltk.Loading.LoaderRuns

namespace Mmltk.Loading

/-- A slot's lease and what it lends. -/
def LoaderSlot.lent (slot : LoaderSlot) : SlotState × Nat × Nat × Nat × Nat × List Nat :=
  (slot.state, slot.batch, slot.start, slot.count, slot.lease, slot.reads)

namespace Loader

variable {loader : Loader} {index : Nat} {shuffler : Shuffler}

/-! The schedule of an epoch. -/

/-- The order of an epoch depends on the samples, the batch size and the seed alone, so the ranks
cut the same order; an explicit schedule has passed its checks. -/
structure Planned (shuffler : Shuffler) (loader : Loader) : Prop where
  seed_lt : loader.seed < 2 ^ 64
  unshuffled : loader.config.shuffle = false → loader.source.order = loader.eligible
  shuffled : loader.config.shuffle = true → loader.epoch = true →
    loader.source.explicitSchedule = none →
      ∃ drawn < 2 ^ 64, loader.seed = (drawn + 1) % 2 ^ 64 ∧
        shuffler.buildBlockShuffledOrder loader.eligible loader.config.batchSize
          (shuffler.seeded drawn) = .ok loader.source.order
  explicit : ∀ schedule, loader.source.explicitSchedule = some schedule →
    loader.source.resumeOffset % loader.config.batchSize = 0
  beginning : ∀ schedule resumeOffset, loader.beginning = some (some schedule, resumeOffset) →
    resumeOffset % loader.config.batchSize = 0

theorem Planned.of_frame {after : Loader} (h : loader.Planned shuffler)
    (hframe : after.frame = loader.frame) : after.Planned shuffler := by
  simp only [frame, Prod.mk.injEq] at hframe
  obtain ⟨⟨hconfig, heligible, hseed, hsource⟩, -, -, hepoch, -, hbeginning⟩ := hframe
  refine ⟨?_, ?_, ?_, ?_, ?_⟩
  · rw [hseed]
    exact h.seed_lt
  · rw [hconfig, hsource, heligible]
    exact h.unshuffled
  · rw [hconfig, hsource, heligible, hepoch, hseed]
    exact h.shuffled
  · rw [hconfig, hsource]
    exact h.explicit
  · rw [hconfig, hbeginning]
    exact h.beginning

theorem evolve_tryRefill_frame (h : loader.Invariant) (hindex : index < loader.slotCount)
    {slot : LoaderSlot} {callbacks : Callbacks} {failure : Option String}
    (hslot : loader.Evolves index slot callbacks failure) (submit : Option String) :
    ((loader.evolve index slot callbacks failure).tryRefill index submit).frame = loader.frame :=
  (tryRefill_spec (h.evolve hslot) hindex submit).frame

theorem Planned.beginEpoch (h : loader.Planned shuffler) (schedule : Option IndexSchedule)
    (resumeOffset : Nat) : (loader.beginEpoch schedule resumeOffset).1.Planned shuffler := by
  rw [Loader.beginEpoch]
  split
  · exact h
  · next hrefusal =>
      split
      · exact h
      · split
        · exact h
        · refine ⟨h.seed_lt, h.unshuffled, h.shuffled, h.explicit, ?_⟩
          intro asked offset heq
          cases heq
          by_contra hoffset
          rw [scheduleRefusal] at hrefusal
          rw [if_pos (.inr (.inl hoffset))] at hrefusal
          cases hrefusal

theorem Planned.reset (h : loader.Planned shuffler) {schedule : Option IndexSchedule}
    {resumeOffset : Nat} {order : List Nat}
    (hbegun : loader.beginning = some (schedule, resumeOffset))
    (horder : loader.epochOrder shuffler schedule = .ok order) :
    (loader.reset ⟨order, schedule, resumeOffset⟩ (loader.nextSeed schedule)).Planned shuffler := by
  rw [epochOrder] at horder
  have hseed : loader.nextSeed schedule < 2 ^ 64 := by
    rw [nextSeed]
    split
    · exact Nat.mod_lt _ (by decide)
    · exact h.seed_lt
  refine ⟨hseed, ?_, ?_, ?_, fun _ _ heq => by cases heq⟩
  · intro hshuffle
    have hno : ¬(schedule = none ∧ loader.config.shuffle = true) := fun hshuffled =>
      absurd (hshuffled.2.symm.trans hshuffle) (by decide)
    rw [if_neg hno] at horder
    cases horder
    exact h.unshuffled hshuffle
  · intro hshuffle _ hown
    have hyes : schedule = none ∧ loader.config.shuffle = true := ⟨hown, hshuffle⟩
    rw [if_pos hyes] at horder
    refine ⟨loader.seed, h.seed_lt, ?_, horder⟩
    exact if_pos hyes
  · intro explicit hexplicit
    cases hexplicit
    exact h.beginning explicit resumeOffset hbegun

theorem Planned.run (h : loader.Planned shuffler) (hsound : loader.Sound) {action : LoaderAction}
    (henabled : action.Enabled loader) : (action.run shuffler loader).1.Planned shuffler := by
  have hinvariant := hsound.toInvariant
  cases action with
  | beginEpoch schedule resumeOffset => exact h.beginEpoch schedule resumeOffset
  | beginFailed failure =>
      exact ⟨h.seed_lt, h.unshuffled, h.shuffled, h.explicit, fun _ _ heq => by cases heq⟩
  | beginFinished submits =>
      rw [LoaderAction.run]
      rcases beginFinished_cases shuffler hinvariant submits henabled.1 with
        ⟨failure, heq⟩ | ⟨schedule, resumeOffset, order, hbegun, hfailure, hstopping, horder,
          hperm, heq⟩
      · rw [heq]
        exact ⟨h.seed_lt, h.unshuffled, h.shuffled, h.explicit, fun _ _ heq => by cases heq⟩
      · rw [heq]
        have hnone : (loader.reset ⟨order, schedule, resumeOffset⟩
            (loader.nextSeed schedule)).Working fun _ => False :=
          fun _ _ _ _ _ hdone => hdone.elim
        have hspec := refillAll_spec submits (List.range loader.slotCount)
          (hinvariant.reset ⟨order, schedule, resumeOffset⟩ (loader.nextSeed schedule) hperm
            henabled.2)
          ⟨hfailure, hstopping, rfl⟩ rfl (fun index hmem => List.mem_range.mp hmem) hnone
        exact (h.reset hbegun horder).of_frame hspec.2.1
  | nextBatch stopped stopRequested =>
      rw [LoaderAction.run, requestBatch]
      split
      · exact h
      · split
        · exact h.beginEpoch none 0
        · rcases nextBatch_cases loader stopRequested with ⟨heq, -⟩ | ⟨outcome, heq, -⟩
          · rw [heq]
            exact h.of_frame rfl
          · rwa [heq]
  | release batch hasConsumer settled submit =>
      rw [LoaderAction.run]
      rcases release_cases hinvariant batch hasConsumer settled submit with
        ⟨failure, heq⟩ | ⟨hindex, -, slot, callbacks, hslot, heq⟩
      · rwa [heq]
      · rw [heq]
        exact h.of_frame (evolve_tryRefill_frame hinvariant hindex hslot submit)
  | readComplete index error read => exact h.of_frame rfl
  | transferComplete index error submit =>
      exact h.of_frame (evolve_tryRefill_frame hinvariant henabled.1
        (evolves_transferred hinvariant henabled.1 error) submit)
  | consumerComplete index error submit =>
      exact h.of_frame (evolve_tryRefill_frame hinvariant henabled.1
        (evolves_consumed hinvariant henabled.1 error) submit)
  | stopWorkers => exact h.of_frame rfl

theorem Sound.stale (h : loader.Sound) {generation : Nat} {batch : Batch}
    (hhanded : (generation, batch) ∈ loader.handed) (hearlier : generation ≠ loader.generation)
    (operation : String) (released : Bool) (slot : LoaderSlot) :
    loader.require batch operation released ≠ .ok slot := by
  intro hok
  obtain ⟨-, rfl, hlease, hstate⟩ := require_ok hok
  apply hearlier
  apply (h.handed _ hhanded).2.2 hlease
  intro hfree
  rcases hstate with hout | ⟨-, hreleased⟩
  · exact absurd (hout.symm.trans hfree) nofun
  · exact absurd (hreleased.symm.trans hfree) nofun

/-! Progress -/

end Loader

end Mmltk.Loading
