import Mmltk.Training.DataPlanShards

namespace Mmltk.Training

open Mmltk.Foundation Mmltk.Loading Mmltk.Settings

namespace TrainingDataPlan

variable {sampler : Sampler} {plan : TrainingDataPlan} {shard : TrainingShard}

/-! The draws of an epoch. -/

/-- Repeats of images of the shard, no more than fit. -/
structure Reservoir.Within (images : List Nat) (capacity : Nat) (reservoir : Reservoir sampler) :
    Prop where
  extras : ∀ image ∈ reservoir.extras, image ∈ images
  room : reservoir.extras.length ≤ capacity

theorem Reservoir.Within.propose {images : List Nat} {capacity image : Nat}
    {reservoir : Reservoir sampler} (h : reservoir.Within images capacity) (himage : image ∈ images) :
    (reservoir.propose capacity image).Within images capacity := by
  rw [Reservoir.propose]
  split
  next hroom =>
    refine ⟨fun other hother => ?_, ?_⟩
    · cases List.mem_append.mp hother with
      | inl hbefore => exact h.extras other hbefore
      | inr hlast => exact List.mem_singleton.mp hlast ▸ himage
    · rw [List.length_append, List.length_singleton]
      exact hroom
  next =>
    refine ⟨fun other hother => ?_, ?_⟩
    · dsimp only at hother
      split at hother
      · exact (List.mem_or_eq_of_mem_set hother).elim (h.extras other) fun hsame => hsame ▸ himage
      · exact h.extras other hother
    · dsimp only
      split
      · rw [List.length_set]
        exact h.room
      · exact h.room

theorem Reservoir.Within.proposals {images : List Nat} {capacity image : Nat}
    {reservoir : Reservoir sampler} (h : reservoir.Within images capacity) (himage : image ∈ images)
    (count : Nat) :
    (Nat.iterate (Reservoir.propose capacity image) count reservoir).Within images capacity := by
  induction count generalizing reservoir with
  | zero => exact h
  | succ count ih => exact ih (h.propose himage)

theorem thin_within {images rest : List Nat} {capacity : Nat} {count : Nat → Nat}
    {reservoir after : Reservoir sampler} (h : reservoir.Within images capacity)
    (hrest : ∀ image ∈ rest, image ∈ images) (hafter : thin capacity count rest reservoir = .ok after) :
    after.Within images capacity := by
  induction rest generalizing reservoir with
  | nil => exact Except.ok.inj hafter ▸ h
  | cons image rest ih =>
      rw [thin] at hafter
      obtain ⟨-, hafter⟩ := guard_eq_ok.mp hafter
      exact ih (h.proposals (hrest image List.mem_cons_self) (count image))
        (fun other hother => hrest other (List.mem_cons_of_mem _ hother)) hafter

theorem fillReservoir_within {seed epochNumber capacity : Nat} {reservoir : Reservoir sampler}
    (h : plan.fillReservoir sampler shard seed epochNumber capacity = .ok reservoir) :
    reservoir.Within shard.images capacity := by
  have hempty : Reservoir.Within shard.images capacity
      (⟨[], 0, sampler.seeded seed⟩ : Reservoir sampler) := ⟨nofun, Nat.zero_le _⟩
  simp only [fillReservoir] at h
  split at h
  · exact Except.ok.inj h ▸ hempty
  · exact thin_within hempty (fun _ himage => himage) h

/-- All draws of an epoch: the shard's images once each, and repeats of some of them. -/
theorem epochDraws_ok {epochNumber : Nat} {draws : List Nat}
    (h : plan.epochDraws sampler shard epochNumber = .ok draws)
    (hpolicy : plan.policy.valid) :
    ∃ extras, draws.Perm (shard.images ++ extras) ∧ (∀ image ∈ extras, image ∈ shard.images) ∧
      draws.length ≤ ⌊plan.policy.maximumDrawMultiplier * shard.images.length⌋₊ := by
  simp only [epochDraws] at h
  split at h
  next =>
    have hperm := sampler.shuffle_perm
      (sampler.seeded (trainingStochasticKey shard.seed shard.modelId epochNumber 0 0)) shard.images
    rw [Except.ok.inj h] at hperm
    refine ⟨[], by rwa [List.append_nil], nofun, ?_⟩
    have hmultiplier : 1 ≤ plan.policy.maximumDrawMultiplier := by
      simp only [TrainDataPolicy.valid, Bool.and_eq_true, decide_eq_true_eq] at hpolicy
      exact hpolicy.1.2
    rw [hperm.length_eq, Nat.le_floor_iff (by positivity)]
    exact le_mul_of_one_le_left (Nat.cast_nonneg _) hmultiplier
  next =>
    obtain ⟨hmaximum, h⟩ := guard_eq_ok.mp h
    cases hreservoir : plan.fillReservoir sampler shard
        (trainingStochasticKey shard.seed shard.modelId epochNumber 0 0) epochNumber
        (⌊plan.policy.maximumDrawMultiplier * shard.images.length⌋₊ - shard.images.length) with
    | error failure =>
        rw [hreservoir] at h
        cases h
    | ok reservoir =>
      rw [hreservoir] at h
      have hwithin := fillReservoir_within hreservoir
      have hextras := sampler.shuffle_perm reservoir.rng reservoir.extras
      have hperm := sampler.shuffle_perm
        (sampler.shuffle reservoir.rng reservoir.extras).2
        (shard.images ++ (sampler.shuffle reservoir.rng reservoir.extras).1)
      have hdraws : (sampler.shuffle (sampler.shuffle reservoir.rng reservoir.extras).2
          (shard.images ++ (sampler.shuffle reservoir.rng reservoir.extras).1)).1 = draws :=
        Except.ok.inj h
      rw [hdraws] at hperm
      refine ⟨_, hperm, fun image himage => hwithin.extras image (hextras.mem_iff.mp himage), ?_⟩
      have hroom := hwithin.room
      rw [hperm.length_eq, List.length_append, hextras.length_eq]
      omega

/-- What an epoch gives: the draws but for a tail that is shorter than a window, and a key for
each of them. -/
structure Drawn (plan : TrainingDataPlan) (shard : TrainingShard) (epochNumber : Nat)
    (all : List Nat) (draws : TrainingEpochDraws) : Prop where
  images : draws.schedule.imageIndices = all.take (draws.microbatches * plan.batch)
  kept : draws.microbatches * plan.batch + draws.unusedTail = all.length
  tail : draws.unusedTail < plan.batch * plan.contributions
  keys : draws.schedule.drawKeys = draws.schedule.imageIndices.mapIdx fun occurrence image =>
    trainingStochasticKey shard.seed shard.modelId epochNumber occurrence image

theorem epoch_ok {model epochNumber : Nat} {draws : TrainingEpochDraws}
    (h : plan.epoch sampler model epochNumber = .ok draws) (hbatch : 0 < plan.batch)
    (hcontributions : 0 < plan.contributions) :
    ∃ shard all, plan.shards[model]? = some shard ∧
      plan.epochDraws sampler shard epochNumber = .ok all ∧
      Drawn plan shard epochNumber all draws := by
  rw [epoch] at h
  split at h
  next => cases h
  next shard hshard =>
    obtain ⟨all, hall, h⟩ := bind_eq_ok.mp h
    obtain ⟨window, hwindow, h⟩ := bind_eq_ok.mp h
    simp only [bind, Except.bind, pure, Except.pure] at h
    obtain ⟨-, h⟩ := guard_eq_ok.mp h
    have hwindow := checkedTrainingProduct_eq hwindow
    subst hwindow
    have hpositive : 0 < plan.batch * plan.contributions := Nat.mul_pos hbatch hcontributions
    have husable : all.length / (plan.batch * plan.contributions) *
        (plan.batch * plan.contributions) / plan.batch * plan.batch =
          all.length / (plan.batch * plan.contributions) * (plan.batch * plan.contributions) :=
      Nat.div_mul_cancel (Dvd.dvd.mul_left (Nat.dvd_mul_right _ _) _)
    have hsplit := Nat.div_add_mod' all.length (plan.batch * plan.contributions)
    have hlt := Nat.mod_lt all.length hpositive
    have hdraws := Except.ok.inj h
    subst hdraws
    refine ⟨shard, all, hshard, hall, ?_, ?_, ?_, rfl⟩
    · rw [husable]
    · dsimp only
      rw [husable]
      omega
    · dsimp only
      omega

/-! The ranks' parts of a microbatch lie one after another. -/

def rankStart (batch world rank : Nat) : Nat := batch / world * rank + min rank (batch % world)

def rankCount (batch world rank : Nat) : Nat := batch / world + if rank < batch % world then 1 else 0

theorem rankStart_succ (batch world rank : Nat) :
    rankStart batch world (rank + 1) = rankStart batch world rank + rankCount batch world rank := by
  rw [rankStart, rankStart, rankCount, Nat.mul_succ]
  split
  · omega
  · omega

theorem rankStart_world (batch : Nat) {world : Nat} (hworld : 0 < world) :
    rankStart batch world world = batch := by
  rw [rankStart, Nat.min_eq_right (Nat.mod_lt batch hworld).le, Nat.mul_comm]
  exact Nat.div_add_mod batch world

theorem rankParts_flatten {α : Type} (block : List α) (batch world ranks : Nat) :
    ((List.range ranks).flatMap fun rank =>
      (block.drop (rankStart batch world rank)).take (rankCount batch world rank)) =
        block.take (rankStart batch world ranks) := by
  induction ranks with
  | zero => simp [rankStart]
  | succ ranks ih =>
      rw [List.range_succ, List.flatMap_append, ih, List.flatMap_singleton, rankStart_succ,
        List.take_add]

theorem rankStart_le (batch : Nat) {world rank : Nat} (hrank : rank < world) :
    rankStart batch world rank + rankCount batch world rank ≤ batch := by
  have hmono : ∀ more, rankStart batch world (rank + 1) ≤ rankStart batch world (rank + 1 + more) :=
    fun more => by
      induction more with
      | zero => exact Nat.le_refl _
      | succ more ih =>
          refine ih.trans ?_
          rw [← Nat.add_assoc, rankStart_succ batch world (rank + 1 + more)]
          exact Nat.le_add_right _ _
  obtain ⟨more, hworld⟩ := Nat.le.dest (Nat.succ_le_of_lt hrank)
  rw [← rankStart_succ]
  refine (hmono more).trans_eq ?_
  rw [hworld]
  exact rankStart_world batch (Nat.zero_lt_of_lt hrank)

theorem trainingRankSlice_eq {batch rank world : Nat} (hbatch : 0 < batch) (hrank : rank < world) :
    trainingRankSlice batch rank world =
      .ok ⟨rankStart batch world rank, rankCount batch world rank⟩ :=
  if_neg (by omega)

/-- The images of a rank, or their keys: its part of each microbatch. -/
def rankPart (values : List Nat) (batch microbatches world rank : Nat) : List Nat :=
  (List.range microbatches).flatMap fun microbatch =>
    ((slice values batch microbatch).drop (rankStart batch world rank)).take
      (rankCount batch world rank)

theorem places_part {values : List Nat} {batch world rank microbatch : Nat} (hrank : rank < world)
    (hvalues : (microbatch + 1) * batch ≤ values.length) :
    ((List.range (rankCount batch world rank)).map fun image =>
      values.getD (microbatch * batch + rankStart batch world rank + image) 0) =
        ((slice values batch microbatch).drop (rankStart batch world rank)).take
          (rankCount batch world rank) := by
  have hle := rankStart_le batch hrank
  rw [Nat.succ_mul] at hvalues
  apply List.ext_getElem
  · rw [List.length_map, List.length_range, List.length_take, List.length_drop, slice,
      List.length_take, List.length_drop]
    omega
  · intro image hleft hright
    rw [List.length_map, List.length_range] at hleft
    rw [List.getElem_map, List.getElem_range, List.getElem_take, List.getElem_drop]
    simp only [slice]
    rw [List.getElem_take, List.getElem_drop, List.getD_eq_getElem?_getD,
      List.getElem?_eq_getElem (by omega), Option.getD_some]
    congr 1
    omega

theorem rankSchedule_eq {draws : TrainingEpochDraws} {rank world : Nat} (hbatch : 0 < plan.batch)
    (hrank : rank < world)
    (himages : draws.microbatches * plan.batch ≤ draws.schedule.imageIndices.length)
    (hkeys : draws.microbatches * plan.batch ≤ draws.schedule.drawKeys.length) :
    ∃ keys, plan.rankSchedule draws rank world = .ok
      { imageIndices :=
          rankPart draws.schedule.imageIndices plan.batch draws.microbatches world rank
        drawKeys := rankPart draws.schedule.drawKeys plan.batch draws.microbatches world rank
        microbatchKeys := keys } := by
  have hplaces : ∀ values : List Nat, draws.microbatches * plan.batch ≤ values.length →
      (((List.range draws.microbatches).flatMap fun microbatch =>
        (List.range (rankCount plan.batch world rank)).map fun image =>
          microbatch * plan.batch + rankStart plan.batch world rank + image).map
            fun index => values.getD index 0) =
        rankPart values plan.batch draws.microbatches world rank := fun values hvalues => by
    rw [List.map_flatMap, rankPart]
    refine List.flatMap_congr fun microbatch hmicrobatch => ?_
    rw [List.map_map, ← places_part hrank]
    · rfl
    · exact (Nat.mul_le_mul_right _ (List.mem_range.mp hmicrobatch)).trans hvalues
  rw [rankSchedule, trainingRankSlice_eq hbatch hrank]
  simp only [bind, Except.bind, pure, Except.pure]
  rw [if_neg (by omega), hplaces _ himages, hplaces _ hkeys]
  exact ⟨_, rfl⟩

/-- The parts of the ranks in each microbatch, in rank order. -/
def interleave (counts : Nat → Nat) (parts : Nat → List Nat) (microbatches world : Nat) : List Nat :=
  (List.range microbatches).flatMap fun microbatch =>
    (List.range world).flatMap fun rank => slice (parts rank) (counts rank) microbatch

theorem interleave_eq {values : List Nat} {batch microbatches world : Nat} (hworld : 0 < world)
    (hvalues : values.length = microbatches * batch) :
    interleave (rankCount batch world) (rankPart values batch microbatches world) microbatches world =
      values := by
  have hmicrobatch : ∀ microbatch < microbatches,
      ((List.range world).flatMap fun rank =>
        slice (rankPart values batch microbatches world rank) (rankCount batch world rank) microbatch) =
          slice values batch microbatch := fun microbatch hlt => by
    have hblock : ∀ other < microbatches, (slice values batch other).length = batch :=
      fun other hother => by
        have hle := Nat.mul_le_mul_right batch (Nat.succ_le_of_lt hother)
        rw [Nat.succ_mul] at hle
        rw [slice, List.length_take, List.length_drop]
        omega
    have hparts : ∀ rank ∈ List.range world,
        slice (rankPart values batch microbatches world rank) (rankCount batch world rank)
            microbatch =
          ((slice values batch microbatch).drop (rankStart batch world rank)).take
            (rankCount batch world rank) := fun rank hrank => by
      have hle := rankStart_le batch (List.mem_range.mp hrank)
      refine slice_flatMap (fun other hother => ?_) hlt
      rw [List.length_take, List.length_drop, hblock other hother]
      omega
    rw [List.flatMap_congr hparts, rankParts_flatten, rankStart_world batch hworld]
    exact List.take_of_length_le (hblock microbatch hlt).le
  rw [interleave, List.flatMap_congr fun microbatch hmem =>
    hmicrobatch microbatch (List.mem_range.mp hmem), slices_flatten]
  exact List.take_of_length_le hvalues.le

/-- The rank schedules exist, and put together they are the schedule of all. -/
def Reassembled (plan : TrainingDataPlan) (draws : TrainingEpochDraws) (world : Nat) : Prop :=
  ∃ (slices : Nat → TrainingRankSlice) (schedules : Nat → IndexSchedule),
    (∀ rank < world, trainingRankSlice plan.batch rank world = .ok (slices rank) ∧
      plan.rankSchedule draws rank world = .ok (schedules rank)) ∧
    interleave (fun rank => (slices rank).count) (fun rank => (schedules rank).imageIndices)
      draws.microbatches world = draws.schedule.imageIndices ∧
    interleave (fun rank => (slices rank).count) (fun rank => (schedules rank).drawKeys)
      draws.microbatches world = draws.schedule.drawKeys

theorem Drawn.reassembled {epochNumber world : Nat} {all : List Nat} {draws : TrainingEpochDraws}
    (h : Drawn plan shard epochNumber all draws) (hbatch : 0 < plan.batch) (hworld : 0 < world) :
    Reassembled plan draws world := by
  have himages : draws.schedule.imageIndices.length = draws.microbatches * plan.batch := by
    have hkept := h.kept
    rw [h.images, List.length_take]
    omega
  have hkeys : draws.schedule.drawKeys.length = draws.microbatches * plan.batch := by
    rw [h.keys, List.length_mapIdx, himages]
  have hschedule : ∀ rank, ∃ keys, rank < world → plan.rankSchedule draws rank world = .ok
      ⟨rankPart draws.schedule.imageIndices plan.batch draws.microbatches world rank,
        rankPart draws.schedule.drawKeys plan.batch draws.microbatches world rank, keys⟩ :=
    fun rank => by
      by_cases hrank : rank < world
      · obtain ⟨keys, hkeys⟩ := rankSchedule_eq hbatch hrank himages.ge hkeys.ge
        exact ⟨keys, fun _ => hkeys⟩
      · exact ⟨[], fun h => absurd h hrank⟩
  choose keys hschedule using hschedule
  refine ⟨fun rank => ⟨rankStart plan.batch world rank, rankCount plan.batch world rank⟩,
    fun rank => ⟨_, _, keys rank⟩,
    fun rank hrank => ⟨trainingRankSlice_eq hbatch hrank, hschedule rank hrank⟩, ?_, ?_⟩
  · exact interleave_eq hworld himages
  · exact interleave_eq hworld hkeys

/-! Every plan. -/

/-- A plan that loses and doubles no image, in its shards, its epochs and the parts of its ranks. -/
structure Sound (sampler : Sampler) (images : List TrainingImageClasses) (plan : TrainingDataPlan) :
    Prop where
  assigned : (plan.shards.flatMap (·.images)).Perm (eligibleSlots images)
  balanced : ∀ shard ∈ plan.shards, ∀ other ∈ plan.shards,
    shard.images.length ≤ other.images.length + 1
  drawn : ∀ model epochNumber draws, plan.epoch sampler model epochNumber = .ok draws →
    ∃ shard all, plan.shards[model]? = some shard ∧
      plan.epochDraws sampler shard epochNumber = .ok all ∧
      (∀ image, image ∈ all ↔ image ∈ shard.images) ∧
      all.length ≤ ⌊plan.policy.maximumDrawMultiplier * shard.images.length⌋₊ ∧
      Drawn plan shard epochNumber all draws
  ranks : ∀ model epochNumber draws, plan.epoch sampler model epochNumber = .ok draws →
    ∀ world, 0 < world → Reassembled plan draws world

theorem capacity_balanced (images shards shard other : Nat) :
    capacity images shards shard ≤ capacity images shards other + 1 := by
  rw [capacity, capacity]
  split
  · omega
  · omega

theorem uniqueClasses_eligible (images : List TrainingImageClasses) :
    eligibleSlots (images.map uniqueClasses) = eligibleSlots images := by
  rw [eligibleSlots, eligibleSlots, List.length_map]
  refine List.filter_congr fun slot _ => ?_
  rw [List.getElem?_map]
  cases images[slot]? with
  | none => rfl
  | some image =>
      simp only [Option.map_some, Option.any_some, uniqueClasses]
      split
      · rfl
      · rfl

variable {Recipe : Type} {policies : RequestPolicies Recipe}
  {request : TrainRequest Recipe TrainDataPolicy} {images : List TrainingImageClasses}

theorem Planned.sound (h : Planned request images plan) : Sound sampler images plan := by
  have hpolicy : plan.policy.valid := h.policy ▸ h.validated.policy
  have hbatch : 0 < plan.batch := h.batch ▸ h.validated.batch
  refine ⟨?_, fun shard hshard other hother => ?_, fun model epochNumber draws hdraws => ?_,
    fun model epochNumber draws hdraws world hworld => ?_⟩
  · rw [← uniqueClasses_eligible, ← h.membership]
    exact h.images
  · obtain ⟨index, hindex⟩ := List.getElem?_of_mem hshard
    obtain ⟨place, hplace⟩ := List.getElem?_of_mem hother
    rw [h.full index shard hindex, h.full place other hplace]
    exact capacity_balanced ..
  · obtain ⟨shard, all, hshard, hall, hdrawn⟩ := epoch_ok hdraws hbatch h.contributions
    obtain ⟨extras, hperm, hextras, hbound⟩ := epochDraws_ok hall hpolicy
    refine ⟨shard, all, hshard, hall, fun image => ?_, hbound, hdrawn⟩
    rw [hperm.mem_iff, List.mem_append]
    exact or_iff_left_of_imp (hextras image)
  · obtain ⟨shard, all, -, -, hdrawn⟩ := epoch_ok hdraws hbatch h.contributions
    exact hdrawn.reassembled hbatch hworld

/-- What a plan asks of its images. -/
structure Admitted (images : List TrainingImageClasses) (classes : Nat) : Prop where
  classCount : classes ≤ maximumClasses
  imageCount : images.length ≤ 2 ^ 32 - 1
  eligible : eligibleSlots images ≠ []
  catalog : ∀ image ∈ images, image.eligible → ∀ cls ∈ image.classes, cls < classes

end TrainingDataPlan

end Mmltk.Training
