import Mathlib.Algebra.BigOperators.Fin
import Mathlib.Algebra.Order.BigOperators.Group.Finset
import Mmltk.Foundation.Outcome
import Mmltk.Training.DataPlan

namespace Mmltk.Training

open Mmltk.Foundation Mmltk.Loading Mmltk.Settings

namespace TrainingDataPlan

/-! Shards fill up to capacities that add up to the number of images. -/

theorem capacity_sum (images : Nat) {shards : Nat} (hshards : 0 < shards) :
    ∑ shard : Fin shards, capacity images shards shard = images := by
  have hextra : ∑ shard ∈ Finset.range shards, (if shard < images % shards then 1 else 0) =
      images % shards := by
    have hfilter : (Finset.range shards).filter (· < images % shards) =
        Finset.range (images % shards) := by
      ext shard
      rw [Finset.mem_filter, Finset.mem_range, Finset.mem_range]
      exact and_iff_right_of_imp fun hlt => hlt.trans (Nat.mod_lt images hshards)
    rw [Finset.sum_boole, hfilter, Finset.card_range]
    rfl
  rw [Fin.sum_univ_eq_sum_range (capacity images shards) shards]
  simp only [capacity]
  rw [Finset.sum_add_distrib, hextra, Finset.sum_const, Finset.card_range, smul_eq_mul]
  exact Nat.div_add_mod images shards

variable {membership : List TrainingImageClasses} {balancing : TrainBalancing}
  {room : Nat → TrainingShard → Bool} {score : Nat → TrainingShard → ℚ} {images : Nat}

/-- No shard has more images than its capacity. -/
def Filling (images : Nat) (shards : List TrainingShard) : Prop :=
  ∀ index shard, shards[index]? = some shard →
    shard.images.length ≤ capacity images shards.length index

theorem total_eq (shards : List TrainingShard) :
    (shards.flatMap (·.images)).length = ∑ index : Fin shards.length, shards[index].images.length := by
  rw [List.length_flatMap]
  exact (Fin.sum_univ_fun_getElem shards fun shard => shard.images.length).symm

theorem Filling.total_le {shards : List TrainingShard} (h : Filling images shards)
    (hshards : shards ≠ []) : (shards.flatMap (·.images)).length ≤ images := by
  rw [total_eq, ← capacity_sum images (List.length_pos_iff.mpr hshards)]
  exact Finset.sum_le_sum fun index _ => h index shards[index] (List.getElem?_eq_getElem index.isLt)

theorem Filling.full {shards : List TrainingShard} (h : Filling images shards)
    (hshards : shards ≠ []) (htotal : images ≤ (shards.flatMap (·.images)).length)
    {index : Nat} {shard : TrainingShard} (hshard : shards[index]? = some shard) :
    shard.images.length = capacity images shards.length index := by
  have hle : ∀ index ∈ (Finset.univ : Finset (Fin shards.length)),
      shards[index].images.length ≤ capacity images shards.length index :=
    fun index _ => h index shards[index] (List.getElem?_eq_getElem index.isLt)
  have hequal : ∑ index : Fin shards.length, shards[index].images.length =
      ∑ index : Fin shards.length, capacity images shards.length index := by
    rw [← total_eq, capacity_sum images (List.length_pos_iff.mpr hshards)]
    exact Nat.le_antisymm (h.total_le hshards) htotal
  obtain ⟨hindex, rfl⟩ := List.getElem?_eq_some_iff.mp hshard
  exact (Finset.sum_eq_sum_iff_of_le hle).mp hequal ⟨index, hindex⟩ (Finset.mem_univ _)

/-- While images are missing some shard has room. -/
theorem hasRoom {shards : List TrainingShard}
    (hshards : shards ≠ []) (htotal : (shards.flatMap (·.images)).length < images) :
    ∃ index shard, shards[index]? = some shard ∧
      shard.images.length ≠ capacity images shards.length index := by
  by_contra hnone
  simp only [not_exists, not_and, not_not] at hnone
  have hequal : (shards.flatMap (·.images)).length = images := by
    rw [total_eq, ← capacity_sum images (List.length_pos_iff.mpr hshards)]
    exact Finset.sum_congr rfl fun index _ =>
      hnone index shards[index] (List.getElem?_eq_getElem index.isLt)
  omega

theorem Filling.add {shards : List TrainingShard} (h : Filling images shards) {chosen : Nat}
    {shard : TrainingShard} (hshard : shards[chosen]? = some shard)
    (hroom : shard.images.length ≠ capacity images shards.length chosen) (classes : List Nat)
    (image : Nat) : Filling images (shards.modify chosen (addImage classes image)) := by
  intro index other hother
  rw [List.length_modify]
  rw [List.getElem?_modify] at hother
  obtain ⟨before, hbefore, rfl⟩ := Option.map_eq_some_iff.mp hother
  have hle := h index before hbefore
  split
  next hsame =>
    subst hsame
    rw [hshard, Option.some.injEq] at hbefore
    subst hbefore
    rw [addImage, List.length_append, List.length_singleton]
    omega
  next => exact hle

variable {Recipe : Type} {policies : RequestPolicies Recipe}
  {request : TrainRequest Recipe TrainDataPolicy} {sampler : Sampler}

/-- What a validated request has. -/
structure Validated (request : TrainRequest Recipe TrainDataPolicy) : Prop where
  policy : request.options.valid
  batch : 0 < request.batchSize
  lanes : 1 ≤ request.lanes
  steps : 1 ≤ request.gradAccumSteps
  models : request.laneConfiguration.mode ≠ .sharedGradients →
    request.laneConfiguration.models.length = request.lanes.toNat

theorem validated (h : request.validateConfiguration policies.fields = .ok ()) :
    Validated request := by
  simp only [TrainRequest.validateConfiguration, bind, Except.bind, pure, Except.pure] at h
  obtain ⟨-, h⟩ := guard_eq_ok.mp h
  obtain ⟨hpolicy, h⟩ := guard_eq_ok.mp h
  obtain ⟨hlanes, h⟩ := guard_eq_ok.mp h
  obtain ⟨hmodels, -⟩ := guard_eq_ok.mp h
  refine ⟨not_not.mp hpolicy, by omega, by omega, by omega, fun hmode => ?_⟩
  exact Decidable.byContradiction fun hlength => hmodels ⟨hmode, hlength⟩

theorem checkedTrainingProduct_eq {left right product : Nat}
    (h : checkedTrainingProduct left right = .ok product) : product = left * right := by
  rw [checkedTrainingProduct] at h
  exact (Except.ok.inj (guard_eq_ok.mp h).2).symm

/-- What the plan of a request is made of: every eligible image is in one shard, once, and every
shard is full. -/
structure Planned (request : TrainRequest Recipe TrainDataPolicy)
    (images : List TrainingImageClasses) (plan : TrainingDataPlan) : Prop where
  validated : Validated request
  membership : plan.membership = images.map uniqueClasses
  policy : plan.policy = request.options
  batch : plan.batch = request.batchSize
  contributions : 0 < plan.contributions
  shards : plan.shards ≠ []
  images : (plan.shards.flatMap (·.images)).Perm (eligibleSlots plan.membership)
  full : ∀ index shard, plan.shards[index]? = some shard →
    shard.images.length = capacity (eligibleSlots plan.membership).length plan.shards.length index

end TrainingDataPlan

end Mmltk.Training
