import Mathlib.Algebra.GroupWithZero.Nat
import Mathlib.Algebra.Order.BigOperators.Group.List
import Mathlib.Algebra.Order.Group.Nat
import Mathlib.Data.List.Nodup
import Mathlib.Data.List.Perm.Basic
import Mathlib.Data.List.Range

namespace Mmltk.Training

/-! How the canonical parameters are divided into buckets. -/

structure Tensor where
  scalarType : Nat
  device : Nat
  nbytes : Nat
  deriving DecidableEq, Repr

structure BucketLayout where
  parameterCount : Nat
  buckets : List (List Nat)
  partition : buckets.flatten.Perm (List.range parameterCount)

namespace BucketLayout

def size (layout : BucketLayout) : Nat :=
  layout.buckets.length

def parameters (layout : BucketLayout) (bucket : Nat) : List Nat :=
  layout.buckets.getD bucket []

def bucket (layout : BucketLayout) (parameter : Nat) : Nat :=
  layout.buckets.findIdx fun bucket => decide (parameter ∈ bucket)

variable (layout : BucketLayout) {bucket parameter : Nat}

theorem nodup_flatten : layout.buckets.flatten.Nodup :=
  layout.partition.nodup_iff.mpr List.nodup_range

theorem mem_parameters :
    parameter ∈ layout.parameters bucket ↔
      ∃ h : bucket < layout.buckets.length, parameter ∈ layout.buckets[bucket] := by
  rw [parameters, List.getD_eq_getElem?_getD]
  by_cases hbucket : bucket < layout.buckets.length
  · rw [List.getElem?_eq_getElem hbucket]
    exact ⟨fun h => ⟨hbucket, h⟩, fun h => h.2⟩
  · rw [List.getElem?_eq_none (Nat.le_of_not_lt hbucket)]
    constructor
    · intro h
      exact absurd h List.not_mem_nil
    · intro h
      exact absurd h.1 hbucket

theorem lt_size_of_mem (h : parameter ∈ layout.parameters bucket) : bucket < layout.size :=
  (layout.mem_parameters.mp h).1

theorem lt_parameterCount (h : parameter ∈ layout.parameters bucket) :
    parameter < layout.parameterCount := by
  obtain ⟨hbucket, hmem⟩ := layout.mem_parameters.mp h
  have hflatten : parameter ∈ layout.buckets.flatten :=
    List.mem_flatten.mpr ⟨_, List.getElem_mem hbucket, hmem⟩
  exact List.mem_range.mp (layout.partition.mem_iff.mp hflatten)

theorem nodup_parameters (bucket : Nat) : (layout.parameters bucket).Nodup := by
  rw [parameters, List.getD_eq_getElem?_getD]
  by_cases hbucket : bucket < layout.buckets.length
  · rw [List.getElem?_eq_getElem hbucket]
    exact (List.nodup_flatten.mp layout.nodup_flatten).1 _ (List.getElem_mem hbucket)
  · rw [List.getElem?_eq_none (Nat.le_of_not_lt hbucket)]
    exact List.nodup_nil

/-- A parameter stands in one bucket, the one `bucket` finds. -/
theorem bucket_eq (h : parameter ∈ layout.parameters bucket) :
    layout.bucket parameter = bucket := by
  obtain ⟨hbucket, hmem⟩ := layout.mem_parameters.mp h
  rw [BucketLayout.bucket]
  apply (List.findIdx_eq hbucket).mpr
  refine ⟨decide_eq_true hmem, ?_⟩
  intro earlier hearlier
  apply decide_eq_false
  intro hother
  have hpairwise := (List.nodup_flatten.mp layout.nodup_flatten).2
  exact List.pairwise_iff_getElem.mp hpairwise earlier bucket (by omega) hbucket hearlier
    hother hmem

theorem mem_bucket (h : parameter < layout.parameterCount) :
    parameter ∈ layout.parameters (layout.bucket parameter) := by
  have hflatten : parameter ∈ layout.buckets.flatten :=
    layout.partition.mem_iff.mpr (List.mem_range.mpr h)
  obtain ⟨list, hlist, hmem⟩ := List.mem_flatten.mp hflatten
  obtain ⟨index, hindex, rfl⟩ := List.mem_iff_getElem.mp hlist
  have hfound := layout.mem_parameters.mpr ⟨hindex, hmem⟩
  rw [layout.bucket_eq hfound]
  exact hfound

theorem bucket_lt (h : parameter < layout.parameterCount) :
    layout.bucket parameter < layout.size :=
  layout.lt_size_of_mem (layout.mem_bucket h)

end BucketLayout

/-! The regions `rebuild` hands to the bucket assignment. -/

/-- How many more tensors, taken backwards, join the region of `front`. -/
def regionLength (bucketBytes : Nat) (front : Tensor) : Nat → List Tensor → Nat
  | _, [] => 0
  | bytes, tensor :: rest =>
      if tensor.scalarType ≠ front.scalarType ∨ tensor.device ≠ front.device ∨
          bytes > bucketBytes ∨ tensor.nbytes > bucketBytes - bytes then 0
      else 1 + regionLength bucketBytes front (bytes + tensor.nbytes) rest

/-- The loop over the regions; the tensors come in backward order. -/
def bucketRegions (assignment : List Tensor → List (List Nat)) (bucketBytes : Nat) :
    List Tensor → List (List Nat)
  | [] => []
  | front :: rest =>
      let length := 1 + regionLength bucketBytes front front.nbytes rest
      (assignment ((front :: rest).take length)).map
          (·.map fun reverse => rest.length + 1 - 1 - reverse) ++
        bucketRegions assignment bucketBytes ((front :: rest).drop length)
  termination_by tensors => tensors.length
  decreasing_by
    simp only [List.length_drop, List.length_cons]
    omega

/-- The assignment puts every tensor of a region into one bucket. -/
def Partitions (assignment : List Tensor → List (List Nat)) : Prop :=
  ∀ region, (assignment region).flatten.Perm (List.range region.length)

theorem regionLength_le (bucketBytes : Nat) (front : Tensor) (bytes : Nat) (rest : List Tensor) :
    regionLength bucketBytes front bytes rest ≤ rest.length := by
  induction rest generalizing bytes with
  | nil => exact Nat.le_refl 0
  | cons tensor rest ih =>
      rw [regionLength]
      split
      · exact Nat.zero_le _
      · rw [Nat.add_comm]
        exact Nat.succ_le_succ (ih _)

theorem map_sub_range (start length : Nat) :
    ((List.range length).map fun reverse => start + length - 1 - reverse) =
      ((List.range length).map (start + ·)).reverse := by
  apply List.ext_getElem
  · simp
  · intro index hleft hright
    simp only [List.length_map, List.length_range] at hleft
    simp only [List.getElem_map, List.getElem_range, List.getElem_reverse, List.length_map,
      List.length_range]
    omega

theorem bucketRegions_partition {assignment : List Tensor → List (List Nat)}
    (h : Partitions assignment) (bucketBytes : Nat) (tensors : List Tensor) :
    (bucketRegions assignment bucketBytes tensors).flatten.Perm (List.range tensors.length) := by
  induction tensors using bucketRegions.induct bucketBytes with
  | case1 =>
      rw [bucketRegions]
      exact List.Perm.refl _
  | case2 front rest length ih =>
      have hlength : length ≤ rest.length + 1 := by
        have hregion := regionLength_le bucketBytes front front.nbytes rest
        show 1 + regionLength bucketBytes front front.nbytes rest ≤ _
        omega
      obtain ⟨start, hstart⟩ : ∃ start, rest.length + 1 = start + length :=
        ⟨rest.length + 1 - length, by omega⟩
      have hregion := h ((front :: rest).take length)
      rw [List.length_take, List.length_cons, Nat.min_eq_left hlength] at hregion
      rw [List.length_drop, List.length_cons, hstart, Nat.add_sub_cancel] at ih
      have hhead : ((assignment ((front :: rest).take length)).map
          (·.map fun reverse => rest.length + 1 - 1 - reverse)).flatten.Perm
          ((List.range length).map (start + ·)) := by
        rw [← List.map_flatten, hstart]
        apply (hregion.map _).trans
        rw [map_sub_range]
        exact List.reverse_perm _
      have hboth := (hhead.append ih).trans List.perm_append_comm
      rw [← List.range_add, ← hstart] at hboth
      rw [bucketRegions, List.flatten_append]
      exact hboth

/-- The buckets of the canonical parameters `master`, in backward order. -/
def BucketLayout.rebuild (assignment : List Tensor → List (List Nat)) (h : Partitions assignment)
    (bucketBytes : Nat) (master : List Tensor) : BucketLayout where
  parameterCount := master.length
  buckets := bucketRegions assignment bucketBytes master.reverse
  partition := by
    have hregions := bucketRegions_partition h bucketBytes master.reverse
    rw [List.length_reverse] at hregions
    exact hregions

/-! What the regions bound. -/

def Tensor.kind (tensor : Tensor) : Nat × Nat := (tensor.scalarType, tensor.device)

/-- Tensors of one type and device, and within the capacity unless there is only one. -/
structure Bounded (bucketBytes : Nat) (tensors : List Tensor) : Prop where
  alike : ∀ left ∈ tensors, ∀ right ∈ tensors, left.kind = right.kind
  fits : tensors.length ≤ 1 ∨ (tensors.map Tensor.nbytes).sum ≤ bucketBytes

section

variable {bucketBytes : Nat} {assignment : List Tensor → List (List Nat)} {tensors : List Tensor}

theorem Bounded.of_subperm {region : List Tensor} (h : Bounded bucketBytes region)
    (hsub : tensors.Subperm region) : Bounded bucketBytes tensors where
  alike left hleft right hright := h.alike left (hsub.subset hleft) right (hsub.subset hright)
  fits := by
    obtain ⟨list, hperm, hlist⟩ := hsub
    rw [← hperm.length_eq, ← (hperm.map Tensor.nbytes).sum_nat]
    exact h.fits.imp hlist.length_le.trans
      ((hlist.map Tensor.nbytes).sum_le_sum fun _ _ => Nat.zero_le _).trans

theorem regionLength_bounded (front : Tensor) (bytes : Nat) (rest : List Tensor) :
    (∀ tensor ∈ rest.take (regionLength bucketBytes front bytes rest), tensor.kind = front.kind) ∧
    (regionLength bucketBytes front bytes rest = 0 ∨
      bytes + ((rest.take (regionLength bucketBytes front bytes rest)).map Tensor.nbytes).sum ≤
        bucketBytes) := by
  induction rest generalizing bytes with
  | nil => exact ⟨by simp, .inl rfl⟩
  | cons tensor rest ih =>
      rw [regionLength]
      split
      · exact ⟨by simp, .inl rfl⟩
      · next hjoins =>
          simp only [not_or, not_not, Nat.not_lt] at hjoins
          obtain ⟨hsame, hfits⟩ := ih (bytes + tensor.nbytes)
          rw [Nat.add_comm 1, List.take_succ_cons, List.map_cons, List.sum_cons]
          refine ⟨List.forall_mem_cons.mpr ⟨Prod.ext hjoins.1 hjoins.2.1, hsame⟩, .inr ?_⟩
          rcases hfits with hlast | hfits
          · rw [hlast, List.take_zero, List.map_nil, List.sum_nil]
            omega
          · omega

theorem region_bounded (front : Tensor) (rest : List Tensor) :
    Bounded bucketBytes ((front :: rest).take
      (1 + regionLength bucketBytes front front.nbytes rest)) := by
  obtain ⟨hsame, hfits⟩ := @regionLength_bounded bucketBytes front front.nbytes rest
  rw [Nat.add_comm 1, List.take_succ_cons]
  have hfront : ∀ tensor ∈ front :: rest.take _, tensor.kind = front.kind :=
    List.forall_mem_cons.mpr ⟨rfl, hsame⟩
  refine ⟨fun left hleft right hright => ?_, hfits.imp (fun hlast => ?_) id⟩
  · exact (hfront left hleft).trans (hfront right hright).symm
  · simp [hlast]

theorem filterMap_range (tensors : List Tensor) :
    ((List.range tensors.length).filterMap fun index => tensors[index]?) = tensors := by
  induction tensors with
  | nil => rfl
  | cons tensor rest ih =>
      rw [List.length_cons, List.range_succ_eq_map, List.filterMap_cons, List.filterMap_map]
      exact congrArg (tensor :: ·) ih

theorem bucketRegions_bounded (h : Partitions assignment) :
    ∀ bucket ∈ bucketRegions assignment bucketBytes tensors,
      Bounded bucketBytes (bucket.filterMap fun index => tensors.reverse[index]?) := by
  induction tensors using bucketRegions.induct bucketBytes with
  | case1 => simp [bucketRegions]
  | case2 front rest length ih =>
      rw [bucketRegions]
      intro bucket hbucket
      rcases List.mem_append.mp hbucket with hregion | hlater
      · obtain ⟨indices, hindices, rfl⟩ := List.mem_map.mp hregion
        have hperm := h ((front :: rest).take length)
        have hsub := List.sublist_flatten_of_mem hindices
        have hselect : (indices.map fun reverse => rest.length + 1 - 1 - reverse).filterMap
            (fun index => (front :: rest).reverse[index]?) =
              indices.filterMap fun index => ((front :: rest).take length)[index]? := by
          rw [List.filterMap_map]
          apply List.filterMap_congr
          intro index hindex
          have hlt := List.mem_range.mp (hperm.subset (hsub.subset hindex))
          rw [List.length_take, List.length_cons] at hlt
          rw [Function.comp_apply, List.getElem?_take_of_lt (by omega)]
          exact List.getElem?_reverse' (by rw [List.length_cons]; omega)
        rw [hselect]
        apply (region_bounded front rest).of_subperm
        have hwhole := hperm.filterMap fun index => ((front :: rest).take length)[index]?
        rw [filterMap_range] at hwhole
        exact (hsub.filterMap _).subperm.trans hwhole.subperm
      · have hselect : (bucket.filterMap fun index => (front :: rest).reverse[index]?) =
            bucket.filterMap fun index => ((front :: rest).drop length).reverse[index]? := by
          apply List.filterMap_congr
          intro index hindex
          have hlt := List.mem_range.mp ((bucketRegions_partition h bucketBytes _).subset
            (List.mem_flatten.mpr ⟨bucket, hlater, hindex⟩))
          conv_lhs => rw [← List.take_append_drop length (front :: rest), List.reverse_append]
          exact List.getElem?_append_left (by rwa [List.length_reverse])
        exact hselect ▸ ih bucket hlater

end

/-- Whatever the assignment within a region, each parameter is in one bucket, no bucket mixes types
or devices, and only a bucket of one parameter exceeds the capacity. -/
theorem BucketLayout.rebuild_bounded {assignment : List Tensor → List (List Nat)}
    (h : Partitions assignment) (bucketBytes : Nat) (master : List Tensor) :
    (rebuild assignment h bucketBytes master).buckets.flatten.Perm (List.range master.length) ∧
      ∀ bucket ∈ (rebuild assignment h bucketBytes master).buckets,
        Bounded bucketBytes (bucket.filterMap fun index => master[index]?) := by
  refine ⟨(rebuild assignment h bucketBytes master).partition, fun bucket hbucket => ?_⟩
  have hbounded := bucketRegions_bounded h bucket hbucket
  rwa [List.reverse_reverse] at hbounded

def wholeRegion (region : List Tensor) : List (List Nat) := [List.range region.length]

theorem wholeRegion_partitions : Partitions wholeRegion := fun region => by simp [wholeRegion]

theorem BucketLayout.rebuild_bounded_whole :
    let master : List Tensor := [⟨0, 0, 4⟩, ⟨1, 0, 4⟩, ⟨1, 0, 4⟩]
    (rebuild wholeRegion wholeRegion_partitions 8 master).buckets.flatten.Perm (List.range 3) ∧
      ∀ bucket ∈ (rebuild wholeRegion wholeRegion_partitions 8 master).buckets,
        Bounded 8 (bucket.filterMap fun index => master[index]?) :=
  BucketLayout.rebuild_bounded wholeRegion_partitions 8 _

end Mmltk.Training
