import Mathlib.Algebra.Order.BigOperators.Group.Finset
import Mmltk.Sampling.Supplemental

namespace Mmltk.Sampling

/-! The shards that are chosen are enough, and none of them can be done without. -/

section

variable {score : Nat → Nat → ℚ} {summaries : List ShardSummary} {bytes : List Nat}
  {headroom : Nat} {targets : Nat → Nat} {selection : ShardSelection} {shards others : List Nat}
  {shard position : Nat}

def shardImages (summaries : List ShardSummary) (shards : List Nat) : Nat :=
  (shards.map fun shard => (summaryAt summaries shard).images).sum

def shardClassImages (summaries : List ShardSummary) (shards : List Nat) (classId : Nat) : Nat :=
  (shards.map fun shard => (summaryAt summaries shard).classImages classId).sum

/-- The shards have the images and the classes that are asked for. -/
structure Enough (summaries : List ShardSummary) (headroom : Nat) (targets : Nat → Nat)
    (shards : List Nat) : Prop where
  images : headroom ≤ shardImages summaries shards
  classes : ∀ classId < classCount, targets classId ≤ shardClassImages summaries shards classId

theorem Enough.perm (h : Enough summaries headroom targets shards) (hperm : shards.Perm others) :
    Enough summaries headroom targets others where
  images := h.images.trans_eq (hperm.map _).sum_eq
  classes classId hclass := (h.classes classId hclass).trans_eq (hperm.map _).sum_eq

/-- What a selection says of its shards. -/
structure Tracks (summaries : List ShardSummary) (selection : ShardSelection) : Prop where
  selected : ∀ shard, selection.selected shard = true ↔ shard ∈ selection.result
  nodup : selection.result.Nodup
  inside : ∀ shard ∈ selection.result, shard < summaries.length
  images : selection.images = shardImages summaries selection.result
  coverage : ∀ classId, selection.coverage classId =
    shardClassImages summaries selection.result classId

theorem tracks_nothing (summaries : List ShardSummary) :
    Tracks summaries ⟨fun _ => false, fun _ => 0, 0, 0, []⟩ :=
  ⟨fun _ => iff_of_false Bool.false_ne_true List.not_mem_nil, .nil, nofun, rfl, fun _ => rfl⟩

theorem covers_iff {coverage : Nat → Nat} : covers targets coverage = true ↔
    ∀ classId < classCount, targets classId ≤ coverage classId := by
  simp only [covers, List.all_eq_true, List.mem_range, decide_eq_true_eq]

theorem Tracks.enough_iff (h : Tracks summaries selection) :
    (headroom ≤ selection.images ∧ covers targets selection.coverage = true) ↔
      Enough summaries headroom targets selection.result := by
  rw [covers_iff, h.images]
  simp only [h.coverage]
  exact ⟨fun hboth => ⟨hboth.1, hboth.2⟩, fun henough => ⟨henough.images, henough.classes⟩⟩

/-! Which shard is the best. -/

theorem betterShards_none {best : Option (Nat × ℚ)} :
    shards.foldl (betterShard score summaries bytes headroom targets selection) best = none ↔
      best = none ∧ ∀ shard ∈ shards, selection.selected shard = true ∨
        (summaryAt summaries shard).images = 0 := by
  induction shards generalizing best with
  | nil => exact (and_iff_left nofun).symm
  | cons shard shards ih =>
      rw [List.foldl_cons, ih, List.forall_mem_cons, ← and_assoc]
      refine and_congr_left fun _ => ?_
      rw [betterShard]
      split
      next hskip =>
        rw [Bool.or_eq_true, beq_iff_eq] at hskip
        exact (and_iff_left hskip).symm
      next htake =>
        rw [Bool.or_eq_true, beq_iff_eq] at htake
        cases best with
        | none => exact iff_of_false nofun fun h => htake h.2
        | some best =>
            dsimp only
            split
            · exact iff_of_false nofun nofun
            · exact iff_of_false nofun nofun

theorem betterShards_some {best : Option (Nat × ℚ)} {found : Nat × ℚ}
    (h : shards.foldl (betterShard score summaries bytes headroom targets selection) best =
      some found) :
    best = some found ∨ found.1 ∈ shards ∧ selection.selected found.1 = false ∧
      (summaryAt summaries found.1).images ≠ 0 := by
  induction shards generalizing best with
  | nil => exact .inl h
  | cons shard shards ih =>
      rcases ih h with hbest | ⟨hmem, hfree⟩
      · rw [betterShard] at hbest
        split at hbest
        next => exact .inl hbest
        next htake =>
          rw [Bool.or_eq_true, beq_iff_eq, not_or, Bool.not_eq_true] at htake
          have hown : ∀ value, some (shard, value) = some found →
              found.1 ∈ shard :: shards ∧ selection.selected found.1 = false ∧
                (summaryAt summaries found.1).images ≠ 0 := by
            intro value hsame
            obtain rfl := Option.some.inj hsame
            exact ⟨List.mem_cons_self, htake⟩
          cases best with
          | none => exact .inr (hown _ hbest)
          | some best =>
              dsimp only at hbest
              split at hbest
              · exact .inr (hown _ hbest)
              · exact .inl hbest
      · exact .inr ⟨List.mem_cons_of_mem _ hmem, hfree⟩

theorem bestShard_none
    (h : bestShard score summaries bytes headroom targets selection = none) :
    ∀ shard < summaries.length, selection.selected shard = true ∨
      (summaryAt summaries shard).images = 0 := by
  intro shard hshard
  rw [bestShard, Option.map_eq_none_iff, betterShards_none] at h
  exact h.2 shard (List.mem_range.mpr hshard)

theorem bestShard_some
    (h : bestShard score summaries bytes headroom targets selection = some shard) :
    shard < summaries.length ∧ selection.selected shard = false ∧
      (summaryAt summaries shard).images ≠ 0 := by
  rw [bestShard, Option.map_eq_some_iff] at h
  obtain ⟨found, hfound, rfl⟩ := h
  rcases betterShards_some hfound with hnone | ⟨hmem, hfree⟩
  · cases hnone
  · exact ⟨List.mem_range.mp hmem, hfree⟩

/-! The shards that are taken. -/

theorem shardImages_concat : shardImages summaries (shards ++ [shard]) =
    shardImages summaries shards + (summaryAt summaries shard).images := by
  rw [shardImages, List.map_append, List.sum_append, List.map_singleton, List.sum_singleton]
  rfl

theorem shardClassImages_concat (classId : Nat) :
    shardClassImages summaries (shards ++ [shard]) classId =
      shardClassImages summaries shards classId +
        (summaryAt summaries shard).classImages classId := by
  rw [shardClassImages, List.map_append, List.sum_append, List.map_singleton, List.sum_singleton]
  rfl

theorem Tracks.take (h : Tracks summaries selection) (hinside : shard < summaries.length)
    (hfree : selection.selected shard = false) :
    Tracks summaries (takeShard summaries bytes selection shard) := by
  have hnot : shard ∉ selection.result := fun hmem => by
    rw [(h.selected shard).mpr hmem] at hfree
    cases hfree
  refine ⟨fun other => ?_, List.nodup_append.mpr ⟨h.nodup, List.nodup_singleton _, ?_⟩,
    fun other hother => ?_, ?_, fun classId => ?_⟩
  · rw [takeShard, List.mem_append, List.mem_singleton]
    dsimp only
    rcases eq_or_ne other shard with rfl | hne
    · rw [Function.update_self]
      exact iff_of_true rfl (.inr rfl)
    · rw [Function.update_of_ne hne, h.selected, or_iff_left hne]
  · intro own hown other hother hsame
    rw [hsame, List.mem_singleton.mp hother] at hown
    exact hnot hown
  · rcases List.mem_append.mp hother with hold | hnew
    · exact h.inside other hold
    · rwa [List.mem_singleton.mp hnew]
  · rw [takeShard, h.images, shardImages_concat]
  · rw [takeShard]
    dsimp only
    rw [h.coverage, shardClassImages_concat]

theorem sum_eq_of_rest {value : Nat → Nat} {count : Nat} (hnodup : shards.Nodup)
    (hinside : ∀ shard ∈ shards, shard < count)
    (hrest : ∀ shard < count, shard ∉ shards → value shard = 0) :
    (shards.map value).sum = ((List.range count).map value).sum := by
  rw [← List.sum_toFinset value hnodup, ← List.sum_toFinset value List.nodup_range]
  refine Finset.sum_subset (fun shard hshard => ?_) fun shard hshard hnot => ?_
  · rw [List.mem_toFinset, List.mem_range]
    exact hinside shard (List.mem_toFinset.mp hshard)
  · rw [List.mem_toFinset] at hshard hnot
    exact hrest shard (List.mem_range.mp hshard) hnot

theorem sum_le_of_inside {value : Nat → Nat} {count : Nat} (hnodup : shards.Nodup)
    (hinside : ∀ shard ∈ shards, shard < count) :
    (shards.map value).sum ≤ ((List.range count).map value).sum := by
  rw [← List.sum_toFinset value hnodup, ← List.sum_toFinset value List.nodup_range]
  refine Finset.sum_le_sum_of_subset fun shard hshard => ?_
  rw [List.mem_toFinset, List.mem_range]
  exact hinside shard (List.mem_toFinset.mp hshard)

theorem length_le_of_inside {count : Nat} (hnodup : shards.Nodup)
    (hinside : ∀ shard ∈ shards, shard < count) : shards.length ≤ count := by
  have hsub := hnodup.subperm fun shard hshard => List.mem_range.mpr (hinside shard hshard)
  exact hsub.length_le.trans_eq List.length_range

/-- Summaries that may be those of images. -/
structure Summed (summaries : List ShardSummary) : Prop where
  classes : ∀ shard classId, (summaryAt summaries shard).classImages classId ≤
    (summaryAt summaries shard).images
  positions : ∀ shard, (summaryAt summaries shard).images ≠ 0 → shard < 2 ^ 16

/-- Shards are taken until they are enough, if all of them are. -/
theorem takeShards_spec (hsummed : Summed summaries)
    (htargets : ∀ classId < classCount, targets classId ≤
      shardClassImages summaries (List.range summaries.length) classId)
    {fuel : Nat} (hfuel : summaries.length < fuel + selection.result.length)
    (h : Tracks summaries selection) :
    (headroom ≤ shardImages summaries (List.range summaries.length) →
      ∃ final, takeShards score summaries bytes headroom targets fuel selection = .ok final ∧
        Tracks summaries final ∧ Enough summaries headroom targets final.result) ∧
      (shardImages summaries (List.range summaries.length) < headroom →
        takeShards score summaries bytes headroom targets fuel selection =
          .error (.runtime "Objects365 shard selector cannot satisfy the sample budget")) := by
  have hsize := length_le_of_inside h.nodup h.inside
  induction fuel generalizing selection with
  | zero => omega
  | succ fuel ih =>
      rw [takeShards]
      split
      next hstop =>
        refine ⟨fun _ => ⟨selection, rfl, h, h.enough_iff.mp hstop⟩, fun hless => ?_⟩
        have hle := hstop.1
        rw [h.images] at hle
        exact absurd (hle.trans (sum_le_of_inside h.nodup h.inside)) (Nat.not_le_of_lt hless)
      next hmore =>
        rw [h.enough_iff] at hmore
        cases hbest : bestShard score summaries bytes headroom targets selection with
        | none =>
            refine ⟨fun hle => absurd ?_ hmore, fun _ => rfl⟩
            have hzero : ∀ shard < summaries.length, shard ∉ selection.result →
                (summaryAt summaries shard).images = 0 := fun shard hshard hnot =>
              (bestShard_none hbest shard hshard).resolve_left fun hselected =>
                hnot ((h.selected shard).mp hselected)
            refine ⟨hle.trans_eq (sum_eq_of_rest h.nodup h.inside hzero).symm,
              fun classId hclass => (htargets classId hclass).trans_eq
                (sum_eq_of_rest h.nodup h.inside fun shard hshard hnot => ?_).symm⟩
            have hclasses := hsummed.classes shard classId
            rw [hzero shard hshard hnot] at hclasses
            exact Nat.le_zero.mp hclasses
        | some shard =>
            obtain ⟨hinside, hfree, himages⟩ := bestShard_some hbest
            have htaken := (@Tracks.take _ bytes) h hinside hfree
            have hlength : (takeShard summaries bytes selection shard).result.length =
                selection.result.length + 1 := List.length_append
            dsimp only
            rw [if_neg (Nat.not_le_of_lt (hsummed.positions shard himages))]
            exact ih (by omega) htaken (length_le_of_inside htaken.nodup htaken.inside)

/-! The shards that are taken back. -/

theorem shardImages_erase (h : shard ∈ shards) : (summaryAt summaries shard).images +
    shardImages summaries (shards.erase shard) = shardImages summaries shards :=
  List.sum_map_erase (fun shard => (summaryAt summaries shard).images) h

theorem shardClassImages_erase (h : shard ∈ shards) (classId : Nat) :
    (summaryAt summaries shard).classImages classId +
      shardClassImages summaries (shards.erase shard) classId =
        shardClassImages summaries shards classId :=
  List.sum_map_erase (fun shard => (summaryAt summaries shard).classImages classId) h

/-- The shards from a position on are all needed. -/
def Needed (summaries : List ShardSummary) (headroom : Nat) (targets : Nat → Nat)
    (shards : List Nat) (position : Nat) : Prop :=
  ∀ shard ∈ shards.drop position, ¬ Enough summaries headroom targets (shards.erase shard)

/-- What is needed of many shards is needed of fewer. -/
theorem Enough.mono (h : Enough summaries headroom targets shards)
    (hsub : shards.Sublist others) : Enough summaries headroom targets others where
  images := h.images.trans ((hsub.map _).sum_le_sum fun _ _ => Nat.zero_le _)
  classes classId hclass := (h.classes classId hclass).trans
    ((hsub.map _).sum_le_sum fun _ _ => Nat.zero_le _)

/-- What a selection with a shard less says of its shards. -/
theorem Tracks.erase (h : Tracks summaries selection) (hmem : shard ∈ selection.result)
    (archiveBytes : Nat) :
    Tracks summaries ⟨Function.update selection.selected shard false,
      fun classId => selection.coverage classId - (summaryAt summaries shard).classImages classId,
      selection.images - (summaryAt summaries shard).images, archiveBytes,
      selection.result.erase shard⟩ := by
  refine ⟨fun other => ?_, h.nodup.erase shard, fun other hother =>
    h.inside other (List.mem_of_mem_erase hother), ?_, fun classId => ?_⟩
  · dsimp only
    rw [h.nodup.mem_erase_iff]
    rcases eq_or_ne other shard with rfl | hne
    · rw [Function.update_self]
      exact iff_of_false Bool.false_ne_true fun hboth => hboth.1 rfl
    · rw [Function.update_of_ne hne, h.selected, and_iff_right hne]
  · dsimp only
    rw [h.images, ← shardImages_erase hmem, Nat.add_sub_cancel_left]
  · dsimp only
    rw [h.coverage, ← shardClassImages_erase hmem, Nat.add_sub_cancel_left]

/-- What pruning keeps. -/
structure Pruned (summaries : List ShardSummary) (headroom : Nat) (targets : Nat → Nat)
    (position : Nat) (selection : ShardSelection) : Prop where
  tracks : Tracks summaries selection
  enough : Enough summaries headroom targets selection.result
  needed : Needed summaries headroom targets selection.result position

theorem pruneShard_spec (hposition : position < selection.result.length)
    (h : Pruned summaries headroom targets (position + 1) selection) :
    Pruned summaries headroom targets position
        (pruneShard summaries bytes headroom targets position selection) ∧
      position ≤ (pruneShard summaries bytes headroom targets position selection).result.length := by
  have hshard : selection.result.getD position 0 = selection.result[position] := by
    rw [List.getD_eq_getElem?_getD, List.getElem?_eq_getElem hposition, Option.getD_some]
  have hmem : selection.result[position] ∈ selection.result := List.getElem_mem hposition
  have herased := h.tracks.erase hmem
  -- Kept, the shard is one more that is needed.
  have hkeep : ¬ Enough summaries headroom targets
      (selection.result.erase selection.result[position]) →
        Pruned summaries headroom targets position selection ∧
          position ≤ selection.result.length := by
    refine fun hnot => ⟨⟨h.tracks, h.enough, fun shard hlater => ?_⟩, hposition.le⟩
    rw [List.drop_eq_getElem_cons hposition] at hlater
    rcases List.mem_cons.mp hlater with rfl | hrest
    · exact hnot
    · exact h.needed shard hrest
  have hiff := fun archiveBytes => (@Tracks.enough_iff _ headroom targets _)
    (herased archiveBytes)
  dsimp only at hiff
  rw [pruneShard, hshard]
  split
  next hfew => exact hkeep fun henough => absurd ((hiff 0).mpr henough).1 (Nat.not_le_of_lt hfew)
  next hmany =>
    split
    next hnot => exact hkeep fun henough => hnot ((hiff 0).mpr henough).2
    next hcovers =>
      rw [not_not] at hcovers
      have heraseIdx := h.tracks.nodup.erase_getElem position hposition
      have henough := (hiff 0).mp ⟨Nat.le_of_not_lt hmany, hcovers⟩
      rw [← heraseIdx]
      refine ⟨⟨herased _, henough, fun shard hlater => ?_⟩, ?_⟩
      · have hsize : (selection.result.take position).length = position :=
          List.length_take_of_le hposition.le
        have hlast : shard ∈ selection.result.drop (position + 1) := by
          rw [heraseIdx, List.eraseIdx_eq_take_drop_succ, List.drop_left' hsize] at hlater
          exact hlater
        intro hother
        refine h.needed shard hlast (hother.mono ?_)
        rw [List.erase_comm]
        exact List.erase_sublist
      · dsimp only
        rw [List.length_erase_of_mem hmem]
        omega

theorem pruneShards_spec (hposition : position ≤ selection.result.length)
    (h : Pruned summaries headroom targets position selection) :
    Pruned summaries headroom targets 0
      (pruneShards summaries bytes headroom targets position selection) := by
  induction position generalizing selection with
  | zero => exact h
  | succ position ih =>
      obtain ⟨hpruned, hinside⟩ := (@pruneShard_spec _ bytes) hposition h
      rw [pruneShards]
      exact ih hinside hpruned

/-- Shards that are enough, none of which can be done without. -/
structure ChosenShards (summaries : List ShardSummary) (headroom : Nat) (targets : Nat → Nat)
    (shards : List Nat) : Prop where
  sorted : shards.Pairwise (· < ·)
  inside : ∀ shard ∈ shards, shard < summaries.length
  enough : Enough summaries headroom targets shards
  minimal : ∀ shard ∈ shards, ¬ Enough summaries headroom targets (shards.erase shard)

/-- Shards are chosen if there are images enough, whatever the score is. -/
theorem chooseObjects365Shards_spec (hsummed : Summed summaries) {requiredImages : Nat}
    {fullClassImages : Nat → Nat}
    (hfull : ∀ classId < classCount, fullClassImages classId ≤
      shardClassImages summaries (List.range summaries.length) classId) :
    (headroomImages requiredImages ≤ shardImages summaries (List.range summaries.length) →
      ∃ shards archiveBytes,
        chooseObjects365Shards score summaries fullClassImages bytes requiredImages =
            .ok (shards, archiveBytes) ∧
          ChosenShards summaries (headroomImages requiredImages) (coverageTargets fullClassImages)
            shards) ∧
      (shardImages summaries (List.range summaries.length) < headroomImages requiredImages →
        chooseObjects365Shards score summaries fullClassImages bytes requiredImages =
          .error (.runtime "Objects365 shard selector cannot satisfy the sample budget")) := by
  obtain ⟨hgood, hbad⟩ := @takeShards_spec score summaries bytes
    (headroomImages requiredImages) (coverageTargets fullClassImages) _ hsummed
    (fun classId hclass => (min_le_left _ _).trans (hfull classId hclass)) (summaries.length + 1)
    (Nat.lt_succ_self _) (tracks_nothing summaries)
  constructor
  · intro hle
    obtain ⟨taken, htaken, htracks, henough⟩ := hgood hle
    have hpruned := (@pruneShards_spec _ bytes) (Nat.le_refl _) ⟨htracks, henough, fun shard hlater => by
      rw [List.drop_length] at hlater
      exact absurd hlater List.not_mem_nil⟩
    rw [chooseObjects365Shards, htaken]
    refine ⟨_, _, rfl, ?_⟩
    generalize pruneShards summaries bytes (headroomImages requiredImages)
      (coverageTargets fullClassImages) taken.result.length taken = kept at hpruned
    have hperm := List.perm_insertionSort (· ≤ ·) kept.result
    have hnodup := hperm.nodup_iff.mpr hpruned.tracks.nodup
    refine ⟨?_, fun shard hshard => hpruned.tracks.inside shard (hperm.mem_iff.mp hshard),
      hpruned.enough.perm hperm.symm, fun shard hshard henough => ?_⟩
    · exact ((List.pairwise_insertionSort (· ≤ ·) kept.result).and hnodup).imp fun hboth =>
        lt_of_le_of_ne hboth.1 hboth.2
    · refine hpruned.needed shard ?_ (henough.perm (hperm.erase shard))
      rw [List.drop_zero]
      exact hperm.mem_iff.mp hshard
  · intro hless
    rw [chooseObjects365Shards, hbad hless]
    rfl

end

end Mmltk.Sampling
