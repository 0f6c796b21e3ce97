import Mathlib.Data.List.NodupEquivFin
import Mathlib.Data.List.Perm.Subperm

namespace Mmltk.Foundation

/-! Bijections of the indices of a list, written as the list of their targets, and values placed
along them. -/

/-- The assignments in their order. -/
def assignAll {α : Type} (values : List α) (assignments : List (Nat × α)) : List α :=
  assignments.foldl (fun values assignment => values.set assignment.1 assignment.2) values

section Assignments

variable {α : Type} {values : List α} {assignments : List (Nat × α)} {index : Nat} {value : α}

@[simp] theorem length_assignAll : (assignAll values assignments).length = values.length := by
  induction assignments generalizing values with
  | nil => rfl
  | cons assignment rest ih => exact ih.trans List.length_set

theorem assignAll_other (h : index ∉ assignments.map Prod.fst) :
    (assignAll values assignments)[index]? = values[index]? := by
  induction assignments generalizing values with
  | nil => rfl
  | cons assignment rest ih =>
      rw [List.map_cons, List.mem_cons, not_or] at h
      exact (ih h.2).trans (List.getElem?_set_ne (Ne.symm h.1))

/-- An index assigned once holds what it was assigned. -/
theorem assignAll_mem (hnodup : (assignments.map Prod.fst).Nodup)
    (hmem : (index, value) ∈ assignments) (hindex : index < values.length) :
    (assignAll values assignments)[index]? = some value := by
  induction assignments generalizing values with
  | nil => exact absurd hmem List.not_mem_nil
  | cons assignment rest ih =>
      obtain ⟨hfresh, hrest⟩ := List.nodup_cons.mp hnodup
      rcases List.mem_cons.mp hmem with rfl | hlater
      · exact (assignAll_other hfresh).trans (List.getElem?_set_self hindex)
      · exact ih hrest hlater (List.length_set.symm ▸ hindex)

end Assignments

/-- Each index below `count` is the target of one. -/
structure Bijective (count : Nat) (targets : List Nat) : Prop where
  length_eq : targets.length = count
  nodup : targets.Nodup
  lt : ∀ target ∈ targets, target < count

/-- The target of an index. -/
def targetAt (targets : List Nat) (index : Nat) : Nat := targets.getD index 0

/-- First the one, then the other. -/
def composeTargets (first second : List Nat) : List Nat := first.map (targetAt second)

def inverseTargets (targets : List Nat) : List Nat := (List.range targets.length).map targets.idxOf

theorem targetAt_of_lt {targets : List Nat} {index : Nat} (h : index < targets.length) :
    targetAt targets index = targets[index] :=
  (List.getD_eq_getElem?_getD).trans (by rw [List.getElem?_eq_getElem h]; rfl)

theorem targetAt_map (f : Nat → Nat) {targets : List Nat} {index : Nat} (h : index < targets.length) :
    targetAt (targets.map f) index = f (targetAt targets index) := by
  have hmap : index < (targets.map f).length := by rwa [List.length_map]
  rw [targetAt_of_lt hmap, targetAt_of_lt h, List.getElem_map]

namespace Bijective

variable {count index other : Nat} {targets first second : List Nat}

theorem perm (h : Bijective count targets) : targets.Perm (List.range count) :=
  (List.subperm_of_subset h.nodup fun _ hmem => List.mem_range.mpr (h.lt _ hmem)).perm_of_length_le
    (List.length_range.trans h.length_eq.symm).le

theorem target_lt (h : Bijective count targets) (hindex : index < count) :
    targetAt targets index < count := by
  rw [targetAt_of_lt (h.length_eq ▸ hindex)]
  exact h.lt _ (List.getElem_mem _)

theorem target_inj (h : Bijective count targets) (hindex : index < count) (hother : other < count)
    (heq : targetAt targets index = targetAt targets other) : index = other := by
  rw [targetAt_of_lt (h.length_eq ▸ hindex), targetAt_of_lt (h.length_eq ▸ hother)] at heq
  exact (List.Nodup.getElem_inj_iff h.nodup).mp heq

theorem exists_target (h : Bijective count targets) (hindex : index < count) :
    ∃ other < count, targetAt targets other = index := by
  have hmem := h.perm.mem_iff.mpr (List.mem_range.mpr hindex)
  obtain ⟨place, hplace, heq⟩ := List.getElem_of_mem hmem
  exact ⟨place, h.length_eq ▸ hplace, (targetAt_of_lt hplace).trans heq⟩

theorem compose (h : Bijective count first) (h' : Bijective count second) :
    Bijective count (composeTargets first second) where
  length_eq := List.length_map _ |>.trans h.length_eq
  nodup := by
    refine h.nodup.map_on fun index hindex other hother heq => ?_
    exact h'.target_inj (h.lt _ hindex) (h.lt _ hother) heq
  lt := by
    intro place hplace
    obtain ⟨between, hbetween, rfl⟩ := List.mem_map.mp hplace
    exact h'.target_lt (h.lt _ hbetween)

theorem target_inverse (h : Bijective count targets) (hindex : index < count) :
    targetAt (inverseTargets targets) (targetAt targets index) = index := by
  have hlength : index < targets.length := h.length_eq ▸ hindex
  have hplace : targetAt targets index < (inverseTargets targets).length := by
    rw [inverseTargets, List.length_map, List.length_range, h.length_eq]
    exact h.target_lt hindex
  rw [targetAt_of_lt hplace]
  simp only [inverseTargets, List.getElem_map, List.getElem_range]
  rw [targetAt_of_lt hlength]
  exact List.Nodup.idxOf_getElem h.nodup index hlength

theorem inverse (h : Bijective count targets) : Bijective count (inverseTargets targets) where
  length_eq := by rw [inverseTargets, List.length_map, List.length_range, h.length_eq]
  nodup := by
    refine List.nodup_range.map_on fun index hindex other hother heq => ?_
    rw [List.mem_range, h.length_eq, ← List.mem_range] at hindex hother
    rwa [List.idxOf_inj (h.perm.mem_iff.mpr hindex)] at heq
  lt := by
    intro place hplace
    obtain ⟨index, hindex, rfl⟩ := List.mem_map.mp hplace
    rw [List.mem_range, h.length_eq, ← List.mem_range] at hindex
    exact (List.idxOf_lt_length_iff.mpr (h.perm.mem_iff.mpr hindex)).trans_eq h.length_eq

theorem inverse_target (h : Bijective count targets) (hindex : index < count) :
    targetAt targets (targetAt (inverseTargets targets) index) = index := by
  obtain ⟨place, hplace, rfl⟩ := h.exists_target hindex
  rw [h.target_inverse hplace]

/-- Lists are the same that are the same at every target. -/
theorem ext {α : Type} {list list' : List α} (h : Bijective count targets)
    (hlength : list.length = count) (hlength' : list'.length = count)
    (hsame : ∀ index < count, list[targetAt targets index]? = list'[targetAt targets index]?) :
    list = list' := by
  refine List.ext_getElem? fun place => ?_
  rcases Nat.lt_or_ge place count with hless | hge
  · obtain ⟨index, hindex, rfl⟩ := h.exists_target hless
    exact hsame index hindex
  · rw [List.getElem?_eq_none (hlength ▸ hge), List.getElem?_eq_none (hlength' ▸ hge)]

end Bijective

/-- Each value at the target of its index. -/
def placeAll {α : Type} (fill : α) (targets : List Nat) (values : List α) : List α :=
  assignAll (List.replicate targets.length fill) (targets.zip values)

section Places

variable {α : Type} {fill : α} {targets : List Nat} {values : List α} {count index : Nat}

@[simp] theorem length_placeAll : (placeAll fill targets values).length = targets.length := by
  rw [placeAll, length_assignAll, List.length_replicate]

theorem placeAll_target (h : Bijective count targets) (hvalues : values.length = count)
    (hindex : index < count) :
    (placeAll fill targets values)[targetAt targets index]? = values[index]? := by
  have htargets : index < targets.length := h.length_eq ▸ hindex
  have hlength : index < values.length := hvalues ▸ hindex
  have hfirst : (targets.zip values).map Prod.fst = targets :=
    List.map_fst_zip (h.length_eq.trans hvalues.symm).le
  have hmem : (targetAt targets index, values[index]) ∈ targets.zip values := by
    rw [targetAt_of_lt htargets]
    have hzip : index < (targets.zip values).length := by
      rw [List.length_zip]
      exact Nat.lt_min.mpr ⟨htargets, hlength⟩
    have hget := List.getElem_mem hzip
    rwa [List.getElem_zip] at hget
  rw [placeAll, assignAll_mem (hfirst.symm ▸ h.nodup) hmem, List.getElem?_eq_getElem hlength]
  rw [List.length_replicate, h.length_eq]
  exact h.target_lt hindex

end Places

/-- A permutation of the places behind the first. -/
def behindFirst (places : Equiv.Perm ℕ) : Equiv.Perm ℕ where
  toFun place := place.casesOn 0 fun before => places before + 1
  invFun place := place.casesOn 0 fun before => places.symm before + 1
  left_inv place := by cases place <;> simp
  right_inv place := by cases place <;> simp

/-- Where each item of a list is in another order of it. -/
theorem exists_places {α : Type} {list other : List α} (h : list.Perm other) :
    ∃ places : Equiv.Perm ℕ, ∀ place, other[places place]? = list[place]? := by
  induction h with
  | nil => exact ⟨Equiv.refl ℕ, fun _ => rfl⟩
  | cons item _ ih =>
      obtain ⟨places, hplaces⟩ := ih
      refine ⟨behindFirst places, fun place => ?_⟩
      cases place with
      | zero => rfl
      | succ place => exact hplaces place
  | swap item item' list =>
      refine ⟨Equiv.swap 0 1, fun place => ?_⟩
      cases place with
      | zero => rfl
      | succ place =>
          cases place with
          | zero => rfl
          | succ place =>
              rw [Equiv.swap_apply_of_ne_of_ne (by omega) (by omega)]
              rfl
  | trans _ _ ih ih' =>
      obtain ⟨places, hplaces⟩ := ih
      obtain ⟨others, hothers⟩ := ih'
      exact ⟨places.trans others, fun place => (hothers _).trans (hplaces place)⟩

end Mmltk.Foundation
