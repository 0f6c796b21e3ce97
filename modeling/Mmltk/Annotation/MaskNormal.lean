import Mathlib.Data.List.TakeWhile
import Mmltk.Annotation.Mask

namespace Mmltk.Annotation

open Mmltk.Foundation RowRun

/-! What the operations on sorted runs do to the pixels: joining, complement and growth. -/

variable {runs rest out : List RowRun} {run next : RowRun} {row x y width height radius : Nat}

/-- In the order of their first pixels. -/
def Sorted (runs : List RowRun) : Prop :=
  runs.Pairwise fun run other => run.row < other.row ∨ run.row = other.row ∧ run.first ≤ other.first

def Valid (runs : List RowRun) : Prop := ∀ run ∈ runs, run.first ≤ run.last

/-- Inside a frame of `width` and `height`. -/
def Inside (width height : Nat) (runs : List RowRun) : Prop :=
  ∀ run ∈ runs, run.row < height ∧ run.last < width

theorem sorted_mergeSort (runs : List RowRun) : Sorted (runs.mergeSort runLe) := by
  have htrans : ∀ run other third : RowRun, runLe run other = true → runLe other third = true →
      runLe run third = true := by
    intro run other third
    simp only [runLe, Bool.or_eq_true, Bool.and_eq_true, decide_eq_true_eq]
    omega
  have htotal : ∀ run other : RowRun, (runLe run other || runLe other run) = true := by
    intro run other
    simp only [runLe, Bool.or_eq_true, Bool.and_eq_true, decide_eq_true_eq]
    omega
  refine (List.pairwise_mergeSort htrans htotal runs).imp fun {run other} hle => ?_
  simp only [runLe, Bool.or_eq_true, Bool.and_eq_true, decide_eq_true_eq] at hle
  omega

theorem holds_perm {others : List RowRun} (h : runs.Perm others) :
    Holds runs row x ↔ Holds others row x := by
  simp only [Holds, h.mem_iff]

theorem mem_joinRuns (h : run ∈ joinRuns runs) :
    ∃ origin ∈ runs, run.row = origin.row ∧ run.first = origin.first := by
  induction runs using joinRuns.induct with
  | case1 => simp [joinRuns] at h
  | case2 single =>
      rw [joinRuns] at h
      exact ⟨run, h, rfl, rfl⟩
  | case3 head next rest htouch ih =>
      rw [joinRuns, if_pos htouch] at h
      obtain ⟨origin, horigin, hrow, hfirst⟩ := ih h
      cases List.mem_cons.mp horigin with
      | inl hhead => exact ⟨head, List.mem_cons_self, by rw [hrow, hhead], by rw [hfirst, hhead]⟩
      | inr hrest =>
          exact ⟨origin, List.mem_cons_of_mem _ (List.mem_cons_of_mem _ hrest), hrow, hfirst⟩
  | case4 head next rest hapart ih =>
      rw [joinRuns, if_neg hapart] at h
      cases List.mem_cons.mp h with
      | inl hhead => exact ⟨head, List.mem_cons_self, by rw [hhead], by rw [hhead]⟩
      | inr hrest =>
          obtain ⟨origin, horigin, hsame⟩ := ih hrest
          exact ⟨origin, List.mem_cons_of_mem _ horigin, hsame⟩

theorem joinRuns_canonical (hsorted : Sorted runs) (hvalid : Valid runs) :
    Canonical (joinRuns runs) := by
  induction runs using joinRuns.induct with
  | case1 => simpa [joinRuns] using canonical_nil
  | case2 single =>
      rw [joinRuns]
      exact ⟨hvalid, List.pairwise_singleton ..⟩
  | case3 head next rest htouch ih =>
      rw [joinRuns, if_pos htouch]
      obtain ⟨hhead, htail⟩ := List.pairwise_cons.mp hsorted
      refine ih (List.pairwise_cons.mpr ⟨fun other hother => ?_, (List.pairwise_cons.mp htail).2⟩) ?_
      · exact hhead other (List.mem_cons_of_mem _ hother)
      · intro other hother
        cases List.mem_cons.mp hother with
        | inl hjoined =>
            have hfirst := hvalid head List.mem_cons_self
            rw [hjoined]
            exact hfirst.trans (Nat.le_max_left ..)
        | inr hrest => exact hvalid other (List.mem_cons_of_mem _ (List.mem_cons_of_mem _ hrest))
  | case4 head next rest hapart ih =>
      rw [joinRuns, if_neg hapart]
      obtain ⟨hhead, htail⟩ := List.pairwise_cons.mp hsorted
      refine canonical_cons.mpr ⟨hvalid head List.mem_cons_self, fun other hother => ?_,
        ih htail fun other hother => hvalid other (List.mem_cons_of_mem _ hother)⟩
      obtain ⟨origin, horigin, hrow, hfirst⟩ := mem_joinRuns hother
      have hnext := hhead next List.mem_cons_self
      have hafter : next.row < origin.row ∨ next.row = origin.row ∧ next.first ≤ origin.first := by
        cases List.mem_cons.mp horigin with
        | inl hsame => exact hsame ▸ .inr ⟨rfl, Nat.le_refl _⟩
        | inr hrest => exact (List.pairwise_cons.mp htail).1 origin hrest
      unfold Before
      omega

theorem holds_joinRuns (hsorted : Sorted runs) (hvalid : Valid runs) :
    Holds (joinRuns runs) row x ↔ Holds runs row x := by
  induction runs using joinRuns.induct with
  | case1 => rw [joinRuns]
  | case2 single => rw [joinRuns]
  | case3 head next rest htouch ih =>
      rw [joinRuns, if_pos htouch]
      obtain ⟨hhead, htail⟩ := List.pairwise_cons.mp hsorted
      have hfirst := hhead next List.mem_cons_self
      have hheadValid := hvalid head List.mem_cons_self
      have hnextValid := hvalid next (List.mem_cons_of_mem _ List.mem_cons_self)
      rw [ih]
      · simp only [holds_cons, Covers, ← or_assoc]
        refine or_congr_left ?_
        omega
      · exact List.pairwise_cons.mpr ⟨fun other hother =>
          hhead other (List.mem_cons_of_mem _ hother), (List.pairwise_cons.mp htail).2⟩
      · intro other hother
        cases List.mem_cons.mp hother with
        | inl hjoined =>
            rw [hjoined]
            exact hheadValid.trans (Nat.le_max_left ..)
        | inr hrest => exact hvalid other (List.mem_cons_of_mem _ (List.mem_cons_of_mem _ hrest))
  | case4 head next rest hapart ih =>
      rw [joinRuns, if_neg hapart, holds_cons, holds_cons,
        ih (List.pairwise_cons.mp hsorted).2 fun other hother =>
          hvalid other (List.mem_cons_of_mem _ hother)]

/-- Normalized runs are the canonical ones of the same pixels. -/
theorem normalize_spec (hvalid : Valid runs) (h : normalize runs = some out) :
    Canonical out ∧ ∀ row x, Holds out row x ↔ Holds runs row x := by
  rw [normalize] at h
  split at h
  · cases h
  · cases h
    have hperm := List.mergeSort_perm runs runLe
    have hvalidSorted : Valid (runs.mergeSort runLe) := fun run hrun =>
      hvalid run (hperm.mem_iff.mp hrun)
    refine ⟨joinRuns_canonical (sorted_mergeSort runs) hvalidSorted, fun row x => ?_⟩
    rw [holds_joinRuns (sorted_mergeSort runs) hvalidSorted, holds_perm hperm]

/-! The complement. -/

theorem canonical_append {others : List RowRun} (h : Canonical runs) (hothers : Canonical others)
    (hbefore : ∀ run ∈ runs, ∀ other ∈ others, run.Before other) : Canonical (runs ++ others) where
  valid run hrun := (List.mem_append.mp hrun).elim (h.valid run) (hothers.valid run)
  ordered := List.pairwise_append.mpr ⟨h.ordered, hothers.ordered, hbefore⟩

theorem row_le_of_before (h : runs.Pairwise Before) {head : RowRun} (hhead : runs.head? = some head)
    (hrun : run ∈ runs) : head.row ≤ run.row := by
  cases runs with
  | nil => cases hrun
  | cons first rest =>
      cases hhead
      cases List.mem_cons.mp hrun with
      | inl hsame => exact hsame ▸ Nat.le_refl _
      | inr hmem =>
          have hbefore := (List.pairwise_cons.mp h).1 run hmem
          unfold Before at hbefore
          omega

/-- What is left of the runs after one row: the later rows. -/
theorem dropWhile_rows (h : Canonical runs) (hrows : ∀ run ∈ runs, y ≤ run.row) :
    (∀ run ∈ runs.dropWhile fun run => run.row = y, y + 1 ≤ run.row) ∧
      ∀ row x, y < row →
        (Holds (runs.dropWhile fun run => run.row = y) row x ↔ Holds runs row x) := by
  constructor
  · intro run hrun
    have hordered := h.ordered.sublist (List.dropWhile_sublist fun run => run.row = y)
    cases hhead : (runs.dropWhile fun run => run.row = y).head? with
    | none => simp [List.head?_eq_none_iff.mp hhead] at hrun
    | some head =>
        have hle := row_le_of_before hordered hhead hrun
        have hother := List.head?_dropWhile_not (fun run : RowRun => run.row = y) runs
        rw [hhead] at hother
        have hmem := (List.dropWhile_sublist _).subset (List.mem_of_mem_head? hhead)
        have hfirst := hrows head hmem
        simp only [decide_eq_false_iff_not] at hother
        omega
  · intro row x hlater
    constructor
    · rintro ⟨run, hrun, hcovers⟩
      exact ⟨run, (List.dropWhile_sublist _).subset hrun, hcovers⟩
    · rintro ⟨run, hrun, hcovers⟩
      refine ⟨run, ?_, hcovers⟩
      rw [← List.takeWhile_append_dropWhile (p := fun run : RowRun => run.row = y) (l := runs)] at hrun
      refine (List.mem_append.mp hrun).resolve_left fun htaken => ?_
      have hrow := List.mem_takeWhile_imp htaken
      simp only [decide_eq_true_eq] at hrow
      have hthis := hcovers.1
      omega

end Mmltk.Annotation
