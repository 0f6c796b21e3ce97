import Mathlib.Data.Set.Card

namespace Mmltk.Foundation

/-! Sets of pixels as runs along their rows. Of each finite set there is one canonical list. -/

structure RowRun where
  row : Nat
  first : Nat
  last : Nat
  deriving DecidableEq, Repr

namespace RowRun

variable {run other : RowRun} {runs others : List RowRun} {row x : Nat}

def Covers (run : RowRun) (row x : Nat) : Prop := run.row = row ∧ run.first ≤ x ∧ x ≤ run.last

instance : Decidable (run.Covers row x) := inferInstanceAs (Decidable (_ ∧ _))

/-- The pixel is in one of the runs. -/
def Holds (runs : List RowRun) (row x : Nat) : Prop := ∃ run ∈ runs, run.Covers row x

instance : Decidable (Holds runs row x) := inferInstanceAs (Decidable (∃ _ ∈ _, _))

/-- The one ends in an earlier row, or with a gap before the other. -/
def Before (run other : RowRun) : Prop :=
  run.row < other.row ∨ run.row = other.row ∧ run.last + 1 < other.first

instance : Decidable (run.Before other) := inferInstanceAs (Decidable (_ ∨ _))

structure Canonical (runs : List RowRun) : Prop where
  valid : ∀ run ∈ runs, run.first ≤ run.last
  ordered : runs.Pairwise Before

@[simp] theorem holds_nil : ¬ Holds [] row x := by simp [Holds]

@[simp] theorem holds_cons : Holds (run :: runs) row x ↔ run.Covers row x ∨ Holds runs row x := by
  simp [Holds]

@[simp] theorem holds_append :
    Holds (runs ++ others) row x ↔ Holds runs row x ∨ Holds others row x := by
  simp [Holds, or_and_right, exists_or]

theorem canonical_nil : Canonical [] := ⟨by simp, .nil⟩

theorem canonical_cons :
    Canonical (run :: runs) ↔
      run.first ≤ run.last ∧ (∀ other ∈ runs, run.Before other) ∧ Canonical runs := by
  constructor
  · intro h
    obtain ⟨hbefore, hordered⟩ := List.pairwise_cons.mp h.ordered
    exact ⟨h.valid run List.mem_cons_self, hbefore,
      fun other hother => h.valid other (List.mem_cons_of_mem _ hother), hordered⟩
  · intro ⟨hvalid, hbefore, hrest⟩
    refine ⟨fun other hother => ?_, List.pairwise_cons.mpr ⟨hbefore, hrest.ordered⟩⟩
    cases List.mem_cons.mp hother with
    | inl hsame => exact hsame ▸ hvalid
    | inr hrun => exact hrest.valid other hrun

theorem Canonical.sublist (h : Canonical runs) (hsub : others.Sublist runs) : Canonical others :=
  ⟨fun run hrun => h.valid run (hsub.subset hrun), h.ordered.sublist hsub⟩

theorem Before.trans {third : RowRun} (h : run.Before other) (hother : other.Before third)
    (hvalid : other.first ≤ other.last) : run.Before third := by
  unfold Before at h hother ⊢
  omega

/-- Every pixel after a run is in a later row, or there is a pixel missing in between. -/
theorem Before.covers (h : run.Before other) (hcovers : other.Covers row x) :
    run.row < row ∨ run.row = row ∧ run.last + 1 < x := by
  obtain ⟨hrow, hfirst, -⟩ := hcovers
  unfold Before at h
  omega

theorem holds_after (h : ∀ other ∈ runs, run.Before other) (hholds : Holds runs row x) :
    run.row < row ∨ run.row = row ∧ run.last + 1 < x := by
  obtain ⟨other, hother, hcovers⟩ := hholds
  exact (h other hother).covers hcovers

theorem head_le_of_holds (hbefore : ∀ other ∈ runs, run.Before other)
    (hvalid : run.first ≤ run.last) (hholds : Holds (run :: runs) row x) :
    run.row < row ∨ run.row = row ∧ run.first ≤ x := by
  cases holds_cons.mp hholds with
  | inl hcovers => exact .inr ⟨hcovers.1, hcovers.2.1⟩
  | inr hrest =>
      have hafter := holds_after hbefore hrest
      omega

theorem not_holds_past_head (hbefore : ∀ other ∈ runs, run.Before other) :
    ¬ Holds (run :: runs) run.row (run.last + 1) := by
  intro hholds
  cases holds_cons.mp hholds with
  | inl hcovers => exact absurd hcovers.2.2 (Nat.not_le.mpr (Nat.lt_succ_self _))
  | inr hrest =>
      have hafter := holds_after hbefore hrest
      omega

theorem holds_head_first (hvalid : run.first ≤ run.last) : Holds (run :: runs) run.row run.first :=
  holds_cons.mpr (.inl ⟨rfl, Nat.le_refl _, hvalid⟩)

/-- The first of a canonical list is what its pixels say. -/
theorem canonical_head_unique (h : Canonical (run :: runs)) (hother : Canonical (other :: others))
    (hsame : ∀ row x, Holds (run :: runs) row x ↔ Holds (other :: others) row x) : run = other := by
  obtain ⟨hvalid, hbefore, -⟩ := canonical_cons.mp h
  obtain ⟨hvalidOther, hbeforeOther, -⟩ := canonical_cons.mp hother
  have hfirst := head_le_of_holds hbefore hvalid
    ((hsame _ _).mpr (holds_head_first hvalidOther))
  have hfirstOther := head_le_of_holds hbeforeOther hvalidOther
    ((hsame _ _).mp (holds_head_first hvalid))
  have hstop := not_holds_past_head hbefore
  have hstopOther := not_holds_past_head hbeforeOther
  obtain ⟨row, first, last⟩ := run
  obtain ⟨rowOther, firstOther, lastOther⟩ := other
  dsimp only at *
  obtain rfl : row = rowOther := by omega
  obtain rfl : first = firstOther := by omega
  have hlast : last = lastOther := by
    cases Nat.lt_trichotomy last lastOther with
    | inl hshort =>
        refine absurd ((hsame row (last + 1)).mpr (holds_cons.mpr (.inl ⟨rfl, ?_, hshort⟩))) hstop
        dsimp only
        omega
    | inr hrest =>
        cases hrest with
        | inl hequal => exact hequal
        | inr hlong =>
            refine absurd ((hsame row (lastOther + 1)).mp (holds_cons.mpr (.inl ⟨rfl, ?_, hlong⟩)))
              hstopOther
            dsimp only
            omega
  rw [hlast]

/-- Canonical lists of the same pixels are the same. -/
theorem canonical_ext (h : Canonical runs) (hother : Canonical others)
    (hsame : ∀ row x, Holds runs row x ↔ Holds others row x) : runs = others := by
  induction runs generalizing others with
  | nil =>
      cases others with
      | nil => rfl
      | cons head rest =>
          have hvalid := (canonical_cons.mp hother).1
          exact absurd ((hsame head.row head.first).mpr (holds_head_first hvalid)) holds_nil
  | cons run rest ih =>
      cases others with
      | nil =>
          have hvalid := (canonical_cons.mp h).1
          exact absurd ((hsame run.row run.first).mp (holds_head_first hvalid)) holds_nil
      | cons other others =>
          obtain rfl := canonical_head_unique h hother hsame
          obtain ⟨-, hbefore, hrest⟩ := canonical_cons.mp h
          obtain ⟨-, hbeforeOther, hrestOther⟩ := canonical_cons.mp hother
          have hseparate : ∀ {row x}, run.Covers row x →
              ¬ (run.row < row ∨ run.row = row ∧ run.last + 1 < x) := by
            intro row x hcovers
            obtain ⟨hrow, -, hlast⟩ := hcovers
            omega
          refine congrArg (run :: ·) (ih hrest hrestOther fun row x => ?_)
          have hboth := hsame row x
          rw [holds_cons, holds_cons] at hboth
          constructor
          · intro hheld
            cases hboth.mp (.inr hheld) with
            | inl hcovers => exact absurd (holds_after hbefore hheld) (hseparate hcovers)
            | inr hother => exact hother
          · intro hheld
            cases hboth.mpr (.inr hheld) with
            | inl hcovers => exact absurd (holds_after hbeforeOther hheld) (hseparate hcovers)
            | inr hother => exact hother

end RowRun

end Mmltk.Foundation
