import Mmltk.Annotation.MaskNormal

namespace Mmltk.Annotation

open Mmltk.Foundation RowRun

/-! Growing and shrinking by a disc, pixel by pixel, and that the runs do the same. -/

variable {runs rest result out : List RowRun} {run : RowRun} {row x width height radius : Nat}

abbrev Pixels := Nat → Nat → Prop

theorem Valid.append {others : List RowRun} (h : Valid runs) (hothers : Valid others) :
    Valid (runs ++ others) := fun run hrun => (List.mem_append.mp hrun).elim (h run) (hothers run)

/-- The transient normalization changes no pixel. -/
theorem gather_spec {steps : List (List RowRun)} (hresult : Valid result)
    (hsteps : ∀ step ∈ steps, Valid step) (h : gather result steps = some out) :
    Canonical out ∧ ∀ row x, Holds out row x ↔
      Holds result row x ∨ ∃ step ∈ steps, Holds step row x := by
  induction steps generalizing result with
  | nil =>
      obtain ⟨hcanonical, hholds⟩ := normalize_spec hresult h
      exact ⟨hcanonical, fun row x => by simp [hholds]⟩
  | cons step rest ih =>
      have hgrown : Valid (result ++ step) := hresult.append (hsteps step List.mem_cons_self)
      have hrest : ∀ other ∈ rest, Valid other := fun other hother =>
        hsteps other (List.mem_cons_of_mem _ hother)
      rw [gather] at h
      split at h
      · obtain ⟨joined, hjoined, hout⟩ := Option.bind_eq_some_iff.mp h
        obtain ⟨hcanonical, hkept⟩ := normalize_spec hgrown hjoined
        obtain ⟨hfinal, hholds⟩ := ih hcanonical.valid hrest hout
        exact ⟨hfinal, fun row x => by simp [hholds, hkept, or_assoc]⟩
      · obtain ⟨hfinal, hholds⟩ := ih hgrown hrest h
        exact ⟨hfinal, fun row x => by simp [hholds, or_assoc]⟩

end Mmltk.Annotation
