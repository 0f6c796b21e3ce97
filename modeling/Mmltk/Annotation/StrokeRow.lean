import Mmltk.Annotation.MaskCleanup
import Mmltk.Annotation.MaskRows

namespace Mmltk.Annotation

open Mmltk.Foundation RowRun

/-! A stroke in one row: painting joins the runs of two lists, erasing cuts one by the other. -/

variable {row y x : Nat} {run : RowRun} {existing stroke result runs : List RowRun}

/-- The runs of one row. -/
def InRow (y : Nat) (runs : List RowRun) : Prop := ∀ run ∈ runs, run.row = y

theorem appendRun_spec (hcanonical : Canonical result) (hrow : InRow run.row result)
    (hfirst : ∀ other ∈ result, other.first ≤ run.first) (hvalid : run.first ≤ run.last) :
    Canonical (appendRun result run) ∧
      (∀ other ∈ appendRun result run, other.row = run.row ∧ other.first ≤ run.first) ∧
      ∀ row x, Holds (appendRun result run) row x ↔ Holds result row x ∨ run.Covers row x := by
  cases hback : result.getLast? with
  | none =>
      obtain rfl := List.getLast?_eq_none_iff.mp hback
      have hvalue : appendRun [] run = [run] := rfl
      rw [hvalue]
      exact ⟨⟨fun _ hmem => List.mem_singleton.mp hmem ▸ hvalid, List.pairwise_singleton ..⟩,
        fun _ hmem => List.mem_singleton.mp hmem ▸ ⟨rfl, Nat.le_refl _⟩, fun row x => by simp⟩
  | some back =>
      obtain ⟨before, rfl⟩ := List.getLast?_eq_some_iff.mp hback
      have hmem : back ∈ before ++ [back] := List.mem_append_right _ List.mem_cons_self
      have hbackRow := hrow back hmem
      have hbackFirst := hfirst back hmem
      have hbackValid := hcanonical.valid back hmem
      obtain ⟨hordered, -, hlast⟩ := List.pairwise_append.mp hcanonical.ordered
      have hbefore : ∀ other ∈ before, other.Before back := fun other hother =>
        hlast other hother back List.mem_cons_self
      have hbeforeCanonical := hcanonical.sublist (List.sublist_append_left before [back])
      rw [appendRun, hback]
      dsimp only
      split
      next hjoin =>
        rw [List.dropLast_concat]
        refine ⟨canonical_append hbeforeCanonical ⟨fun other hother => ?_,
          List.pairwise_singleton ..⟩ fun other hother joined hjoined => ?_, fun other hother => ?_,
          fun row x => ?_⟩
        · rw [List.mem_singleton.mp hother]
          exact hbackValid.trans (Nat.le_max_left ..)
        · rw [List.mem_singleton.mp hjoined]
          exact hbefore other hother
        · cases List.mem_append.mp hother with
          | inl hother =>
              exact ⟨hrow other (List.mem_append_left _ hother),
                hfirst other (List.mem_append_left _ hother)⟩
          | inr hjoined =>
              rw [List.mem_singleton.mp hjoined]
              exact ⟨hbackRow, hbackFirst⟩
        · rw [holds_append, holds_append, or_assoc]
          refine or_congr_right ?_
          simp only [holds_cons, holds_nil, or_false, Covers]
          omega
      next hapart =>
        refine ⟨canonical_append hcanonical ⟨fun other hother => ?_, List.pairwise_singleton ..⟩
          fun other hother added hadded => ?_, fun other hother => ?_, fun row x => ?_⟩
        · rw [List.mem_singleton.mp hother]
          exact hvalid
        · rw [List.mem_singleton.mp hadded]
          have hback : back.Before run := .inr ⟨hbackRow, by omega⟩
          cases List.mem_append.mp hother with
          | inl hother => exact (hbefore other hother).trans hback hbackValid
          | inr hsame => exact List.mem_singleton.mp hsame ▸ hback
        · cases List.mem_append.mp hother with
          | inl hother => exact ⟨hrow other hother, hfirst other hother⟩
          | inr hadded =>
              rw [List.mem_singleton.mp hadded]
              exact ⟨rfl, Nat.le_refl _⟩
        · rw [holds_append]
          simp

theorem InRow.first_le (h : InRow y (run :: runs)) (hcanonical : Canonical (run :: runs)) :
    ∀ other ∈ runs, run.first ≤ other.first := by
  intro other hother
  obtain ⟨hvalid, hbefore, -⟩ := canonical_cons.mp hcanonical
  have hthis := h run List.mem_cons_self
  have hnext := h other (List.mem_cons_of_mem _ hother)
  have hordered := hbefore other hother
  unfold Before at hordered
  omega

/-- The first of the runs that are left is painted next. -/
theorem appendRun_next {left : List RowRun} (hcanonical : Canonical result) (hrow : InRow y result)
    (hrunRow : run.row = y) (hvalid : run.first ≤ run.last)
    (hbefore : ∀ other ∈ result, other.first ≤ run.first)
    (hleft : ∀ other ∈ left, run.first ≤ other.first) :
    Canonical (appendRun result run) ∧ InRow y (appendRun result run) ∧
      (∀ other ∈ appendRun result run, ∀ later ∈ left, other.first ≤ later.first) ∧
      ∀ row x, Holds (appendRun result run) row x ↔ Holds result row x ∨ run.Covers row x := by
  subst hrunRow
  obtain ⟨hgrown, hrows, hholds⟩ := appendRun_spec hcanonical hrow hbefore hvalid
  exact ⟨hgrown, fun other hother => (hrows other hother).1,
    fun other hother later hlater => (hrows other hother).2.trans (hleft later hlater), hholds⟩

/-- What is painted so far begins before the rest of both rows. -/
theorem paintRow_spec (hcanonical : Canonical result) (hrow : InRow y result)
    (hexisting : Canonical existing) (hexistingRow : InRow y existing)
    (hstroke : Canonical stroke) (hstrokeRow : InRow y stroke)
    (hfirst : ∀ run ∈ result, ∀ other ∈ existing ++ stroke, run.first ≤ other.first) :
    Canonical (paintRow result existing stroke) ∧ InRow y (paintRow result existing stroke) ∧
      ∀ row x, Holds (paintRow result existing stroke) row x ↔
        Holds result row x ∨ Holds existing row x ∨ Holds stroke row x := by
  induction result, existing, stroke using paintRow.induct with
  | case1 result =>
      rw [paintRow]
      exact ⟨hcanonical, hrow, fun row x => by simp⟩
  | case2 result run existing ih =>
      obtain ⟨hvalid, -, hrest⟩ := canonical_cons.mp hexisting
      obtain ⟨hgrown, hrows, hbefore, hholds⟩ := appendRun_next hcanonical hrow
        (hexistingRow run List.mem_cons_self) hvalid
        (fun other hother => hfirst other hother run (List.mem_append_left _ List.mem_cons_self))
        (hexistingRow.first_le hexisting)
      obtain ⟨hpainted, hpaintedRow, hpixels⟩ := ih hgrown hrows hrest
        (fun other hother => hexistingRow other (List.mem_cons_of_mem _ hother)) hstroke hstrokeRow
        (by rwa [List.append_nil])
      rw [paintRow]
      exact ⟨hpainted, hpaintedRow, fun row x => by simp [hpixels, hholds, or_assoc]⟩
  | case3 result run added ih =>
      obtain ⟨hvalid, -, hrest⟩ := canonical_cons.mp hstroke
      obtain ⟨hgrown, hrows, hbefore, hholds⟩ := appendRun_next hcanonical hrow
        (hstrokeRow run List.mem_cons_self) hvalid
        (fun other hother => hfirst other hother run List.mem_cons_self)
        (hstrokeRow.first_le hstroke)
      obtain ⟨hpainted, hpaintedRow, hpixels⟩ := ih hgrown hrows hexisting hexistingRow hrest
        (fun other hother => hstrokeRow other (List.mem_cons_of_mem _ hother)) hbefore
      rw [paintRow]
      exact ⟨hpainted, hpaintedRow, fun row x => by simp [hpixels, hholds, or_assoc]⟩
  | case4 result run existing other added hle ih =>
      obtain ⟨hvalid, -, hrest⟩ := canonical_cons.mp hexisting
      have hleft : ∀ later ∈ existing ++ other :: added, run.first ≤ later.first := by
        intro later hlater
        rcases List.mem_append.mp hlater with hlater | hlater
        · exact hexistingRow.first_le hexisting later hlater
        · cases List.mem_cons.mp hlater with
          | inl hsame => exact hsame ▸ hle
          | inr hlater => exact hle.trans (hstrokeRow.first_le hstroke later hlater)
      obtain ⟨hgrown, hrows, hbefore, hholds⟩ := appendRun_next hcanonical hrow
        (hexistingRow run List.mem_cons_self) hvalid
        (fun other hother => hfirst other hother run List.mem_cons_self) hleft
      obtain ⟨hpainted, hpaintedRow, hpixels⟩ := ih hgrown hrows hrest
        (fun other hother => hexistingRow other (List.mem_cons_of_mem _ hother)) hstroke hstrokeRow
        hbefore
      rw [paintRow, if_pos hle]
      exact ⟨hpainted, hpaintedRow, fun row x => by simp [hpixels, hholds, or_assoc]⟩
  | case5 result run existing other added hgt ih =>
      obtain ⟨hvalid, -, hrest⟩ := canonical_cons.mp hstroke
      have hle : other.first ≤ run.first := Nat.le_of_not_le hgt
      have hleft : ∀ later ∈ run :: existing ++ added, other.first ≤ later.first := by
        intro later hlater
        rcases List.mem_append.mp hlater with hlater | hlater
        · cases List.mem_cons.mp hlater with
          | inl hsame => exact hsame ▸ hle
          | inr hlater => exact hle.trans (hexistingRow.first_le hexisting later hlater)
        · exact hstrokeRow.first_le hstroke later hlater
      obtain ⟨hgrown, hrows, hbefore, hholds⟩ := appendRun_next hcanonical hrow
        (hstrokeRow other List.mem_cons_self) hvalid
        (fun earlier hearlier =>
          hfirst earlier hearlier other (List.mem_append_right _ List.mem_cons_self)) hleft
      obtain ⟨hpainted, hpaintedRow, hpixels⟩ := ih hgrown hrows hexisting hexistingRow hrest
        (fun other hother => hstrokeRow other (List.mem_cons_of_mem _ hother)) hbefore
      rw [paintRow, if_neg hgt]
      refine ⟨hpainted, hpaintedRow, fun row x => ?_⟩
      rw [hpixels, hholds, @holds_cons other]
      tauto

/-- The piece from `first` to before `stop`. -/
theorem piece_spec (y first stop : Nat) :
    Canonical (if first < stop then [⟨y, first, stop - 1⟩] else []) ∧
      (∀ piece ∈ (if first < stop then [⟨y, first, stop - 1⟩] else [] : List RowRun),
        piece.row = y ∧ first ≤ piece.first ∧ piece.last + 1 = stop) ∧
      ∀ row x, Holds (if first < stop then [⟨y, first, stop - 1⟩] else []) row x ↔
        row = y ∧ first ≤ x ∧ x < stop := by
  split
  · refine ⟨⟨fun piece hmem => ?_, List.pairwise_singleton ..⟩, fun piece hmem => ?_,
      fun row x => ?_⟩
    · rw [List.mem_singleton.mp hmem]
      dsimp only
      omega
    · rw [List.mem_singleton.mp hmem]
      dsimp only
      omega
    · simp only [holds_cons, holds_nil, or_false, Covers]
      omega
  · refine ⟨canonical_nil, fun _ hmem => absurd hmem List.not_mem_nil, fun row x => ?_⟩
    simp only [holds_nil, false_iff]
    omega

/-- The pieces of a run, from `first` on, without the stroke. -/
theorem cutRun_spec (first : Nat) (hstroke : Canonical stroke) (hrow : InRow run.row stroke) :
    Canonical (cutRun run first stroke) ∧
      (∀ piece ∈ cutRun run first stroke,
        piece.row = run.row ∧ first ≤ piece.first ∧ piece.last ≤ run.last) ∧
      ∀ row x, Holds (cutRun run first stroke) row x ↔
        row = run.row ∧ first ≤ x ∧ x ≤ run.last ∧ ¬ Holds stroke row x := by
  -- What is left when no cut comes any more.
  have hlast : ∀ {others : List RowRun} (first : Nat), (∀ x ≤ run.last, ¬ Holds others run.row x) →
      Canonical (if first ≤ run.last then [⟨run.row, first, run.last⟩] else []) ∧
        (∀ piece ∈ (if first ≤ run.last then [⟨run.row, first, run.last⟩] else [] : List RowRun),
          piece.row = run.row ∧ first ≤ piece.first ∧ piece.last ≤ run.last) ∧
        ∀ row x, Holds (if first ≤ run.last then [⟨run.row, first, run.last⟩] else []) row x ↔
          row = run.row ∧ first ≤ x ∧ x ≤ run.last ∧ ¬ Holds others row x := by
    intro others first hnone
    obtain ⟨hcanonical, hpieces, hholds⟩ := piece_spec run.row first (run.last + 1)
    simp only [Nat.lt_succ_iff, Nat.add_sub_cancel] at hcanonical hpieces hholds
    refine ⟨hcanonical, fun piece hpiece => ?_, fun row x => ?_⟩
    · obtain ⟨hpieceRow, hpieceFirst, hpieceLast⟩ := hpieces piece hpiece
      exact ⟨hpieceRow, hpieceFirst, by omega⟩
    · rw [hholds]
      refine and_congr_right fun hsame => and_congr_right fun hlow => ?_
      exact (and_iff_left_of_imp fun hhigh => hsame ▸ hnone x hhigh).symm
  induction stroke generalizing first with
  | nil => exact hlast first fun x _ => holds_nil
  | cons cut rest ih =>
      obtain ⟨hvalid, hbefore, hrest⟩ := canonical_cons.mp hstroke
      have hcutRow := hrow cut List.mem_cons_self
      have hrestRow : InRow run.row rest := fun other hother =>
        hrow other (List.mem_cons_of_mem _ hother)
      have hafter : ∀ x, Holds rest run.row x → cut.last + 1 < x := by
        intro x hheld
        have hpast := holds_after hbefore hheld
        omega
      rw [cutRun]
      split
      next hcuts =>
        obtain ⟨hkept, hkeptPieces, hkeptHolds⟩ := piece_spec run.row first cut.first
        dsimp only
        split
        next hdone =>
          refine ⟨hkept, fun piece hpiece => ?_, fun row x => ?_⟩
          · obtain ⟨hpieceRow, hpieceFirst, hpieceLast⟩ := hkeptPieces piece hpiece
            exact ⟨hpieceRow, hpieceFirst, by omega⟩
          · rw [hkeptHolds, holds_cons, Covers]
            refine and_congr_right fun hsame => ?_
            subst hsame
            have hpast := hafter x
            constructor
            · rintro ⟨hlow, hhigh⟩
              refine ⟨hlow, by omega, fun hheld => ?_⟩
              cases hheld with
              | inl hcovers => omega
              | inr hheld =>
                  have hpast := hpast hheld
                  omega
            · rintro ⟨hlow, hhigh, hnone⟩
              refine ⟨hlow, ?_⟩
              by_contra hcovered
              exact hnone (.inl ⟨hcutRow, by omega, by omega⟩)
        next hmore =>
          obtain ⟨hpieces, hbounds, hholds⟩ := ih (max first (cut.last + 1)) hrest hrestRow
          refine ⟨canonical_append hkept hpieces fun piece hpiece later hlater => ?_,
            fun piece hpiece => ?_, fun row x => ?_⟩
          · obtain ⟨hpieceRow, -, hpieceLast⟩ := hkeptPieces piece hpiece
            obtain ⟨hlaterRow, hlaterFirst, -⟩ := hbounds later hlater
            exact .inr ⟨hpieceRow.trans hlaterRow.symm, by omega⟩
          · cases List.mem_append.mp hpiece with
            | inl hpiece =>
                obtain ⟨hpieceRow, hpieceFirst, hpieceLast⟩ := hkeptPieces piece hpiece
                exact ⟨hpieceRow, hpieceFirst, by omega⟩
            | inr hpiece =>
                obtain ⟨hpieceRow, hpieceFirst, hpieceLast⟩ := hbounds piece hpiece
                exact ⟨hpieceRow, by omega, hpieceLast⟩
          · rw [holds_append, hkeptHolds, hholds, holds_cons, Covers, ← and_or_left]
            refine and_congr_right fun hsame => ?_
            subst hsame
            have hpast := hafter x
            by_cases hheld : Holds rest run.row x
            · have hpast := hpast hheld
              simp only [hheld, not_true, and_false, or_false, or_true, iff_false]
              omega
            · simp only [hheld, not_false_eq_true, and_true, or_false]
              omega
      next hpast =>
        refine hlast first fun x hhigh hheld => ?_
        cases holds_cons.mp hheld with
        | inl hcovers => exact absurd hcovers.2.1 (by omega)
        | inr hheld =>
            have hlater := hafter x hheld
            omega

/-- What the cut leaves behind ends before the run. -/
theorem holds_dropWhile {first : Nat} (hx : first ≤ x) :
    Holds (stroke.dropWhile fun other => other.last < first) row x ↔ Holds stroke row x := by
  constructor
  · intro ⟨other, hother, hcovers⟩
    exact ⟨other, (List.dropWhile_sublist _).subset hother, hcovers⟩
  · intro ⟨other, hother, hcovers⟩
    rw [← List.takeWhile_append_dropWhile (p := fun other : RowRun => other.last < first)
      (l := stroke)] at hother
    refine ⟨other, (List.mem_append.mp hother).resolve_left fun htaken => ?_, hcovers⟩
    have hends := List.mem_takeWhile_imp htaken
    have hlast := hcovers.2.2
    simp only [decide_eq_true_eq] at hends
    omega

theorem eraseRow_spec (hexisting : Canonical existing) (hexistingRow : InRow y existing)
    (hstroke : Canonical stroke) (hstrokeRow : InRow y stroke) :
    Canonical (eraseRow existing stroke) ∧
      (∀ piece ∈ eraseRow existing stroke, ∃ run ∈ existing,
        piece.row = run.row ∧ run.first ≤ piece.first ∧ piece.last ≤ run.last) ∧
      ∀ row x, Holds (eraseRow existing stroke) row x ↔
        Holds existing row x ∧ ¬ Holds stroke row x := by
  induction existing generalizing stroke with
  | nil =>
      exact ⟨canonical_nil, fun _ hmem => absurd hmem List.not_mem_nil, fun row x => by
        simp [eraseRow]⟩
  | cons run rest ih =>
      obtain ⟨hvalid, hbefore, hrest⟩ := canonical_cons.mp hexisting
      have hrunRow := hexistingRow run List.mem_cons_self
      have hcut := hstroke.sublist (List.dropWhile_sublist fun other => other.last < run.first)
      have hcutRow : InRow y (stroke.dropWhile fun other => other.last < run.first) :=
        fun other hother => hstrokeRow other ((List.dropWhile_sublist _).subset hother)
      have hkept : ∀ row x, run.first ≤ x →
          (Holds (stroke.dropWhile fun other => other.last < run.first) row x ↔
            Holds stroke row x) := fun row x => holds_dropWhile
      rw [eraseRow]
      generalize (stroke.dropWhile fun other => other.last < run.first) = cut at *
      obtain ⟨hpieces, hbounds, hholds⟩ := cutRun_spec run.first hcut (hrunRow ▸ hcutRow)
      obtain ⟨hlater, hparts, hlaterHolds⟩ := ih hrest
        (fun other hother => hexistingRow other (List.mem_cons_of_mem _ hother)) hcut hcutRow
      refine ⟨canonical_append hpieces hlater fun piece hpiece later hmem => ?_,
        fun piece hpiece => ?_, fun row x => ?_⟩
      · obtain ⟨other, hother, hotherRow, hotherFirst, -⟩ := hparts later hmem
        obtain ⟨hpieceRow, -, hpieceLast⟩ := hbounds piece hpiece
        have hgap := hbefore other hother
        unfold Before at hgap ⊢
        omega
      · cases List.mem_append.mp hpiece with
        | inl hpiece => exact ⟨run, List.mem_cons_self, hbounds piece hpiece⟩
        | inr hpiece =>
            obtain ⟨other, hother, hpart⟩ := hparts piece hpiece
            exact ⟨other, List.mem_cons_of_mem _ hother, hpart⟩
      · rw [holds_append, hholds, hlaterHolds, holds_cons, or_and_right, Covers]
        refine or_congr ?_ (and_congr_right fun hheld => not_congr (hkept row x ?_))
        · constructor
          · rintro ⟨hrow, hlow, hhigh, hnone⟩
            exact ⟨⟨hrow.symm, hlow, hhigh⟩, fun hheld => hnone ((hkept row x hlow).mpr hheld)⟩
          · rintro ⟨⟨hrow, hlow, hhigh⟩, hnone⟩
            exact ⟨hrow.symm, hlow, hhigh, fun hheld => hnone ((hkept row x hlow).mp hheld)⟩
        · have hpast := holds_after hbefore hheld
          obtain ⟨other, hother, hcovers⟩ := hheld
          have hotherRow := hexistingRow other (List.mem_cons_of_mem _ hother)
          have hcoversRow := hcovers.1
          omega

/-- A stroke adds its pixels to a set of pixels or takes them away. -/
def Stroked (erase : Bool) (stroke pixels : Pixels) : Pixels := fun row x =>
  if erase then pixels row x ∧ ¬ stroke row x else pixels row x ∨ stroke row x

theorem strokeRow_spec (erase : Bool) (hexisting : Canonical existing)
    (hexistingRow : InRow y existing)
    (hstroke : Canonical stroke) (hstrokeRow : InRow y stroke) :
    Canonical (strokeRow erase existing stroke) ∧ InRow y (strokeRow erase existing stroke) ∧
      ∀ row x, Holds (strokeRow erase existing stroke) row x ↔
        Stroked erase (Holds stroke) (Holds existing) row x := by
  cases erase with
  | true =>
      obtain ⟨hcanonical, hparts, hholds⟩ :=
        eraseRow_spec hexisting hexistingRow hstroke hstrokeRow
      refine ⟨hcanonical, fun piece hpiece => ?_, hholds⟩
      obtain ⟨run, hrun, hrow, -⟩ := hparts piece hpiece
      exact hrow.trans (hexistingRow run hrun)
  | false =>
      obtain ⟨hcanonical, hrow, hholds⟩ := paintRow_spec canonical_nil
        (fun _ hmem => absurd hmem List.not_mem_nil) hexisting hexistingRow hstroke hstrokeRow
        fun _ hmem => absurd hmem List.not_mem_nil
      refine ⟨hcanonical, hrow, fun row x => (hholds row x).trans ?_⟩
      simp [Stroked]

end Mmltk.Annotation
