import Mmltk.Annotation.MaskGrowth

namespace Mmltk.Annotation

open Mmltk.Foundation RowRun

/-! Components: pixels side by side, and the runs that the search joins from row to row. -/

variable {runs : List RowRun} {run other : RowRun} {pixels : Pixels} {pixel target : Nat × Nat}

/-- Side by side in a row, or one above the other. -/
def Adjacent (pixel other : Nat × Nat) : Prop :=
  pixel.1 = other.1 ∧ (pixel.2 + 1 = other.2 ∨ other.2 + 1 = pixel.2) ∨
    pixel.2 = other.2 ∧ (pixel.1 + 1 = other.1 ∨ other.1 + 1 = pixel.1)

def Connected (pixels : Pixels) : Nat × Nat → Nat × Nat → Prop :=
  Relation.ReflTransGen fun pixel other =>
    Adjacent pixel other ∧ pixels pixel.1 pixel.2 ∧ pixels other.1 other.2

theorem Connected.symm (h : Connected pixels pixel target) : Connected pixels target pixel := by
  induction h with
  | refl => exact .refl
  | tail _ hstep ih =>
      obtain ⟨hadjacent, hfrom, hto⟩ := hstep
      refine .head ⟨?_, hto, hfrom⟩ ih
      unfold Adjacent at hadjacent ⊢
      omega

theorem Connected.holds (h : Connected pixels pixel target) (hpixel : pixels pixel.1 pixel.2) :
    pixels target.1 target.2 := by
  cases h with
  | refl => exact hpixel
  | tail _ hstep => exact hstep.2.2

/-- The run overlaps another one of the row before. -/
def Touches (run other : RowRun) : Prop :=
  other.row + 1 = run.row ∧ other.first ≤ run.last ∧ run.first ≤ other.last

section Search

variable {α : Type} {test : α → Bool} {list : List α} {item : α}

end Search

section Links

variable {previous row members : List (RowRun × Nat)} {index index' : Nat}

/-- The members of one row, in order. -/
def Row (y : Nat) (row : List (RowRun × Nat)) : Prop :=
  (∀ member ∈ row, member.1.row = y ∧ member.1.first ≤ member.1.last) ∧
    row.Pairwise fun member later => member.1.Before later.1

theorem Row.gap {y : Nat} (h : Row y row) :
    row.Pairwise fun member later => member.1.last + 1 < later.1.first ∧
      member.1.first ≤ member.1.last ∧ later.1.first ≤ later.1.last := by
  refine h.2.imp_of_mem fun {member later} hmember hlater hbefore => ?_
  obtain ⟨hrow, hvalid⟩ := h.1 member hmember
  obtain ⟨hrowLater, hvalidLater⟩ := h.1 later hlater
  unfold Before at hbefore
  omega

theorem Row.sublist {y : Nat} {part : List (RowRun × Nat)} (h : Row y row)
    (hsub : part.Sublist row) : Row y part :=
  ⟨fun member hmember => h.1 member (hsub.subset hmember), h.2.sublist hsub⟩

end Links

end Mmltk.Annotation
