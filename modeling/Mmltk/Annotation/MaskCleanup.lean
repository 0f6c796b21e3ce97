import Mmltk.Annotation.MaskSelection

namespace Mmltk.Annotation

open Mmltk.Foundation RowRun

/-! Cleaning up and filling: the runs against the pixels. -/

variable {runs empty out : List RowRun} {run : RowRun} {pixel : Nat × Nat} {x y : ℚ}
  {row column width height radius : Nat} {parent : Nat → Nat} {object cleaned filled : AnnotationObject}

theorem pixels_ext {pixels others : Pixels} (h : ∀ row x, pixels row x ↔ others row x) :
    pixels = others := by
  funext row x
  exact propext (h row x)

end Mmltk.Annotation
