import Mathlib.Order.Interval.Finset.Nat
import Mmltk.Annotation.MaskClasses

namespace Mmltk.Annotation

open Mmltk.Foundation RowRun

/-! What is kept of the components: the largest one, those inside, the one of a point. -/

variable {runs : List RowRun} {run other : RowRun} {pixel target : Nat × Nat}
  {index index' row x width height size : Nat} {parent : Nat → Nat} {test : Nat → Bool}

def extent (run : RowRun) : Nat := run.last - run.first + 1

end Mmltk.Annotation
