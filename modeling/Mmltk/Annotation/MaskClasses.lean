import Mmltk.Annotation.MaskComponents

namespace Mmltk.Annotation

open Mmltk.Foundation RowRun

/-! The classes of the runs are the components of their pixels. -/

variable {runs : List RowRun} {run other : RowRun} {pixel target : Nat × Nat}
  {index index' row x : Nat} {parent : Nat → Nat}

end Mmltk.Annotation
