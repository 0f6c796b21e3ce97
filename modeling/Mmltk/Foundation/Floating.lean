import Mathlib.Data.Rat.Floor
import Mathlib.Data.Rat.Sqrt

namespace Mmltk.Foundation

/-! Floating-point numbers as far as a program compares, clamps and moves them. -/

/-- Arithmetic rounds as it likes; only finite numbers need to be equal to themselves. -/
class Floating (F : Type) extends Zero F, NatCast F, Add F, Sub F, Mul F, Div F, Neg F, BEq F, LT F,
    LE F where
  decidableLT : DecidableLT F
  decidableLE : DecidableLE F
  isFinite : F → Bool
  hypot : F → F → F
  floor : F → Int
  ceil : F → Int
  beq_of_finite {x : F} (h : isFinite x = true) : (x == x) = true
  finite_of_between {x : F} {bound : Nat} (hlow : 0 ≤ x) (hhigh : x ≤ bound) : isFinite x = true

namespace Floating

variable {F : Type} [Floating F]

instance : DecidableLT F := decidableLT

instance : DecidableLE F := decidableLE

end Floating

/-- Exact numbers; roots are right where they are rational. -/
instance : Floating ℚ where
  decidableLT := inferInstance
  decidableLE := inferInstance
  isFinite _ := true
  hypot x y := Rat.sqrt (x * x + y * y)
  floor x := ⌊x⌋
  ceil x := ⌈x⌉
  beq_of_finite _ := beq_self_eq_true _
  finite_of_between _ _ := rfl

/-- Positive finite numbers have one representation each. -/
class ExactFloating (F : Type) extends Floating F where
  eq_of_beq {x y : F} (hfinite : isFinite x = true) (hpos : 0 < x) (h : (x == y) = true) : x = y

instance : ExactFloating ℚ where
  eq_of_beq _ _ h := LawfulBEq.eq_of_beq h

end Mmltk.Foundation
