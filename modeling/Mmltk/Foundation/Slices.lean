import Mathlib.Data.List.Nodup
import Mathlib.Data.List.Perm.Basic

namespace Mmltk.Foundation

/-! A list cut into slices of one size, the last of which may be short. -/

variable {α : Type}

def slice (items : List α) (size index : Nat) : List α := (items.drop (index * size)).take size

/-- How many slices of `size` it takes to hold `count` items. -/
def divideUp (count size : Nat) : Nat := count / size + if count % size ≠ 0 then 1 else 0

theorem le_divideUp_mul {count size : Nat} (h : 0 < size) : count ≤ divideUp count size * size := by
  have hsplit := Nat.div_add_mod count size
  rw [divideUp, Nat.add_mul, Nat.mul_comm]
  split
  · have hlt := Nat.mod_lt count h
    omega
  · omega

theorem slices_flatten (items : List α) (size count : Nat) :
    (List.range count).flatMap (slice items size) = items.take (count * size) := by
  induction count with
  | zero => rw [Nat.zero_mul, List.take_zero, List.range_zero, List.flatMap_nil]
  | succ count ih =>
      rw [List.range_succ, List.flatMap_append, ih, Nat.succ_mul, List.take_add,
        List.flatMap_singleton]
      rfl

theorem slices_flatten_all (items : List α) {size : Nat} (h : 0 < size) :
    (List.range (divideUp items.length size)).flatMap (slice items size) = items := by
  rw [slices_flatten]
  exact List.take_of_length_le (le_divideUp_mul h)

theorem slice_range (count size index : Nat) :
    slice (List.range count) size index =
      List.range' (index * size) (min (index * size + size) count - index * size) := by
  rw [slice, List.range_eq_range', List.drop_range', Nat.zero_add, Nat.mul_one]
  rcases Nat.le_total (count - index * size) size with hle | hle
  · rw [List.take_range'_of_length_le hle]
    congr 1
    omega
  · rw [List.take_range'_of_length_ge hle]
    congr 1
    omega

/-- Lists of one size, one after another, are the slices of that size. -/
theorem slice_flatMap {size count index : Nat} {part : Nat → List α}
    (hsize : ∀ index < count, (part index).length = size) (hindex : index < count) :
    slice ((List.range count).flatMap part) size index = part index := by
  obtain ⟨more, rfl⟩ := Nat.le.dest (Nat.succ_le_of_lt hindex)
  have hbefore : ((List.range index).flatMap part).length = index * size := by
    rw [List.length_flatMap, List.map_congr_left fun other hother =>
      hsize other (Nat.lt_trans (List.mem_range.mp hother) hindex)]
    simp
  rw [slice, List.range_add, List.range_succ, List.flatMap_append, List.flatMap_append,
    List.flatMap_singleton, List.append_assoc, List.drop_left' hbefore,
    List.take_left' (hsize index hindex)]

/-! Turns dealt out in rounds: the first one gets `first`, `first + ways`, and so on. -/

def dealt (count ways first : Nat) : Nat :=
  if first < count then (count - 1 - first) / ways + 1 else 0

end Mmltk.Foundation
