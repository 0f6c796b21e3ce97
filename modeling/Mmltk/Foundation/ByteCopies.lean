import Mathlib.Data.List.Basic
import Mmltk.Foundation.Relocation

namespace Mmltk.Foundation

/-! Copies as lists of pairs: from which address to which, byte by byte and in order. -/

/-- Destinations are taken modulo the size of the address space. -/
def copies (modulus source destination count : Nat) : List (Nat × Nat) :=
  (List.range count).map fun index => (source + index, (destination + index) % modulus)

section

variable {modulus source destination other count more : Nat}

@[simp] theorem length_copies : (copies modulus source destination count).length = count := by
  simp [copies]

theorem copies_add : copies modulus source destination (count + more) =
    copies modulus source destination count ++
      copies modulus (source + count) (destination + count) more := by
  simp only [copies, List.range_add, List.map_append, List.map_map, List.append_cancel_left_eq]
  refine List.map_congr_left fun index _ => ?_
  simp only [Function.comp_apply, Nat.add_assoc]

theorem copies_congr (h : destination % modulus = other % modulus) :
    copies modulus source destination count = copies modulus source other count := by
  refine List.map_congr_left fun index _ => ?_
  rw [Nat.add_mod destination, h, ← Nat.add_mod]

theorem drop_copies (hle : more ≤ count) : (copies modulus source destination count).drop more =
    copies modulus (source + more) (destination + more) (count - more) := by
  obtain ⟨rest, rfl⟩ := Nat.le.dest hle
  rw [copies_add, List.drop_left' length_copies, Nat.add_sub_cancel_left]

theorem take_copies (hle : more ≤ count) : (copies modulus source destination count).take more =
    copies modulus source destination more := by
  obtain ⟨rest, rfl⟩ := Nat.le.dest hle
  rw [copies_add, List.take_left' length_copies]

theorem mem_copies {pair : Nat × Nat} : pair ∈ copies modulus source destination count ↔
    ∃ index < count, pair = (source + index, (destination + index) % modulus) := by
  simp only [copies, List.mem_map, List.mem_range, eq_comm]

end

variable {α : Type}

/-- The copies are made one after the other. -/
def copyAll (data : Nat → α) (contents : Nat → α) (pairs : List (Nat × Nat)) : Nat → α :=
  pairs.foldl (fun contents pair => Function.update contents pair.2 (data pair.1)) contents

theorem copyAll_append (data contents : Nat → α) (first second : List (Nat × Nat)) :
    copyAll data contents (first ++ second) = copyAll data (copyAll data contents first) second :=
  List.foldl_append

/-- A copy that stays inside the address space is one block. -/
theorem copyAll_copies (data contents : Nat → α) {modulus source destination count : Nat}
    (hfits : destination + count ≤ modulus) :
    copyAll data contents (copies modulus source destination count) =
      overwrite contents data destination source count := by
  induction count with
  | zero =>
      funext address
      rw [overwrite, if_neg (by omega)]
      rfl
  | succ count ih =>
      have hlast : (destination + count) % modulus = destination + count :=
        Nat.mod_eq_of_lt (by omega)
      rw [copies_add, copyAll_append, ih (by omega)]
      funext address
      simp only [copyAll, copies, List.range_one, List.map_cons, List.map_nil, List.foldl_cons,
        List.foldl_nil, Nat.add_zero, hlast]
      rcases eq_or_ne address (destination + count) with rfl | hne
      · rw [Function.update_self, overwrite_inside _ _ _ (Nat.lt_succ_self count)]
      · rw [Function.update_of_ne hne, overwrite, overwrite]
        refine if_congr ?_ rfl rfl
        omega

end Mmltk.Foundation
