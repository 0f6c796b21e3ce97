namespace Mmltk.Foundation

/-! Moving extents downward inside one address space, over any contents. -/

variable {α : Type}

/-- `length` cells read at `source` and meant for `destination`. -/
structure Extent where
  source : Nat
  destination : Nat
  length : Nat

/-- The pairs of a destination address and the source address it stands for. -/
def Extent.Moves (extent : Extent) (destination source : Nat) : Prop :=
  ∃ index, index < extent.length ∧ destination = extent.destination + index ∧
    source = extent.source + index

/-- `count` cells of `data` from `start`, laid over `contents` at `target`. -/
def overwrite (contents data : Nat → α) (target start count : Nat) : Nat → α :=
  fun address =>
    if target ≤ address ∧ address < target + count then data (start + (address - target))
    else contents address

theorem overwrite_inside (contents data : Nat → α) (start : Nat) {target count index : Nat}
    (h : index < count) :
    overwrite contents data target start count (target + index) = data (start + index) := by
  rw [overwrite, if_pos ⟨Nat.le_add_right _ _, Nat.add_lt_add_left h _⟩,
    Nat.add_sub_cancel_left]

theorem overwrite_outside (contents data : Nat → α) (start : Nat) {target count address : Nat}
    (h : address < target ∨ target + count ≤ address) :
    overwrite contents data target start count address = contents address := by
  rw [overwrite, if_neg]
  omega

/-- Below `low` lie the cells already placed; the `intact` cells still hold what they
held at first.  Everything else is free. -/
structure Relocated (original current : Nat → α) (low : Nat) (intact : Nat → Prop)
    (placed : Nat → Nat → Prop) : Prop where
  intact_eq : ∀ address, intact address → current address = original address
  placed_lt : ∀ destination source, placed destination source → destination < low
  placed_eq : ∀ destination source, placed destination source →
    current destination = original source

namespace Relocated

variable {original current next : Nat → α} {low : Nat} {intact : Nat → Prop}
  {placed : Nat → Nat → Prop}

theorem start (original : Nat → α) (low : Nat) (intact : Nat → Prop) :
    Relocated original original low intact (fun _ _ => False) :=
  ⟨fun _ _ => rfl, fun _ _ h => h.elim, fun _ _ h => h.elim⟩

/-- A change confined to free cells. -/
theorem touch (h : Relocated original current low intact placed)
    (hbelow : ∀ address, address < low → next address = current address)
    (hintact : ∀ address, intact address → next address = current address) :
    Relocated original next low intact placed where
  intact_eq address hin := (hintact address hin).trans (h.intact_eq address hin)
  placed_lt := h.placed_lt
  placed_eq destination _ hplaced :=
    (hbelow destination (h.placed_lt _ _ hplaced)).trans (h.placed_eq _ _ hplaced)

/-- Fewer cells still needed, a higher mark, fewer cells counted as placed. -/
theorem consequence {higher : Nat} {fewer : Nat → Prop} {part : Nat → Nat → Prop}
    (h : Relocated original current low intact placed) (hhigher : low ≤ higher)
    (hfewer : ∀ address, fewer address → intact address)
    (hpart : ∀ destination source, part destination source → placed destination source) :
    Relocated original current higher fewer part where
  intact_eq address hin := h.intact_eq address (hfewer address hin)
  placed_lt destination source hplaced :=
    Nat.lt_of_lt_of_le (h.placed_lt _ _ (hpart destination source hplaced)) hhigher
  placed_eq destination source hplaced :=
    h.placed_eq destination source (hpart destination source hplaced)

/-- The next `count` cells of an extent are where they belong. -/
theorem advance {source destination done count : Nat}
    (h : Relocated original current (destination + done) intact
      (fun d s => placed d s ∨ Extent.Moves ⟨source, destination, done⟩ d s))
    (hcells : ∀ index, index < count →
      current (destination + done + index) = original (source + done + index)) :
    Relocated original current (destination + (done + count)) intact
      (fun d s => placed d s ∨ Extent.Moves ⟨source, destination, done + count⟩ d s) where
  intact_eq := h.intact_eq
  placed_lt d s hplaced := by
    rcases hplaced with hplaced | ⟨index, hindex, rfl, rfl⟩
    · exact Nat.lt_of_lt_of_le (h.placed_lt _ _ (.inl hplaced)) (by omega)
    · exact Nat.add_lt_add_left hindex _
  placed_eq d s hplaced := by
    rcases hplaced with hplaced | ⟨index, hindex, rfl, rfl⟩
    · exact h.placed_eq _ _ (.inl hplaced)
    · by_cases hdone : index < done
      · exact h.placed_eq _ _ (.inr ⟨index, hdone, rfl, rfl⟩)
      · have hcell := hcells (index - done)
          (by show index - done < count; have : index < done + count := hindex; omega)
        rw [Nat.add_assoc, Nat.add_assoc, Nat.add_sub_cancel' (Nat.not_lt.mp hdone)] at hcell
        exact hcell

/-- An extent whose cells are all where they belong is placed. -/
theorem place (extent : Extent) (h : Relocated original current low intact placed)
    (hlow : low ≤ extent.destination)
    (hcells : ∀ index, index < extent.length →
      current (extent.destination + index) = original (extent.source + index)) :
    Relocated original current (extent.destination + extent.length) intact
      (fun d s => placed d s ∨ extent.Moves d s) := by
  have hnone : Relocated original current (extent.destination + 0) intact
      (fun d s => placed d s ∨ Extent.Moves ⟨extent.source, extent.destination, 0⟩ d s) := by
    refine h.consequence hlow (fun _ hin => hin) ?_
    rintro d s (hplaced | ⟨index, hindex, -⟩)
    · exact hplaced
    · exact absurd hindex (Nat.not_lt_zero index)
  have hall := hnone.advance hcells
  rw [Nat.zero_add] at hall
  exact hall

end Relocated

end Mmltk.Foundation
