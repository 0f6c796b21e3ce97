import Mathlib.Data.List.TakeWhile
import Mathlib.Data.List.Perm.Lattice

namespace Mmltk.Foundation

/-! Free ranges by their start, in order, and used ranges, that together meet every address of a
space once. A range is a start and an extent. -/

abbrev Tile := Nat × Nat

abbrev Tile.Meets (range : Tile) (address : Nat) : Prop :=
  range.1 ≤ address ∧ address < range.1 + range.2

/-- How many of the ranges meet an address. -/
def cover (ranges : List Tile) (address : Nat) : Nat :=
  ranges.countP fun range => range.Meets address

/-- A range, if it is not empty. -/
def gap (start extent : Nat) : List Tile := if extent = 0 then [] else [(start, extent)]

/-- `std::map::erase` of a key. -/
def eraseKey (key : Nat) (ranges : List Tile) : List Tile := ranges.eraseP fun range => range.1 = key

structure Tiling (size : Nat) (free used : List Tile) : Prop where
  apart : free.Pairwise fun earlier later => earlier.1 + earlier.2 < later.1
  positive : ∀ range ∈ free, 0 < range.2
  once : ∀ address, cover free address + cover used address = if address < size then 1 else 0

variable {size : Nat} {free free' used used' front back middle middle' rest spent spent' : List Tile}
  {range other : Tile} {start extent padding offset count address : Nat}

@[simp] theorem cover_nil : cover [] address = 0 := rfl

@[simp] theorem cover_cons :
    cover (range :: rest) address =
      cover rest address + if range.1 ≤ address ∧ address < range.1 + range.2 then 1 else 0 := by
  simp only [cover, List.countP_cons, decide_eq_true_eq]

@[simp] theorem cover_append :
    cover (front ++ back) address = cover front address + cover back address :=
  List.countP_append

@[simp] theorem cover_gap :
    cover (gap start extent) address =
      if start ≤ address ∧ address < start + extent then 1 else 0 := by
  rw [gap]
  split
  · next hempty =>
      rw [cover_nil, if_neg]
      omega
  · simp

theorem cover_pos_iff : 0 < cover rest address ↔ ∃ range ∈ rest, range.Meets address := by
  simp [cover, List.countP_pos_iff]

theorem cover_perm (h : used.Perm used') : cover used address = cover used' address :=
  h.countP_eq _

theorem mem_gap : range ∈ gap start extent ↔ extent ≠ 0 ∧ range = (start, extent) := by
  rw [gap]
  split
  · next hempty => simp [hempty]
  · next hextent => simp [hextent]

theorem gap_apart :
    (gap start extent).Pairwise fun earlier later => earlier.1 + earlier.2 < later.1 := by
  rw [gap]
  split
  · exact List.Pairwise.nil
  · exact List.pairwise_singleton ..

theorem gap_positive (h : range ∈ gap start extent) : 0 < range.2 := by
  obtain ⟨hextent, rfl⟩ := mem_gap.mp h
  exact Nat.pos_of_ne_zero hextent

theorem eraseKey_eq {key : Nat} (h : ∀ range ∈ front, range.1 ≠ key) :
    eraseKey key (front ++ (key, extent) :: back) = front ++ back := by
  have hfront : ∀ range ∈ front, ¬ decide (range.1 = key) = true := by simpa using h
  rw [eraseKey, List.eraseP_append_right _ hfront, List.eraseP_cons_of_pos (by simp)]

theorem exists_parts (key : Nat)
    (h : free.Pairwise fun earlier later => earlier.1 + earlier.2 < later.1) :
    ∃ front back, free = front ++ back ∧ (∀ range ∈ front, range.1 < key) ∧
      ∀ range ∈ back, key ≤ range.1 := by
  induction free with
  | nil => exact ⟨[], [], rfl, by simp, by simp⟩
  | cons first rest ih =>
      obtain ⟨hfirst, hrest⟩ := List.pairwise_cons.mp h
      cases Nat.lt_or_ge first.1 key with
      | inl hlower =>
          obtain ⟨front, back, rfl, hfront, hback⟩ := ih hrest
          exact ⟨first :: front, back, rfl, List.forall_mem_cons.mpr ⟨hlower, hfront⟩, hback⟩
      | inr hupper =>
          refine ⟨[], first :: rest, rfl, by simp, List.forall_mem_cons.mpr ⟨hupper, ?_⟩⟩
          intro range hrange
          have hlt := hfirst range hrange
          omega

namespace Tiling

theorem perm (h : Tiling size free used) (hperm : used.Perm used') : Tiling size free used' := by
  refine ⟨h.apart, h.positive, fun address => ?_⟩
  rw [← cover_perm hperm]
  exact h.once address

theorem whole (hsize : 0 < size) : Tiling size [(0, size)] [] := by
  refine ⟨List.pairwise_singleton _ _, by simpa using hsize, fun address => ?_⟩
  simp

/-- Some of the ranges in a row, and some of the used ones, exchanged for others over the same
addresses. -/
theorem exchange (h : Tiling size (front ++ middle ++ back) (spent ++ used))
    (hsame : ∀ address, cover middle' address + cover spent' address =
      cover middle address + cover spent address)
    (hapart : middle'.Pairwise fun earlier later => earlier.1 + earlier.2 < later.1)
    (hpositive : ∀ range ∈ middle', 0 < range.2)
    (hfront : ∀ earlier ∈ front, ∀ later ∈ middle', earlier.1 + earlier.2 < later.1)
    (hback : ∀ earlier ∈ middle', ∀ later ∈ back, earlier.1 + earlier.2 < later.1) :
    Tiling size (front ++ middle' ++ back) (spent' ++ used) := by
  obtain ⟨hfrontMiddle, hbackApart, hcross⟩ := List.pairwise_append.mp h.apart
  obtain ⟨hfrontApart, -, -⟩ := List.pairwise_append.mp hfrontMiddle
  constructor
  · refine List.pairwise_append.mpr ⟨List.pairwise_append.mpr ⟨hfrontApart, hapart, hfront⟩,
      hbackApart, ?_⟩
    intro earlier hearlier later hlater
    obtain hmem | hmem := List.mem_append.mp hearlier
    · exact hcross earlier (List.mem_append_left _ hmem) later hlater
    · exact hback earlier hmem later hlater
  · intro range hrange
    obtain hleft | hright := List.mem_append.mp hrange
    · obtain hmem | hmem := List.mem_append.mp hleft
      · exact h.positive range (List.mem_append_left _ (List.mem_append_left _ hmem))
      · exact hpositive range hmem
    · exact h.positive range (List.mem_append_right _ hright)
  · intro address
    have honce := h.once address
    have haddress := hsame address
    simp only [cover_append] at honce ⊢
    omega

theorem apart_front (h : Tiling size (front ++ range :: back) used) :
    ∀ earlier ∈ front, earlier.1 + earlier.2 < range.1 := by
  intro earlier hearlier
  exact (List.pairwise_append.mp h.apart).2.2 earlier hearlier range (by simp)

theorem apart_back (h : Tiling size (front ++ range :: back) used) :
    ∀ later ∈ back, range.1 + range.2 < later.1 := by
  intro later hlater
  have hcons := (List.pairwise_append.mp h.apart).2.1
  exact (List.pairwise_cons.mp hcons).1 later hlater

theorem free_away (h : Tiling size free used) (hfree : range ∈ free) (hused : other ∈ used)
    (hcount : 0 < other.2) :
    range.1 + range.2 ≤ other.1 ∨ other.1 + other.2 ≤ range.1 := by
  by_contra hmeet
  have hrange := h.positive range hfree
  have honce := h.once (max range.1 other.1)
  have hfirst : 0 < cover free (max range.1 other.1) :=
    cover_pos_iff.mpr ⟨range, hfree, by omega, by omega⟩
  have hsecond : 0 < cover used (max range.1 other.1) :=
    cover_pos_iff.mpr ⟨other, hused, by omega, by omega⟩
  split at honce <;> omega

theorem used_le (h : Tiling size free used) (hused : range ∈ used) (hcount : 0 < range.2) :
    range.1 + range.2 ≤ size := by
  have honce := h.once (range.1 + range.2 - 1)
  have hmeet : 0 < cover used (range.1 + range.2 - 1) :=
    cover_pos_iff.mpr ⟨range, hused, by omega, by omega⟩
  split at honce <;> omega

theorem used_away (h : Tiling size free (range :: used)) (hused : other ∈ used)
    (hrange : 0 < range.2) (hcount : 0 < other.2) :
    range.1 + range.2 ≤ other.1 ∨ other.1 + other.2 ≤ range.1 := by
  by_contra hmeet
  have honce := h.once (max range.1 other.1)
  have hsecond : 0 < cover used (max range.1 other.1) :=
    cover_pos_iff.mpr ⟨other, hused, by omega, by omega⟩
  rw [cover_cons, if_pos (by omega)] at honce
  split at honce <;> omega

/-- The free ranges on the two sides of a used one. -/
theorem sides (h : Tiling size free ((offset, count) :: used)) (hcount : 0 < count) :
    ∃ front back, free = front ++ back ∧ (∀ range ∈ front, range.1 < offset) ∧
      (∀ range ∈ front, range.1 + range.2 ≤ offset) ∧
      ∀ range ∈ back, offset + count ≤ range.1 := by
  obtain ⟨front, back, rfl, hfront, hback⟩ := exists_parts offset h.apart
  refine ⟨front, back, rfl, hfront, ?_, ?_⟩
  · intro range hrange
    have haway := h.free_away (List.mem_append_left _ hrange) List.mem_cons_self hcount
    have hlower := hfront range hrange
    simp only at haway
    omega
  · intro range hrange
    have haway := h.free_away (List.mem_append_right _ hrange) List.mem_cons_self hcount
    have hpositive := h.positive range (List.mem_append_right _ hrange)
    have hupper := hback range hrange
    simp only at haway
    omega

/-- A part of a free range is taken, and what is left of it on either side stays free. -/
theorem carve (h : Tiling size (front ++ (start, extent) :: back) used) (hcount : 0 < count)
    (hfits : padding + count ≤ extent) :
    Tiling size
      (front ++ (gap start padding ++
        gap (start + padding + count) (extent - padding - count)) ++ back)
      ((start + padding, count) :: used) := by
  have hfront := h.apart_front
  have hback := h.apart_back
  have hsplit : Tiling size (front ++ [(start, extent)] ++ back) ([] ++ used) := by simpa using h
  have hexchange := @exchange size used front back [(start, extent)]
    (gap start padding ++ gap (start + padding + count) (extent - padding - count)) []
    [(start + padding, count)] hsplit
  refine hexchange ?_ ?_ ?_ ?_ ?_
  · intro address
    simp only [cover_append, cover_gap, cover_cons, cover_nil]
    split_ifs <;> omega
  · refine List.pairwise_append.mpr ⟨gap_apart, gap_apart, ?_⟩
    intro earlier hearlier later hlater
    obtain ⟨-, rfl⟩ := mem_gap.mp hearlier
    obtain ⟨-, rfl⟩ := mem_gap.mp hlater
    exact Nat.lt_add_of_pos_right hcount
  · intro range hrange
    cases List.mem_append.mp hrange with
    | inl hleft => exact gap_positive hleft
    | inr hright => exact gap_positive hright
  · intro earlier hearlier later hlater
    have hlt := hfront earlier hearlier
    cases List.mem_append.mp hlater with
    | inl hleft =>
        obtain ⟨-, rfl⟩ := mem_gap.mp hleft
        exact hlt
    | inr hright =>
        obtain ⟨-, rfl⟩ := mem_gap.mp hright
        simp only at hlt ⊢
        omega
  · intro earlier hearlier later hlater
    have hlt := hback later hlater
    cases List.mem_append.mp hearlier with
    | inl hleft =>
        obtain ⟨-, rfl⟩ := mem_gap.mp hleft
        simp only at hlt ⊢
        omega
    | inr hright =>
        obtain ⟨-, rfl⟩ := mem_gap.mp hright
        simp only at hlt ⊢
        omega

/-- A used range becomes free, together with the free ranges on both sides of it. -/
theorem merge {limit : Nat} {before after : List Tile}
    (h : Tiling size (front ++ (before ++ after) ++ back) ((offset, count) :: used))
    (hcount : 0 < count) (hstart : start ≤ offset) (hlimit : offset + count ≤ limit)
    (hbefore : ∀ address, cover before address = if start ≤ address ∧ address < offset then 1 else 0)
    (hafter : ∀ address, cover after address =
      if offset + count ≤ address ∧ address < limit then 1 else 0)
    (hfront : ∀ earlier ∈ front, earlier.1 + earlier.2 < start)
    (hback : ∀ later ∈ back, limit < later.1) :
    Tiling size (front ++ (start, limit - start) :: back) used := by
  have hexchange := @exchange size used front back (before ++ after) [(start, limit - start)]
    [(offset, count)] [] h
  have hmerged : Tiling size (front ++ [(start, limit - start)] ++ back) ([] ++ used) := by
    refine hexchange ?_ ?_ ?_ ?_ ?_
    · intro address
      simp only [cover_append, cover_cons, cover_nil, hbefore, hafter]
      split_ifs <;> omega
    · exact List.pairwise_singleton ..
    · intro range hrange
      rw [List.mem_singleton.mp hrange]
      exact Nat.sub_pos_of_lt (by omega)
    · intro earlier hearlier later hlater
      rw [List.mem_singleton.mp hlater]
      exact hfront earlier hearlier
    · intro earlier hearlier later hlater
      rw [List.mem_singleton.mp hearlier]
      have hlt := hback later hlater
      simp only
      omega
  simpa using hmerged

/-- A used range changes its extent within the free range that follows it. -/
theorem refit {count' limit : Nat} {after : List Tile}
    (h : Tiling size (front ++ after ++ back) ((offset, count) :: used)) (hcount : 0 < count)
    (hpositive : 0 < count') (hlimit : offset + count ≤ limit) (hfits : offset + count' ≤ limit)
    (hafter : ∀ address, cover after address =
      if offset + count ≤ address ∧ address < limit then 1 else 0)
    (hfront : ∀ earlier ∈ front, earlier.1 + earlier.2 ≤ offset)
    (hback : ∀ later ∈ back, limit < later.1) :
    Tiling size (front ++ gap (offset + count') (limit - (offset + count')) ++ back)
      ((offset, count') :: used) := by
  have hexchange := @exchange size used front back after
    (gap (offset + count') (limit - (offset + count'))) [(offset, count)] [(offset, count')] h
  refine hexchange ?_ gap_apart (fun range hrange => gap_positive hrange) ?_ ?_
  · intro address
    simp only [cover_cons, cover_gap, cover_nil, hafter]
    split_ifs <;> omega
  · intro earlier hearlier later hlater
    obtain ⟨-, rfl⟩ := mem_gap.mp hlater
    have hle := hfront earlier hearlier
    simp only
    omega
  · intro earlier hearlier later hlater
    obtain ⟨-, rfl⟩ := mem_gap.mp hearlier
    have hlt := hback later hlater
    simp only
    omega

end Tiling

end Mmltk.Foundation
