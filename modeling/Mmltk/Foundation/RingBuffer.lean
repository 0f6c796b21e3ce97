import Mathlib.Data.Nat.ModEq

namespace Mmltk.Foundation

/-! A bounded ring: slots, the oldest one in use, and how many are. -/

structure RingBuffer (α : Type) where
  slots : Nat → Option α
  read : Nat
  size : Nat

namespace RingBuffer

variable {α : Type}

def empty : RingBuffer α := ⟨fun _ => none, 0, 0⟩

def slot (capacity : Nat) (ring : RingBuffer α) (offset : Nat) : Nat := (ring.read + offset) % capacity

/-- What is `offset` places after the oldest. -/
def peek (capacity : Nat) (ring : RingBuffer α) (offset : Nat) : Option α :=
  ring.slots (ring.slot capacity offset)

def push (capacity : Nat) (ring : RingBuffer α) (item : α) : RingBuffer α :=
  { ring with
    slots := Function.update ring.slots (ring.slot capacity ring.size) (some item)
    size := ring.size + 1 }

def pop (capacity : Nat) (ring : RingBuffer α) : RingBuffer α where
  slots := Function.update ring.slots ring.read none
  read := (ring.read + 1) % capacity
  size := ring.size - 1

/-- Moved to other slots, the oldest item first. -/
def grow (capacity : Nat) (ring : RingBuffer α) : RingBuffer α where
  slots index := if index < ring.size then ring.peek capacity index else none
  read := 0
  size := ring.size

/-- Each of `remaining` places from `next` on moves one place towards the oldest. -/
def shift (capacity : Nat) (ring : RingBuffer α) (next : Nat) : Nat → Nat → Option α
  | 0 => ring.slots
  | remaining + 1 =>
      shift capacity
        { ring with
          slots := Function.update ring.slots (ring.slot capacity (next - 1))
            (ring.peek capacity next) }
        (next + 1) remaining

/-- Removal from the middle: what follows closes the gap. -/
def remove (capacity : Nat) (ring : RingBuffer α) (offset : Nat) : RingBuffer α :=
  { ring with
    slots := Function.update (ring.shift capacity (offset + 1) (ring.size - (offset + 1)))
      (ring.slot capacity (ring.size - 1)) none
    size := ring.size - 1 }

/-- The first place from `offset` on, among `remaining`, that holds an item of this kind. -/
def find (capacity : Nat) (ring : RingBuffer α) (kind : α → Bool) (offset : Nat) : Nat → Option Nat
  | 0 => none
  | remaining + 1 =>
      if (ring.peek capacity offset).any kind then some offset
      else find capacity ring kind (offset + 1) remaining

/-! The items of a ring, oldest first. -/

def toList (capacity : Nat) (ring : RingBuffer α) : List α :=
  (List.range ring.size).filterMap (ring.peek capacity)

structure Holds (capacity : Nat) (ring : RingBuffer α) (list : List α) : Prop where
  read_lt : ring.read < capacity
  size_le : ring.size ≤ capacity
  length_eq : list.length = ring.size
  peek_eq : ∀ offset, offset < ring.size → ring.peek capacity offset = list[offset]?

variable {capacity next remaining offset other : Nat} {ring : RingBuffer α} {list : List α} {item : α}

theorem Holds.empty (h : 0 < capacity) : Holds capacity (empty : RingBuffer α) [] where
  read_lt := h
  size_le := Nat.zero_le _
  length_eq := rfl
  peek_eq _ hoffset := absurd hoffset (Nat.not_lt_zero _)

theorem Holds.toList_eq (h : Holds capacity ring list) : ring.toList capacity = list := by
  have hfront : ∀ count ≤ ring.size,
      (List.range count).filterMap (ring.peek capacity) = list.take count := by
    intro count hcount
    induction count with
    | zero => rfl
    | succ count ih =>
        have hlist : count < list.length := by
          rw [h.length_eq]
          exact hcount
        have hpeek := h.peek_eq count hcount
        rw [List.getElem?_eq_getElem hlist] at hpeek
        rw [List.range_succ, List.filterMap_append, ih (Nat.le_of_succ_le hcount),
          List.take_succ_eq_append_getElem hlist]
        simp [hpeek]
  rw [toList, hfront ring.size (Nat.le_refl _), ← h.length_eq, List.take_length]

/-- Places below the capacity are different slots, whatever the wrap-around. -/
theorem slot_inj (hoffset : offset < capacity) (hother : other < capacity)
    (h : ring.slot capacity offset = ring.slot capacity other) : offset = other := by
  rw [slot, slot] at h
  exact Nat.ModEq.add_left_cancel' ring.read h |>.eq_of_lt_of_lt hoffset hother

theorem Holds.push (h : Holds capacity ring list) (hsize : ring.size < capacity) :
    Holds capacity (ring.push capacity item) (list ++ [item]) where
  read_lt := h.read_lt
  size_le := hsize
  length_eq := by simp [RingBuffer.push, h.length_eq]
  peek_eq offset hoffset := by
    have hoffset : offset < ring.size + 1 := hoffset
    have hpeek : (ring.push capacity item).peek capacity offset =
        Function.update ring.slots (ring.slot capacity ring.size) (some item)
          (ring.slot capacity offset) := rfl
    rw [hpeek]
    cases Nat.lt_or_eq_of_le (Nat.le_of_lt_succ hoffset) with
    | inl hlt =>
        have hne : ring.slot capacity offset ≠ ring.slot capacity ring.size := fun hsame =>
          absurd (slot_inj (by omega) hsize hsame) (by omega)
        rw [Function.update_of_ne hne, List.getElem?_append_left (by rw [h.length_eq]; exact hlt)]
        exact h.peek_eq offset hlt
    | inr heq =>
        rw [heq, Function.update_self, ← h.length_eq, List.getElem?_concat_length]

theorem Holds.pop {first : α} (h : Holds capacity ring (first :: list)) :
    ring.slots ring.read = some first ∧ Holds capacity (ring.pop capacity) list := by
  have hlength : list.length + 1 = ring.size := h.length_eq
  have hread := h.read_lt
  have hsize := h.size_le
  have hslot : ring.slot capacity 0 = ring.read := Nat.mod_eq_of_lt hread
  constructor
  · have hfirst := h.peek_eq 0 (by omega)
    rw [peek, hslot] at hfirst
    exact hfirst
  · refine ⟨Nat.mod_lt _ (by omega), ?_, ?_, ?_⟩
    · have hpop : (ring.pop capacity).size = ring.size - 1 := rfl
      omega
    · have hpop : (ring.pop capacity).size = ring.size - 1 := rfl
      omega
    · intro offset hoffset
      have hoffset : offset < ring.size - 1 := hoffset
      have hnext : (ring.pop capacity).slot capacity offset = ring.slot capacity (offset + 1) := by
        rw [slot, slot, RingBuffer.pop, Nat.mod_add_mod]
        congr 1
        omega
      have hne : ring.slot capacity (offset + 1) ≠ ring.read := by
        rw [← hslot]
        exact fun hsame => absurd (slot_inj (by omega) (by omega) hsame) (Nat.succ_ne_zero _)
      have hpeek := h.peek_eq (offset + 1) (by omega)
      rw [List.getElem?_cons_succ] at hpeek
      have hkept : (ring.pop capacity).slots (ring.slot capacity (offset + 1)) =
          ring.slots (ring.slot capacity (offset + 1)) := Function.update_of_ne hne _ _
      rw [peek, hnext, hkept]
      exact hpeek

theorem Holds.grow {larger : Nat} (h : Holds capacity ring list) (hlarger : capacity ≤ larger) :
    Holds larger (ring.grow capacity) list where
  read_lt := (Nat.zero_le _).trans_lt (h.read_lt.trans_le hlarger)
  size_le := h.size_le.trans hlarger
  length_eq := h.length_eq
  peek_eq offset hoffset := by
    have hoffset : offset < ring.size := hoffset
    have hslot : (ring.grow capacity).slot larger offset = offset := by
      rw [slot, RingBuffer.grow, Nat.zero_add]
      exact Nat.mod_eq_of_lt ((hoffset.trans_le h.size_le).trans_le hlarger)
    rw [peek, hslot]
    exact (if_pos hoffset).trans (h.peek_eq offset hoffset)

theorem shift_slot (hnext : 0 < next) (hend : next + remaining ≤ capacity)
    (hoffset : offset + 1 < next + remaining) :
    ring.shift capacity next remaining (ring.slot capacity offset) =
      if offset + 1 < next then ring.peek capacity offset
      else ring.peek capacity (offset + 1) := by
  induction remaining generalizing ring next with
  | zero =>
      rw [if_pos (by omega)]
      rfl
  | succ remaining ih =>
      have hne : ∀ {left right : Nat}, left < capacity → right < capacity → left ≠ right →
          ring.slot capacity left ≠ ring.slot capacity right :=
        fun hleft hright hdiffer hsame => hdiffer (slot_inj hleft hright hsame)
      have hmoved := @ih (next + 1)
        { ring with
          slots := Function.update ring.slots (ring.slot capacity (next - 1))
            (ring.peek capacity next) } (Nat.succ_pos next) (by omega) (by omega)
      refine hmoved.trans ?_
      have hpeek : ∀ place, peek capacity
          { ring with
            slots := Function.update ring.slots (ring.slot capacity (next - 1))
              (ring.peek capacity next) } place =
          Function.update ring.slots (ring.slot capacity (next - 1)) (ring.peek capacity next)
            (ring.slot capacity place) := fun _ => rfl
      rw [hpeek, hpeek]
      rcases Nat.lt_trichotomy (offset + 1) next with hlt | heq | hgt
      · rw [if_pos (by omega), if_pos hlt,
          Function.update_of_ne (hne (by omega) (by omega) (by omega))]
        rfl
      · subst heq
        rw [if_pos (by omega), if_neg (by omega), Nat.add_sub_cancel, Function.update_self]
      · rw [if_neg (by omega), if_neg (by omega),
          Function.update_of_ne (hne (by omega) (by omega) (by omega))]
        rfl

theorem Holds.remove (h : Holds capacity ring list) (hoffset : offset < ring.size) :
    Holds capacity (ring.remove capacity offset) (list.eraseIdx offset) := by
  have hsize := h.size_le
  have hremoved : (ring.remove capacity offset).size = ring.size - 1 := rfl
  refine ⟨h.read_lt, by omega, ?_, ?_⟩
  · rw [List.length_eraseIdx_of_lt (h.length_eq ▸ hoffset), hremoved, h.length_eq]
  · intro place hplace
    have hplace : place < ring.size - 1 := hplace
    have hne : ring.slot capacity place ≠ ring.slot capacity (ring.size - 1) := fun hsame =>
      absurd (slot_inj (by omega) (by omega) hsame) (by omega)
    have hpeek : (ring.remove capacity offset).peek capacity place =
        ring.shift capacity (offset + 1) (ring.size - (offset + 1)) (ring.slot capacity place) :=
      Function.update_of_ne hne _ _
    rw [hpeek, shift_slot (Nat.succ_pos offset) (by omega) (by omega), List.getElem?_eraseIdx]
    cases Nat.lt_or_ge place offset with
    | inl hlt => rw [if_pos (by omega), if_pos hlt, h.peek_eq place (by omega)]
    | inr hge => rw [if_neg (by omega), if_neg (by omega), h.peek_eq (place + 1) (by omega)]

theorem Holds.find_eq (h : Holds capacity ring list) (kind : α → Bool)
    (hend : offset + remaining = ring.size) :
    ring.find capacity kind offset remaining =
      ((list.drop offset).findIdx? kind).map (offset + ·) := by
  induction remaining generalizing offset with
  | zero =>
      rw [List.drop_eq_nil_of_le (by rw [h.length_eq]; omega)]
      rfl
  | succ remaining ih =>
      have hlist : offset < list.length := by
        rw [h.length_eq]
        omega
      have hpeek := h.peek_eq offset (by omega)
      rw [List.getElem?_eq_getElem hlist] at hpeek
      rw [find, hpeek, List.drop_eq_getElem_cons hlist, List.findIdx?_cons, Option.any_some]
      cases hkind : kind list[offset] with
      | true => simp
      | false =>
          have hnext := @ih (offset + 1) (by omega)
          simp only [Bool.false_eq_true, if_false, hnext]
          cases (list.drop (offset + 1)).findIdx? kind with
          | none => rfl
          | some index =>
              have hshift : offset + 1 + index = offset + (index + 1) := by omega
              simp [hshift]

end RingBuffer

end Mmltk.Foundation
