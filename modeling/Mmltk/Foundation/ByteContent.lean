import Mathlib.Order.Lattice
import Mathlib.Order.Nat

namespace Mmltk.Foundation

/-! The bytes of a file: how many there are, and which. Past its size a file reads as zero. -/

@[ext]
structure ByteContent where
  size : Nat
  byte : Nat → UInt8

namespace ByteContent

def empty : ByteContent := ⟨0, fun _ => 0⟩

/-- Cut off, or extended by zeros. -/
def resize (content : ByteContent) (size : Nat) : ByteContent where
  size := size
  byte offset := if offset < content.size ∧ offset < size then content.byte offset else 0

def write (content : ByteContent) (offset : Nat) (chunk : List UInt8) : ByteContent where
  size := max content.size (offset + chunk.length)
  byte position :=
    if offset ≤ position ∧ position < offset + chunk.length then chunk.getD (position - offset) 0
    else if position < content.size then content.byte position
    else 0

def read (content : ByteContent) (offset count : Nat) : List UInt8 :=
  (List.range count).map fun index => content.byte (offset + index)

/-- The chunk is the content's bytes from `offset` on. -/
def Holds (content : ByteContent) (offset : Nat) (chunk : List UInt8) : Prop :=
  offset + chunk.length ≤ content.size ∧
    ∀ position < chunk.length, chunk.getD position 0 = content.byte (offset + position)

/-- The same bytes from `start` up to `stop`. -/
def AgreesOn (content other : ByteContent) (start stop : Nat) : Prop :=
  ∀ position, start ≤ position → position < stop → content.byte position = other.byte position

/-- The first bytes of the other. -/
structure PrefixOf (content other : ByteContent) : Prop where
  size_le : content.size ≤ other.size
  agrees : content.AgreesOn other 0 content.size

/-- The same bytes, all of them. -/
structure Same (content other : ByteContent) : Prop where
  size_eq : content.size = other.size
  agrees : content.AgreesOn other 0 content.size

variable {content other : ByteContent} {offset start stop : Nat} {chunk : List UInt8}

instance : Decidable (content.AgreesOn other start stop) :=
  decidable_of_iff (∀ position < stop, start ≤ position →
      content.byte position = other.byte position)
    ⟨fun h position hstart hstop => h position hstop hstart,
      fun h position hstop hstart => h position hstart hstop⟩

instance : Decidable (content.Holds offset chunk) := inferInstanceAs (Decidable (_ ∧ _))

instance : Decidable (content.Same other) :=
  decidable_of_iff (content.size = other.size ∧ content.AgreesOn other 0 content.size)
    ⟨fun h => ⟨h.1, h.2⟩, fun h => ⟨h.size_eq, h.agrees⟩⟩

theorem prefixOf_empty (content : ByteContent) : content.size = 0 → content.PrefixOf other :=
  fun hsize => ⟨hsize ▸ Nat.zero_le _, fun position _ hstop => by omega⟩

theorem PrefixOf.same (h : content.PrefixOf other) (hsize : content.size = other.size) :
    content.Same other := ⟨hsize, h.agrees⟩

/-- What is written is what the other content has there. -/
theorem write_agrees (hchunk : other.Holds offset chunk) :
    (content.write offset chunk).AgreesOn other offset (offset + chunk.length) := by
  intro position hstart hstop
  have hbyte := hchunk.2 (position - offset) (by omega)
  rw [Nat.add_sub_cancel' hstart] at hbyte
  rw [← hbyte]
  exact if_pos ⟨hstart, hstop⟩

/-- Bytes that were the same stay so under a write of the same bytes. -/
theorem AgreesOn.write (h : content.AgreesOn other start stop) (hstop : stop ≤ content.size)
    (hchunk : other.Holds offset chunk) :
    (content.write offset chunk).AgreesOn other start stop := by
  intro position hstart hbefore
  rw [ByteContent.write]
  dsimp only
  split
  next hinside =>
    have hbyte := hchunk.2 (position - offset) (by omega)
    rw [Nat.add_sub_cancel' hinside.1] at hbyte
    exact hbyte
  · rw [if_pos (Nat.lt_of_lt_of_le hbefore hstop)]
    exact h position hstart hbefore

theorem PrefixOf.write (h : content.PrefixOf other) (hchunk : other.Holds content.size chunk) :
    (content.write content.size chunk).PrefixOf other := by
  have hsize : (content.write content.size chunk).size = content.size + chunk.length :=
    Nat.max_eq_right (Nat.le_add_right _ _)
  refine ⟨hsize ▸ hchunk.1, fun position hstart hstop => ?_⟩
  rw [hsize] at hstop
  cases Nat.lt_or_ge position content.size with
  | inl hbefore => exact h.agrees.write (Nat.le_refl _) hchunk position hstart hbefore
  | inr hafter => exact write_agrees hchunk position hafter hstop

/-- A write of nothing does not extend a file. -/
def put (content : ByteContent) (offset : Nat) (chunk : List UInt8) : ByteContent :=
  if chunk = [] then content else content.write offset chunk

@[simp] theorem put_nil (content : ByteContent) (offset : Nat) : content.put offset [] = content :=
  rfl

theorem write_inside (content : ByteContent) {position : Nat} (hstart : offset ≤ position)
    (hstop : position < offset + chunk.length) :
    (content.write offset chunk).byte position = chunk.getD (position - offset) 0 :=
  if_pos ⟨hstart, hstop⟩

theorem write_outside (content : ByteContent) {position : Nat}
    (h : position < offset ∨ offset + chunk.length ≤ position) :
    (content.write offset chunk).byte position =
      if position < content.size then content.byte position else 0 :=
  if_neg (by omega)

/-- Two writes, the one behind the other, are one. -/
theorem write_append (content : ByteContent) (offset : Nat) (chunk more : List UInt8) :
    (content.write offset chunk).write (offset + chunk.length) more =
      content.write offset (chunk ++ more) := by
  have hlength : (chunk ++ more).length = chunk.length + more.length := List.length_append
  have hsize : (content.write offset chunk).size = max content.size (offset + chunk.length) := rfl
  refine ByteContent.ext ?_ (funext fun position => ?_)
  · change max (max content.size (offset + chunk.length)) (offset + chunk.length + more.length) =
      max content.size (offset + (chunk ++ more).length)
    omega
  rcases Nat.lt_or_ge position (offset + chunk.length) with hbefore | hmore
  · rw [write_outside _ (.inl hbefore), hsize]
    rcases Nat.lt_or_ge position offset with hless | hoffset
    · rw [write_outside _ (.inl hless), write_outside _ (.inl hless)]
      grind
    · rw [write_inside _ hoffset hbefore, write_inside _ hoffset (by omega), if_pos (by omega)]
      have hless : position - offset < chunk.length := by omega
      rw [List.getD_eq_getElem?_getD, List.getD_eq_getElem?_getD, List.getElem?_append_left hless]
  · rcases Nat.lt_or_ge position (offset + chunk.length + more.length) with hinside | hafter
    · rw [write_inside _ hmore hinside, write_inside _ (by omega) (by omega)]
      have hle : chunk.length ≤ position - offset := by omega
      rw [List.getD_eq_getElem?_getD, List.getD_eq_getElem?_getD, List.getElem?_append_right hle,
        Nat.sub_sub]
    · have hbehind : offset + (chunk ++ more).length ≤ position := by omega
      rw [write_outside _ (.inr hafter), write_outside _ (.inr hmore), hsize,
        write_outside _ (.inr hbehind)]
      grind

theorem put_append (content : ByteContent) (offset : Nat) (chunk more : List UInt8) :
    (content.put offset chunk).put (offset + chunk.length) more =
      content.put offset (chunk ++ more) := by
  cases chunk with
  | nil => rfl
  | cons first rest =>
      cases more with
      | nil => rw [List.append_nil, put_nil]
      | cons next later => exact write_append content offset _ _

theorem read_put (content : ByteContent) (offset : Nat) (chunk : List UInt8) :
    (content.put offset chunk).read offset chunk.length = chunk := by
  refine List.ext_getElem (by simp [read]) fun index hindex hchunk => ?_
  have hsome : chunk ≠ [] := List.ne_nil_of_length_pos (Nat.zero_lt_of_lt hchunk)
  simp only [put, if_neg hsome, read, List.getElem_map, List.getElem_range]
  rw [write_inside _ (Nat.le_add_right _ _) (Nat.add_lt_add_left hchunk _), Nat.add_sub_cancel_left,
    List.getD_eq_getElem?_getD, List.getElem?_eq_getElem hchunk, Option.getD_some]

theorem read_add (content : ByteContent) (offset count more : Nat) :
    content.read offset (count + more) =
      content.read offset count ++ content.read (offset + count) more := by
  simp only [read, List.range_add, List.map_append, List.map_map, Function.comp_def, Nat.add_assoc]

theorem read_put_part (content : ByteContent) (offset : Nat) (before chunk after : List UInt8) :
    (content.put offset (before ++ (chunk ++ after))).read (offset + before.length) chunk.length =
      chunk := by
  have hall := read_put content offset (before ++ (chunk ++ after))
  rw [List.length_append, List.length_append, read_add, read_add] at hall
  have hbehind := (List.append_inj hall (by simp [read])).2
  exact (List.append_inj hbehind (by simp [read])).1

theorem put_size (content : ByteContent) (offset : Nat) (chunk : List UInt8) :
    (content.put offset chunk).size =
      if chunk = [] then content.size else max content.size (offset + chunk.length) := by
  rw [put]
  split <;> rfl

/-- Outside the chunk there is what was there, and nothing behind the old end. -/
theorem put_outside (content : ByteContent) {offset position : Nat} {chunk : List UInt8}
    (h : position < offset ∨ offset + chunk.length ≤ position)
    (hsize : position < (content.put offset chunk).size) :
    (content.put offset chunk).byte position =
      if position < content.size then content.byte position else 0 := by
  cases chunk with
  | nil =>
      rw [put_nil] at hsize ⊢
      exact (if_pos hsize).symm
  | cons first rest => exact write_outside content h

end ByteContent

end Mmltk.Foundation
