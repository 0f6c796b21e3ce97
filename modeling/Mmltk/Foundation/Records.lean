import Mathlib.Data.List.Basic
import Mmltk.Foundation.BigEndian

namespace Mmltk.Foundation

/-! Records of a fixed size, and lists of them one behind the other. -/

/-- Every value takes `size` bytes, and they determine it. -/
structure Packing (α : Type) where
  size : Nat
  encode : α → List UInt8
  decode : List UInt8 → α
  length_encode : ∀ value, (encode value).length = size
  decode_encode : ∀ value, decode (encode value) = value

namespace Packing

variable {α β : Type}

/-- A word of `count` bytes, the least significant one first. -/
def word (count : Nat) (toNat : α → Nat) (ofNat : Nat → α)
    (hlt : ∀ value, toNat value < 256 ^ count) (hback : ∀ value, ofNat (toNat value) = value) :
    Packing α where
  size := count
  encode value := (bigEndianBytes count (toNat value)).reverse
  decode bytes := ofNat (bigEndianValue 0 bytes.reverse)
  length_encode value := by rw [List.length_reverse, length_bigEndianBytes]
  decode_encode value := by
    rw [List.reverse_reverse, bigEndianValue_bigEndianBytes, Nat.mod_eq_of_lt (hlt value), hback]

def uint8 : Packing UInt8 :=
  word 1 UInt8.toNat UInt8.ofNat UInt8.toNat_lt fun _ => UInt8.ofNat_toNat

def uint16 : Packing UInt16 :=
  word 2 UInt16.toNat UInt16.ofNat UInt16.toNat_lt fun _ => UInt16.ofNat_toNat

def uint32 : Packing UInt32 :=
  word 4 UInt32.toNat UInt32.ofNat UInt32.toNat_lt fun _ => UInt32.ofNat_toNat

def uint64 : Packing UInt64 :=
  word 8 UInt64.toNat UInt64.ofNat UInt64.toNat_lt fun _ => UInt64.ofNat_toNat

/-- The one behind the other. -/
def pair (first : Packing α) (second : Packing β) : Packing (α × β) where
  size := first.size + second.size
  encode value := first.encode value.1 ++ second.encode value.2
  decode bytes := (first.decode (bytes.take first.size), second.decode (bytes.drop first.size))
  length_encode value := by
    rw [List.length_append, first.length_encode, second.length_encode]
  decode_encode value := by
    rw [List.take_left' (first.length_encode _), List.drop_left' (first.length_encode _),
      first.decode_encode, second.decode_encode]

/-- A record by its fields. -/
def fields (packing : Packing β) (take : α → β) (make : β → α)
    (h : ∀ value, make (take value) = value) : Packing α where
  size := packing.size
  encode value := packing.encode (take value)
  decode bytes := make (packing.decode bytes)
  length_encode value := packing.length_encode _
  decode_encode value := by rw [packing.decode_encode, h]

variable (packing : Packing α)

def encodeAll (items : List α) : List UInt8 := items.flatMap packing.encode

/-- The first `count` records of the bytes. -/
def decodeAll : (count : Nat) → List UInt8 → List α
  | 0, _ => []
  | count + 1, bytes =>
      packing.decode (bytes.take packing.size) :: decodeAll count (bytes.drop packing.size)

@[simp] theorem encodeAll_nil : packing.encodeAll [] = [] := rfl

@[simp] theorem encodeAll_append (items more : List α) :
    packing.encodeAll (items ++ more) = packing.encodeAll items ++ packing.encodeAll more :=
  List.flatMap_append

@[simp] theorem length_encodeAll (items : List α) :
    (packing.encodeAll items).length = items.length * packing.size := by
  induction items with
  | nil => rw [encodeAll_nil, List.length_nil, List.length_nil, Nat.zero_mul]
  | cons item items ih =>
      rw [encodeAll, List.flatMap_cons, List.length_append, packing.length_encode,
        List.length_cons, Nat.succ_mul, Nat.add_comm, ← ih]
      rfl

theorem decode_take (value : α) (rest : List UInt8) :
    packing.decode ((packing.encode value ++ rest).take packing.size) = value := by
  rw [List.take_left' (packing.length_encode value), packing.decode_encode]

/-- What lies behind the records does not matter. -/
theorem decodeAll_encodeAll (items : List α) (rest : List UInt8) :
    packing.decodeAll items.length (packing.encodeAll items ++ rest) = items := by
  induction items with
  | nil => rfl
  | cons item items ih =>
      have hbytes : packing.encodeAll (item :: items) ++ rest =
          packing.encode item ++ (packing.encodeAll items ++ rest) := by
        rw [encodeAll, List.flatMap_cons, List.append_assoc]
        rfl
      rw [List.length_cons, decodeAll, hbytes, decode_take,
        List.drop_left' (packing.length_encode item), ih]

end Packing

end Mmltk.Foundation
