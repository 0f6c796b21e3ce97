import Mathlib.Data.Nat.Bitwise
import Mathlib.Tactic.Ring

namespace Mmltk.Foundation

/-! Big-endian numerals over bytes. -/

/-- The low `count` bytes of `value`, most significant first. -/
def bigEndianBytes : (count value : Nat) → List UInt8
  | 0, _ => []
  | count + 1, value =>
      UInt8.ofNat ((value >>> (count * 8)) &&& 0xff) :: bigEndianBytes count value

/-- Accumulate bytes most significant first. -/
def bigEndianValue (value : Nat) (bytes : List UInt8) : Nat :=
  bytes.foldl (fun accumulated byte => (accumulated <<< 8) ||| byte.toNat) value

@[simp] theorem length_bigEndianBytes (count value : Nat) :
    (bigEndianBytes count value).length = count := by
  induction count with
  | zero => rfl
  | succ count ih => simp [bigEndianBytes, ih]

theorem shiftLeft_or_byte (accumulated : Nat) (byte : UInt8) :
    (accumulated <<< 8) ||| byte.toNat = accumulated * 256 + byte.toNat := by
  have hbyte : byte.toNat < 2 ^ 8 := byte.toNat_lt
  rw [← Nat.shiftLeft_add_eq_or_of_lt hbyte, Nat.shiftLeft_eq]

theorem bigEndianValue_cons (value : Nat) (byte : UInt8) (bytes : List UInt8) :
    bigEndianValue value (byte :: bytes) =
      bigEndianValue (value * 256 + byte.toNat) bytes := by
  rw [bigEndianValue, List.foldl_cons, shiftLeft_or_byte]
  rfl

theorem bigEndianValue_eq (value : Nat) (bytes : List UInt8) :
    bigEndianValue value bytes = value * 256 ^ bytes.length + bigEndianValue 0 bytes := by
  induction bytes generalizing value with
  | nil => simp [bigEndianValue]
  | cons byte bytes ih =>
      rw [bigEndianValue_cons, ih, bigEndianValue_cons 0, ih (0 * 256 + byte.toNat),
        List.length_cons, Nat.pow_succ]
      ring

theorem bigEndianValue_lt (bytes : List UInt8) :
    bigEndianValue 0 bytes < 256 ^ bytes.length := by
  induction bytes with
  | nil => exact Nat.one_pos
  | cons byte bytes ih =>
      have hbyte : byte.toNat < 256 := byte.toNat_lt
      rw [bigEndianValue_cons, bigEndianValue_eq, List.length_cons, Nat.pow_succ]
      calc
        (0 * 256 + byte.toNat) * 256 ^ bytes.length + bigEndianValue 0 bytes
            < (byte.toNat + 1) * 256 ^ bytes.length := by
          rw [Nat.zero_mul, Nat.zero_add, Nat.succ_mul]
          exact Nat.add_lt_add_left ih _
        _ ≤ 256 * 256 ^ bytes.length := Nat.mul_le_mul_right _ hbyte
        _ = 256 ^ bytes.length * 256 := Nat.mul_comm _ _

theorem leadingByte (count value : Nat) :
    (UInt8.ofNat ((value >>> (count * 8)) &&& 0xff)).toNat = value / 256 ^ count % 256 := by
  have hmask : (value >>> (count * 8)) &&& 0xff = value >>> (count * 8) % 256 :=
    Nat.and_two_pow_sub_one_eq_mod _ 8
  have hpower : 2 ^ (count * 8) = 256 ^ count := by
    rw [Nat.mul_comm, Nat.pow_mul]
  rw [hmask, Nat.shiftRight_eq_div_pow, hpower]
  exact UInt8.toNat_ofNat_of_lt' (Nat.mod_lt _ (by decide))

theorem bigEndianValue_bigEndianBytes (count value : Nat) :
    bigEndianValue 0 (bigEndianBytes count value) = value % 256 ^ count := by
  induction count with
  | zero => simp [bigEndianBytes, bigEndianValue, Nat.mod_one]
  | succ count ih =>
      rw [bigEndianBytes, bigEndianValue_cons, bigEndianValue_eq, length_bigEndianBytes, ih,
        leadingByte, Nat.zero_mul, Nat.zero_add, Nat.pow_succ, Nat.mod_mul]
      ring

theorem bigEndianBytes_congr {count : Nat} {left right : Nat}
    (h : left % 256 ^ count = right % 256 ^ count) :
    bigEndianBytes count left = bigEndianBytes count right := by
  induction count with
  | zero => rfl
  | succ count ih =>
      rw [Nat.pow_succ, Nat.mod_mul, Nat.mod_mul] at h
      have hlow : left % 256 ^ count = right % 256 ^ count := by
        have hmod := congrArg (· % 256 ^ count) h
        simpa only [Nat.add_mul_mod_self_left, Nat.mod_mod] using hmod
      have hlead : left / 256 ^ count % 256 = right / 256 ^ count % 256 := by
        rw [hlow] at h
        exact Nat.eq_of_mul_eq_mul_left (Nat.pow_pos (by decide)) (Nat.add_left_cancel h)
      rw [bigEndianBytes, bigEndianBytes, ih hlow]
      congr 1
      apply UInt8.toNat_inj.mp
      rw [leadingByte, leadingByte, hlead]

theorem bigEndianBytes_bigEndianValue (bytes : List UInt8) :
    bigEndianBytes bytes.length (bigEndianValue 0 bytes) = bytes := by
  induction bytes with
  | nil => rfl
  | cons byte bytes ih =>
      have hpos : 0 < 256 ^ bytes.length := Nat.pow_pos (by decide)
      have hbyte : byte.toNat < 256 := byte.toNat_lt
      have hrest := bigEndianValue_lt bytes
      have hvalue : bigEndianValue 0 (byte :: bytes) =
          byte.toNat * 256 ^ bytes.length + bigEndianValue 0 bytes := by
        rw [bigEndianValue_cons, bigEndianValue_eq, Nat.zero_mul, Nat.zero_add]
      have hlead : bigEndianValue 0 (byte :: bytes) / 256 ^ bytes.length = byte.toNat := by
        rw [hvalue, Nat.add_comm, Nat.add_mul_div_right _ _ hpos, Nat.div_eq_of_lt hrest,
          Nat.zero_add]
      have htail : bigEndianBytes bytes.length (bigEndianValue 0 (byte :: bytes)) = bytes := by
        refine (bigEndianBytes_congr ?_).trans ih
        rw [hvalue, Nat.mul_add_mod']
      rw [List.length_cons, bigEndianBytes, htail]
      congr 1
      apply UInt8.toNat_inj.mp
      rw [leadingByte, hlead, Nat.mod_eq_of_lt hbyte]

end Mmltk.Foundation
