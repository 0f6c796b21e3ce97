import Mmltk.Foundation.BigEndian
import Mmltk.Foundation.FloatFormat

namespace Mmltk.Frontend

open Mmltk.Foundation

/-! The frontend's generic CBOR codec.  Floats are their bit patterns. -/

abbrev Bytes := List UInt8

structure ProtocolError where
  message : String
  deriving DecidableEq, Repr

inductive Value where
  | null
  | bool (value : Bool)
  | signed (value : Int64)
  | unsigned (value : UInt64)
  | float (bits : UInt64)
  | text (value : String)
  | bytes (value : Bytes)
  | array (values : List Value)
  | object (fields : List (String × Value))

def maxRecordWireBytes : Nat := 32 * 1024 * 1024

def maxIntentValueDepth : Nat := 64

/-- `usize::MAX` on wasm32, the frontend's target. -/
def usizeMax : Nat := 2 ^ 32 - 1

/-- `String::as_bytes` -/
def asBytes (text : String) : Bytes := text.toByteArray.data.toList

/-- `std::str::from_utf8` -/
def fromUtf8 (bytes : Bytes) : Option String := String.fromUTF8? bytes.toByteArray

/-- `f64::from` of an `f32` -/
def f64From (bits : Nat) : Nat := FloatFormat.binary32.convert .binary64 bits

/-- `as f32` of an `f64` -/
def asF32 (bits : Nat) : Nat := FloatFormat.binary64.convert .binary32 bits

/-- `while fraction & 0x400 == 0 { fraction <<= 1; exponent -= 1; }`, unrolled `fuel`
times; ten rounds suffice for a nonzero ten-bit fraction. -/
def normalizeSubnormal : (fuel fraction : Nat) → (exponent : Int) → Nat × Int
  | 0, fraction, exponent => (fraction, exponent)
  | fuel + 1, fraction, exponent =>
      if fraction &&& 0x400 = 0 then normalizeSubnormal fuel (fraction <<< 1) (exponent - 1)
      else (fraction, exponent)

def halfToF32 (bits : Nat) : Nat :=
  let sign := (bits &&& 0x8000) <<< 16
  let exponent := (bits >>> 10) &&& 0x1f
  let fraction := bits &&& 0x03ff
  if exponent = 0 ∧ fraction = 0 then sign
  else if exponent = 0 then
    let (fraction, exponent) := normalizeSubnormal 10 fraction (-14)
    sign ||| ((exponent + 127).toNat <<< 23) ||| ((fraction &&& 0x3ff) <<< 13)
  else if exponent = 31 then sign ||| 0x7f800000 ||| (fraction <<< 13)
  else sign ||| ((exponent + 112) <<< 23) ||| (fraction <<< 13)

def f32ToHalf (bits : Nat) : Nat :=
  let sign := (bits >>> 16) &&& 0x8000
  let exponent : Int := (((bits >>> 23) &&& 0xff : Nat) : Int) - 127 + 15
  let fraction := bits &&& 0x7fffff
  if exponent ≤ 0 then
    if exponent < -10 then sign
    else
      let mantissa := (fraction ||| 0x800000) >>> (14 - exponent).toNat
      sign ||| ((mantissa + 1) >>> 1)
  else if 31 ≤ exponent then sign ||| 0x7c00
  else sign ||| (exponent.toNat <<< 10) ||| ((fraction + 0x1000) >>> 13)

/-- `half_to_f32(f32_to_half(value)) == value` -/
def halfExact (bits : Nat) : Bool :=
  FloatFormat.binary32.equal (halfToF32 (f32ToHalf bits)) bits

/-- `f64::from(value as f32) == value` -/
def singleExact (bits : Nat) : Bool :=
  FloatFormat.binary64.equal (f64From (asF32 bits)) bits

/-! Decoding -/

def take (bytes : Bytes) (cursor length : Nat) : Except ProtocolError (Bytes × Nat) :=
  if usizeMax < length then .error ⟨"CBOR length overflow"⟩
  else if usizeMax < cursor + length then .error ⟨"CBOR length overflow"⟩
  else if bytes.length < cursor + length then .error ⟨"truncated CBOR"⟩
  else .ok ((bytes.drop cursor).take length, cursor + length)

def lengthWidth (additional : Nat) : Option Nat :=
  match additional with
  | 24 => some 1
  | 25 => some 2
  | 26 => some 4
  | 27 => some 8
  | _ => none

def length (additional : Nat) (bytes : Bytes) (cursor : Nat) :
    Except ProtocolError (Nat × Nat) :=
  if additional ≤ 23 then .ok (additional, cursor)
  else
    match lengthWidth additional with
    | none => .error ⟨"indefinite CBOR is forbidden"⟩
    | some width =>
        match take bytes cursor width with
        | .error failure => .error failure
        | .ok (raw, cursor) =>
            let value := bigEndianValue 0 raw
            if (width = 1 ∧ value < 24) ∨ (width = 2 ∧ value ≤ 0xff) ∨
                (width = 4 ∧ value ≤ 0xffff) ∨ (width = 8 ∧ value ≤ 0xffffffff) then
              .error ⟨"nonminimal CBOR integer"⟩
            else .ok (value, cursor)

def float (bits : Nat) : Except ProtocolError Value :=
  if FloatFormat.binary64.isFinite bits then .ok (.float (UInt64.ofNat bits))
  else .error ⟨"non-finite float"⟩

/-- The arms of `match first & 31` that read `width` bytes of a float. -/
def floatItem (bytes : Bytes) (cursor width : Nat)
    (finish : Nat → Except ProtocolError Value) : Except ProtocolError (Value × Nat) :=
  match take bytes cursor width with
  | .error failure => .error failure
  | .ok (raw, cursor) =>
      match finish (bigEndianValue 0 raw) with
      | .error failure => .error failure
      | .ok value => .ok (value, cursor)

def finishHalf (bits : Nat) : Except ProtocolError Value := float (f64From (halfToF32 bits))

def finishSingle (bits : Nat) : Except ProtocolError Value :=
  if halfExact bits then .error ⟨"nonminimal CBOR float"⟩
  else float (f64From bits)

def finishDouble (bits : Nat) : Except ProtocolError Value :=
  if singleExact bits then .error ⟨"nonminimal CBOR float"⟩
  else float bits

def decodeSimple (bytes : Bytes) (additional cursor : Nat) :
    Except ProtocolError (Value × Nat) :=
  match additional with
  | 20 => .ok (.bool false, cursor)
  | 21 => .ok (.bool true, cursor)
  | 22 => .ok (.null, cursor)
  | 25 => floatItem bytes cursor 2 finishHalf
  | 26 => floatItem bytes cursor 4 finishSingle
  | 27 => floatItem bytes cursor 8 finishDouble
  | _ => .error ⟨"unsupported CBOR simple value"⟩

/-- `for _ in 0..count` over array elements. -/
def decodeElements (decode : Nat → Except ProtocolError (Value × Nat)) :
    (count : Nat) → (cursor : Nat) → Except ProtocolError (List Value × Nat)
  | 0, cursor => .ok ([], cursor)
  | count + 1, cursor =>
      match decode cursor with
      | .error failure => .error failure
      | .ok (value, cursor) =>
          match decodeElements decode count cursor with
          | .error failure => .error failure
          | .ok (values, cursor) => .ok (value :: values, cursor)

/-- `for _ in 0..count` over map entries; `known` are the keys pushed so far. -/
def decodeFields (decode : Nat → Except ProtocolError (Value × Nat)) :
    (count : Nat) → (known : List String) → (cursor : Nat) →
      Except ProtocolError (List (String × Value) × Nat)
  | 0, _, cursor => .ok ([], cursor)
  | count + 1, known, cursor =>
      match decode cursor with
      | .error failure => .error failure
      | .ok (.text key, cursor) =>
          if known.any (fun other => other == key) then
            .error ⟨"duplicate CBOR map key"⟩
          else
            match decode cursor with
            | .error failure => .error failure
            | .ok (value, cursor) =>
                match decodeFields decode count (known ++ [key]) cursor with
                | .error failure => .error failure
                | .ok (fields, cursor) => .ok ((key, value) :: fields, cursor)
      | .ok (_, _) => .error ⟨"CBOR map key is not text"⟩

/-- `decode_value`.  `levels` counts the nesting still allowed: the caller keeps
`depth + levels = max_depth + 1`, so at zero the depth check has already failed. -/
def decodeValue (bytes : Bytes) (maxDepth : Nat) :
    (levels depth cursor : Nat) → Except ProtocolError (Value × Nat)
  | 0, _, _ => .error ⟨"CBOR nesting limit"⟩
  | levels + 1, depth, cursor =>
      if maxDepth < depth then .error ⟨"CBOR nesting limit"⟩
      else
        match bytes[cursor]? with
        | none => .error ⟨"truncated CBOR"⟩
        | some first =>
            let cursor := cursor + 1
            let major := first.toNat >>> 5
            if major = 7 then decodeSimple bytes (first.toNat &&& 31) cursor
            else
              match length (first.toNat &&& 31) bytes cursor with
              | .error failure => .error failure
              | .ok (value, cursor) =>
                  match major with
                  | 0 => .ok (.unsigned (UInt64.ofNat value), cursor)
                  | 1 =>
                      if value ≤ 2 ^ 63 - 1 then
                        .ok (.signed (Int64.ofInt (-1 - (value : Int))), cursor)
                      else .error ⟨"negative integer overflow"⟩
                  | 2 =>
                      match take bytes cursor value with
                      | .error failure => .error failure
                      | .ok (raw, cursor) => .ok (.bytes raw, cursor)
                  | 3 =>
                      match take bytes cursor value with
                      | .error failure => .error failure
                      | .ok (raw, cursor) =>
                          match fromUtf8 raw with
                          | none => .error ⟨"invalid UTF-8 text"⟩
                          | some text => .ok (.text text, cursor)
                  | 4 =>
                      if usizeMax < value then .error ⟨"CBOR item count overflow"⟩
                      else if bytes.length - cursor < value then
                        .error ⟨"truncated CBOR array"⟩
                      else
                        match decodeElements (decodeValue bytes maxDepth levels (depth + 1))
                            value cursor with
                        | .error failure => .error failure
                        | .ok (values, cursor) => .ok (.array values, cursor)
                  | 5 =>
                      if usizeMax < value then .error ⟨"CBOR item count overflow"⟩
                      else if (bytes.length - cursor) / 2 < value then
                        .error ⟨"truncated CBOR map"⟩
                      else
                        match decodeFields (decodeValue bytes maxDepth levels (depth + 1))
                            value [] cursor with
                        | .error failure => .error failure
                        | .ok (fields, cursor) => .ok (.object fields, cursor)
                  | _ => .error ⟨"unsupported CBOR major type"⟩

/-- `decode_value` from the start, and then the check that nothing is left. -/
def decodeMessage (bytes : Bytes) : Except ProtocolError Value :=
  match decodeValue bytes maxIntentValueDepth (maxIntentValueDepth + 1) 0 0 with
  | .error failure => .error failure
  | .ok (value, cursor) =>
      if cursor ≠ bytes.length then .error ⟨"trailing CBOR bytes"⟩
      else .ok value

/-! Encoding -/

def head (major value : Nat) : Bytes :=
  if value ≤ 23 then [UInt8.ofNat ((major <<< 5) ||| value)]
  else if value ≤ 0xff then
    [UInt8.ofNat ((major <<< 5) ||| 24), UInt8.ofNat value]
  else if value ≤ 0xffff then
    UInt8.ofNat ((major <<< 5) ||| 25) :: bigEndianBytes 2 value
  else if value ≤ 0xffffffff then
    UInt8.ofNat ((major <<< 5) ||| 26) :: bigEndianBytes 4 value
  else UInt8.ofNat ((major <<< 5) ||| 27) :: bigEndianBytes 8 value

def writeFloat (value : Nat) : Except ProtocolError Bytes :=
  if !FloatFormat.binary64.isFinite value then .error ⟨"non-finite float"⟩
  else
    let narrowed := asF32 value
    if FloatFormat.binary64.equal (f64From narrowed) value then
      let half := f32ToHalf narrowed
      if FloatFormat.binary32.equal (halfToF32 half) narrowed then
        .ok (0xf9 :: bigEndianBytes 2 half)
      else .ok (0xfa :: bigEndianBytes 4 narrowed)
    else .ok (0xfb :: bigEndianBytes 8 value)

def encodeText (text : String) : Bytes := head 3 (asBytes text).length ++ asBytes text

mutual

/-- `encode_value`, as the bytes it appends. -/
def encodeValue : Value → Except ProtocolError Bytes
  | .null => .ok [0xf6]
  | .bool false => .ok [0xf4]
  | .bool true => .ok [0xf5]
  | .signed value =>
      if 0 ≤ value.toInt then .ok (head 0 value.toUInt64.toNat)
      else .ok (head 1 (value.toInt.natAbs - 1))
  | .unsigned value => .ok (head 0 value.toNat)
  | .float bits => writeFloat bits.toNat
  | .text text => .ok (encodeText text)
  | .bytes value => .ok (head 2 value.length ++ value)
  | .array values =>
      match encodeValueArray values with
      | .error failure => .error failure
      | .ok written => .ok (head 4 values.length ++ written)
  | .object fields =>
      match encodeValueObject fields with
      | .error failure => .error failure
      | .ok written => .ok (head 5 fields.length ++ written)

def encodeValueArray : List Value → Except ProtocolError Bytes
  | [] => .ok []
  | value :: rest =>
      match encodeValue value with
      | .error failure => .error failure
      | .ok first =>
          match encodeValueArray rest with
          | .error failure => .error failure
          | .ok later => .ok (first ++ later)

def encodeValueObject : List (String × Value) → Except ProtocolError Bytes
  | [] => .ok []
  | (key, value) :: rest =>
      match encodeValue value with
      | .error failure => .error failure
      | .ok first =>
          match encodeValueObject rest with
          | .error failure => .error failure
          | .ok later => .ok (encodeText key ++ (first ++ later))

end

end Mmltk.Frontend
