import Mmltk.Foundation.BigEndian
import Mmltk.Text.Utf8
import Mmltk.Wire.CanonicalFloat

namespace Mmltk.Wire

open Mmltk.Text

/-- Where a writer puts its bytes: a growing buffer, a caller's span, or, for the
counting encoder, nowhere. -/
inductive Destination where
  | dynamic (bytes : Bytes)
  | fixed (capacity : Nat) (bytes : Bytes)
  | counted (size : Nat)
  deriving Repr

/-- The stored bytes; a counting destination stores none. -/
def Destination.written : Destination → Bytes
  | .dynamic bytes => bytes
  | .fixed _ bytes => bytes
  | .counted _ => []

structure Writer where
  destination : Destination
  limits : Limits
  items : Nat

structure SignedIntegerEncoding where
  major : Nat
  argument : Nat
  deriving DecidableEq, Repr

def signedIntegerEncoding (value : Int64) : SignedIntegerEncoding :=
  if 0 ≤ value.toInt then ⟨0, value.toInt.toNat⟩
  else ⟨1, (-(value.toInt + 1)).toNat⟩

def additionalInfoForHeadSize (size : Nat) : Nat :=
  match size with
  | 1 => 0
  | 2 => 24
  | 3 => 25
  | 5 => 26
  | 9 => 27
  | _ => 31

def encodeError (code : ErrorCode) : Error := ⟨code, 0, []⟩

/-- Insertion into the set of names fails on the second occurrence of a key. -/
def duplicateObjectKey : List (Bytes × Value) → Bool
  | [] => false
  | (name, _) :: rest => rest.any (fun field => field.1 == name) || duplicateObjectKey rest

namespace Writer

def destinationSize (writer : Writer) : Nat :=
  match writer.destination with
  | .dynamic bytes => bytes.length
  | .fixed _ bytes => bytes.length
  | .counted size => size

def append (writer : Writer) (bytes : Bytes) : Except Error Writer :=
  if !fitsRemaining bytes.length writer.destinationSize writer.limits.maxBytes then
    .error (encodeError .limitExceeded)
  else
    match writer.destination with
    | .counted size => .ok { writer with destination := .counted (size + bytes.length) }
    | .dynamic written => .ok { writer with destination := .dynamic (written ++ bytes) }
    | .fixed capacity written =>
        if capacity < written.length ∨ capacity - written.length < bytes.length then
          .error (encodeError .limitExceeded)
        else .ok { writer with destination := .fixed capacity (written ++ bytes) }

def put (writer : Writer) (value : UInt8) : Except Error Writer := writer.append [value]

/-- The low `count` bytes of `value`, most significant first. -/
def putBigEndian (value : Nat) : (count : Nat) → Writer → Except Error Writer
  | 0, writer => .ok writer
  | count + 1, writer =>
      match writer.put (UInt8.ofNat ((value >>> (count * 8)) &&& 0xff)) with
      | .error failure => .error failure
      | .ok writer => putBigEndian value count writer

def head (writer : Writer) (major argument : Nat) : Except Error Writer :=
  let encodedBytes := headSize argument
  let additional :=
    if encodedBytes = 1 then argument else additionalInfoForHeadSize encodedBytes
  match writer.put (UInt8.ofNat ((major <<< 5) ||| additional)) with
  | .error failure => .error failure
  | .ok writer => putBigEndian argument (encodedBytes - 1) writer

def writeTextHead (writer : Writer) (spelling : Bytes) (size : Nat) : Except Error Writer :=
  if !validUtf8 spelling then .error (encodeError .invalidUtf8)
  else writer.head 3 size

def writeTextBody (writer : Writer) (text : Bytes) : Except Error Writer :=
  match writer.writeTextHead text text.length with
  | .error failure => .error failure
  | .ok writer => writer.append text

def beginItem (writer : Writer) (depth : Nat) : Except Error Writer :=
  if writer.limits.maxDepth < depth then .error (encodeError .depthExceeded)
  else if writer.limits.maxItems ≤ writer.items then .error (encodeError .limitExceeded)
  else .ok { writer with items := writer.items + 1 }

def writeArrayBody (writer : Writer) (size : Nat) : Except Error Writer :=
  if !fitsRemaining size writer.items writer.limits.maxItems then
    .error (encodeError .limitExceeded)
  else writer.head 4 size

def validateObjectEncoding (size items : Nat) (limits : Limits) : Except Error Unit :=
  if limits.maxItems < items ∨ (limits.maxItems - items) / 2 < size then
    .error (encodeError .limitExceeded)
  else .ok ()

def writeObjectBody (writer : Writer) (size : Nat) (fields : List (Bytes × Value)) :
    Except Error Writer :=
  if duplicateObjectKey fields then .error (encodeError .duplicateKey)
  else
    match validateObjectEncoding size writer.items writer.limits with
    | .error failure => .error failure
    | .ok _ => writer.head 5 size

def writeFloatBody (writer : Writer) (value : Nat) : Except Error Writer :=
  match canonicalFloatEncoding value with
  | .error code => .error (encodeError code)
  | .ok encoding =>
      let width := encoding.width.bytes
      let lead : UInt8 := if width = 2 then 0xf9 else if width = 4 then 0xfa else 0xfb
      match writer.put lead with
      | .error failure => .error failure
      | .ok writer => putBigEndian encoding.bits width writer

def writeBytesBody (writer : Writer) (value : Bytes) : Except Error Writer :=
  match writer.head 2 value.length with
  | .error failure => .error failure
  | .ok writer => writer.append value

def writeSignedBody (writer : Writer) (value : Int64) : Except Error Writer :=
  let encoding := signedIntegerEncoding value
  writer.head encoding.major encoding.argument

/-- `write_scalar` of an object key. -/
def writeKey (writer : Writer) (key : Bytes) (depth : Nat) : Except Error Writer :=
  match writer.beginItem depth with
  | .error failure => .error failure
  | .ok writer => writer.writeTextBody key

mutual

def writeItem : Value → (depth : Nat) → Writer → Except Error Writer
  | value, depth, writer =>
      match writer.beginItem depth with
      | .error failure => .error failure
      | .ok writer =>
          match value with
          | .null => writer.put 0xf6
          | .bool value => writer.put (if value then 0xf5 else 0xf4)
          | .signed value => writer.writeSignedBody value
          | .unsigned value => writer.head 0 value.toNat
          | .float bits => writer.writeFloatBody bits.toNat
          | .text value => writer.writeTextBody value
          | .bytes value => writer.writeBytesBody value
          | .array items =>
              match writer.writeArrayBody items.length with
              | .error failure => .error failure
              | .ok writer => writeItems items (depth + 1) writer
          | .object fields =>
              match writer.writeObjectBody fields.length fields with
              | .error failure => .error failure
              | .ok writer => writeFields fields (depth + 1) writer

def writeItems : List Value → (depth : Nat) → Writer → Except Error Writer
  | [], _, writer => .ok writer
  | item :: rest, depth, writer =>
      match writeItem item depth writer with
      | .error failure => .error failure
      | .ok writer => writeItems rest depth writer

def writeFields : List (Bytes × Value) → (depth : Nat) → Writer → Except Error Writer
  | [], _, writer => .ok writer
  | (key, value) :: rest, depth, writer =>
      match writer.writeKey key depth with
      | .error failure => .error failure
      | .ok writer =>
          match writeItem value depth writer with
          | .error failure => .error failure
          | .ok writer => writeFields rest depth writer

end

/-- A failed write leaves the caller's writer as it was: the bytes and items of the
partial document are dropped with it. -/
def write (writer : Writer) (value : Value) : Except Error Writer :=
  writeItem value 0 writer

end Writer

/-- `CountingEncoder::measure` -/
def measure (value : Value) (limits : Limits) : Except Error Nat :=
  match Writer.write ⟨.counted 0, limits, 0⟩ value with
  | .error failure => .error failure
  | .ok writer => .ok writer.destinationSize

/-- `encode` into a cleared `ByteBuffer`. -/
def encode (value : Value) (limits : Limits) : Except Error Bytes :=
  match measure value limits with
  | .error failure => .error failure
  | .ok _ =>
      match Writer.write ⟨.dynamic [], limits, 0⟩ value with
      | .error failure => .error failure
      | .ok writer => .ok writer.destination.written

/-- `encode` into a span of `capacity` bytes; the result is the written prefix. -/
def encodeInto (value : Value) (capacity : Nat) (limits : Limits) : Except Error Bytes :=
  match measure value limits with
  | .error failure => .error failure
  | .ok measured =>
      if capacity < measured then .error (encodeError .limitExceeded)
      else
        match Writer.write ⟨.fixed capacity [], limits, 0⟩ value with
        | .error failure => .error failure
        | .ok writer => .ok writer.destination.written

end Mmltk.Wire
