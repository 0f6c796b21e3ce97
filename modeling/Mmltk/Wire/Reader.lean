import Mmltk.Text.Utf8
import Mmltk.Wire.CanonicalFloat

namespace Mmltk.Wire

open Mmltk.Foundation
open Mmltk.Text

/-- The reader's fixed part.  The moving part is a `Cursor`, and the path of
enclosing members is passed down. -/
structure Reader where
  input : ByteSegments
  limits : Limits

structure Cursor where
  offset : Nat
  items : Nat
  deriving DecidableEq, Repr

abbrev Path := List DecodePathElement

structure ItemHead where
  initial : Nat
  major : Nat
  additional : Nat

namespace Reader

/-- Path elements joined by dots; no dot follows an empty prefix. -/
def joinPath (path : Path) : Bytes :=
  path.foldl (fun joined element =>
    (if joined.isEmpty then joined else joined ++ [0x2e]) ++ element.name) []

def error (path : Path) (cursor : Cursor) (code : ErrorCode) : Error :=
  ⟨code, cursor.offset, joinPath path⟩

def peekByte (reader : Reader) (path : Path) (cursor : Cursor) : Except Error UInt8 :=
  if reader.input.size ≤ cursor.offset then .error (error path cursor .unexpectedEof)
  else if cursor.offset < reader.input.first.length then
    .ok (reader.input.first.getD cursor.offset 0)
  else .ok (reader.input.second.getD (cursor.offset - reader.input.first.length) 0)

def byte (reader : Reader) (path : Path) (cursor : Cursor) : Except Error (UInt8 × Cursor) :=
  match reader.peekByte path cursor with
  | .error failure => .error failure
  | .ok result => .ok (result, { cursor with offset := cursor.offset + 1 })

/-- At most eight bytes are read, so the accumulator never leaves 64 bits. -/
def bigEndian (reader : Reader) (path : Path) :
    (byteCount : Nat) → (value : Nat) → Cursor → Except Error (Nat × Cursor)
  | 0, value, cursor => .ok (value, cursor)
  | byteCount + 1, value, cursor =>
      match reader.byte path cursor with
      | .error failure => .error failure
      | .ok (next, cursor) =>
          reader.bigEndian path byteCount ((value <<< 8) ||| next.toNat) cursor

/-- Payload bytes after the initial byte; zero for an unassigned encoding. -/
def argumentByteCount (additional : Nat) : Nat :=
  match additional with
  | 24 => 1
  | 25 => 2
  | 26 => 4
  | 27 => 8
  | _ => 0

def argument (reader : Reader) (path : Path) (additional : Nat) (cursor : Cursor) :
    Except Error (Nat × Cursor) :=
  if additional < 24 then .ok (additional, cursor)
  else if additional = 31 then .error (error path cursor .indefiniteContainer)
  else
    let byteCount := argumentByteCount additional
    if byteCount = 0 then .error (error path cursor .invalidAdditionalInfo)
    else
      match reader.bigEndian path byteCount 0 cursor with
      | .error failure => .error failure
      | .ok (value, cursor) =>
          if headSize value ≠ byteCount + 1 then .error (error path cursor .nonMinimal)
          else .ok (value, cursor)

def sizeArgument (reader : Reader) (path : Path) (additional : Nat) (cursor : Cursor) :
    Except Error (Nat × Cursor) :=
  match reader.argument path additional cursor with
  | .error failure => .error failure
  | .ok (encoded, cursor) =>
      if 2 ^ 64 - 1 < encoded then .error (error path cursor .overflow)
      else .ok (encoded, cursor)

def payloadRanges (reader : Reader) (count : Nat) (cursor : Cursor) : ByteSegments :=
  let first := reader.input.first
  let second := reader.input.second
  if first.length ≤ cursor.offset then
    ⟨(second.drop (cursor.offset - first.length)).take count, []⟩
  else
    let firstCount := min count (first.length - cursor.offset)
    ⟨(first.drop cursor.offset).take firstCount, second.take (count - firstCount)⟩

def validatedPayloadRanges (reader : Reader) (path : Path) (count : Nat) (cursor : Cursor) :
    Except Error ByteSegments :=
  if reader.input.size - cursor.offset < count then
    .error (error path cursor .unexpectedEof)
  else if reader.limits.maxBytes - cursor.offset < count then
    .error (error path cursor .limitExceeded)
  else .ok (reader.payloadRanges count cursor)

def bytes (reader : Reader) (path : Path) (count : Nat) (cursor : Cursor) :
    Except Error (Bytes × Cursor) :=
  match reader.validatedPayloadRanges path count cursor with
  | .error failure => .error failure
  | .ok ranges =>
      .ok (ranges.first ++ ranges.second, { cursor with offset := cursor.offset + count })

def text (reader : Reader) (path : Path) (count : Nat) (cursor : Cursor) :
    Except Error (Bytes × Cursor) :=
  match reader.validatedPayloadRanges path count cursor with
  | .error failure => .error failure
  | .ok ranges =>
      let result := ranges.first ++ ranges.second
      let cursor := { cursor with offset := cursor.offset + count }
      if !validUtf8 result then .error (error path cursor .invalidUtf8)
      else .ok (result, cursor)

def allocationAllowed (reader : Reader) (path : Path) (kind : AllocationKind)
    (size : Nat) : Bool :=
  match reader.limits.allocationPolicy with
  | none => true
  | some allows => allows ⟨path, kind, size⟩

def itemHead (reader : Reader) (path : Path) (depth : Nat) (cursor : Cursor) :
    Except Error (ItemHead × Cursor) :=
  if reader.limits.maxBytes < reader.input.size then
    .error (error path cursor .limitExceeded)
  else if reader.limits.maxDepth < depth then .error (error path cursor .depthExceeded)
  else if reader.limits.maxItems ≤ cursor.items then
    .error (error path cursor .limitExceeded)
  else
    match reader.byte path { cursor with items := cursor.items + 1 } with
    | .error failure => .error failure
    | .ok (lead, cursor) =>
        .ok (⟨lead.toNat, lead.toNat >>> 5, lead.toNat &&& 31⟩, cursor)

/-- Big-endian payload of a float, checked and widened by `finish`. -/
def floatItem (reader : Reader) (path : Path) (width : Nat) (cursor : Cursor)
    (finish : Nat → Except ErrorCode Nat) : Except Error (Value × Cursor) :=
  match reader.bigEndian path width 0 cursor with
  | .error failure => .error failure
  | .ok (bits, cursor) =>
      match finish bits with
      | .error code => .error (error path cursor code)
      | .ok value => .ok (.float (UInt64.ofNat value), cursor)

def finishHalf (bits : Nat) : Except ErrorCode Nat :=
  let value := floatToDouble (halfToFloat bits)
  if !FloatFormat.binary64.isFinite value then .error .invalidFloat
  else .ok value

def finishSingle (narrowed : Nat) : Except ErrorCode Nat :=
  if !FloatFormat.binary32.isFinite narrowed then .error .invalidFloat
  else if halfRepresents narrowed then .error .nonMinimal
  else .ok (floatToDouble narrowed)

def finishDouble (value : Nat) : Except ErrorCode Nat :=
  if !FloatFormat.binary64.isFinite value then .error .invalidFloat
  else if singleRepresents value then .error .nonMinimal
  else .ok value

/-- The materialising branch of `read_flat_scalar`. -/
def readFlatScalar (reader : Reader) (path : Path) (head : ItemHead)
    (applyAllocationPolicy : Bool) (cursor : Cursor) : Except Error (Value × Cursor) :=
  if head.major = 7 then
    if head.initial = 0xf4 then .ok (.bool false, cursor)
    else if head.initial = 0xf5 then .ok (.bool true, cursor)
    else if head.initial = 0xf6 then .ok (.null, cursor)
    else if head.initial = 0xf9 then reader.floatItem path 2 cursor finishHalf
    else if head.initial = 0xfa then reader.floatItem path 4 cursor finishSingle
    else if head.initial = 0xfb then reader.floatItem path 8 cursor finishDouble
    else .error (error path cursor .invalidMajorType)
  else if head.major = 4 ∨ head.major = 5 then .error (error path cursor .typeMismatch)
  else if head.major ≠ 0 ∧ head.major ≠ 1 ∧ head.major ≠ 2 ∧ head.major ≠ 3 then
    .error (error path cursor .invalidMajorType)
  else
    match reader.argument path head.additional cursor with
    | .error failure => .error failure
    | .ok (encodedArgument, cursor) =>
        if head.major = 0 then .ok (.unsigned (UInt64.ofNat encodedArgument), cursor)
        else if head.major = 1 then
          if 2 ^ 63 - 1 < encodedArgument then .error (error path cursor .overflow)
          else .ok (Value.ofSigned (Int64.ofInt (-1 - (encodedArgument : Int))), cursor)
        else if 2 ^ 64 - 1 < encodedArgument then .error (error path cursor .overflow)
        else
          let kind := if head.major = 2 then AllocationKind.bytes else AllocationKind.text
          if applyAllocationPolicy && !reader.allocationAllowed path kind encodedArgument then
            .error (error path cursor .limitExceeded)
          else if head.major = 2 then
            match reader.bytes path encodedArgument cursor with
            | .error failure => .error failure
            | .ok (value, cursor) => .ok (.bytes value, cursor)
          else
            match reader.text path encodedArgument cursor with
            | .error failure => .error failure
            | .ok (value, cursor) => .ok (.text value, cursor)

def readScalarItem (reader : Reader) (path : Path) (depth : Nat) (cursor : Cursor) :
    Except Error (Value × Cursor) :=
  match reader.itemHead path depth cursor with
  | .error failure => .error failure
  | .ok (head, cursor) => reader.readFlatScalar path head true cursor

def readObjectKey (reader : Reader) (path : Path) (depth : Nat) (cursor : Cursor) :
    Except Error (Bytes × Cursor) :=
  match reader.readScalarItem path depth cursor with
  | .error failure => .error failure
  | .ok (.text key, cursor) => .ok (key, cursor)
  | .ok (_, cursor) => .error (error path cursor .typeMismatch)

/-- The array loop, over the reader of one element. -/
def readElements (read : Cursor → Except Error (Value × Cursor)) :
    (count : Nat) → Cursor → Except Error (List Value × Cursor)
  | 0, cursor => .ok ([], cursor)
  | count + 1, cursor =>
      match read cursor with
      | .error failure => .error failure
      | .ok (value, cursor) =>
          match readElements read count cursor with
          | .error failure => .error failure
          | .ok (values, cursor) => .ok (value :: values, cursor)

/-- `"kind"` -/
def kindKey : Bytes := [0x6b, 0x69, 0x6e, 0x64]

/-- The value of a text member named `kind` describes the members after it. -/
def nextObjectKind (name : Bytes) (value : Value) (objectKind : Bytes) : Bytes :=
  if name = kindKey then
    match value with
    | .text kind => kind
    | _ => objectKind
  else objectKind

/-- The map loop, over the readers of a key and of the member it names. -/
def readMembers (path : Path) (readKey : Cursor → Except Error (Bytes × Cursor))
    (readValue : DecodePathElement → Cursor → Except Error (Value × Cursor)) :
    (count : Nat) → (names : List Bytes) → (objectKind : Bytes) → Cursor →
      Except Error (List (Bytes × Value) × Cursor)
  | 0, _, _, cursor => .ok ([], cursor)
  | count + 1, names, objectKind, cursor =>
      match readKey cursor with
      | .error failure => .error failure
      | .ok (name, cursor) =>
          if name ∈ names then .error (error path cursor .duplicateKey)
          else
            match readValue ⟨name, objectKind⟩ cursor with
            | .error failure => .error failure
            | .ok (value, cursor) =>
                match readMembers path readKey readValue count (name :: names)
                    (nextObjectKind name value objectKind) cursor with
                | .error failure => .error failure
                | .ok (members, cursor) => .ok ((name, value) :: members, cursor)

/-- `read_item` with materialisation.  `levels` counts the nesting still allowed:
the caller keeps `depth + levels = max_depth + 1`, so at zero the head is refused. -/
def readItem (reader : Reader) :
    (levels : Nat) → (depth : Nat) → Path → Cursor → Except Error (Value × Cursor)
  | 0, depth, path, cursor =>
      match reader.itemHead path depth cursor with
      | .error failure => .error failure
      | .ok (_, cursor) => .error (error path cursor .depthExceeded)
  | levels + 1, depth, path, cursor =>
      match reader.itemHead path depth cursor with
      | .error failure => .error failure
      | .ok (head, cursor) =>
          if head.major ≠ 4 ∧ head.major ≠ 5 then
            reader.readFlatScalar path head true cursor
          else
            match reader.sizeArgument path head.additional cursor with
            | .error failure => .error failure
            | .ok (count, cursor) =>
                if head.major = 4 then
                  if !reader.allocationAllowed path .sequence count then
                    .error (error path cursor .limitExceeded)
                  else if !fitsRemaining count cursor.items reader.limits.maxItems then
                    .error (error path cursor .limitExceeded)
                  else
                    match readElements (reader.readItem levels (depth + 1) path) count
                        cursor with
                    | .error failure => .error failure
                    | .ok (values, cursor) => .ok (.array values, cursor)
                else
                  if !reader.allocationAllowed path .object count then
                    .error (error path cursor .limitExceeded)
                  else if (reader.limits.maxItems - cursor.items) / 2 < count then
                    .error (error path cursor .limitExceeded)
                  else
                    match readMembers path (reader.readObjectKey path (depth + 1))
                        (fun element =>
                          reader.readItem levels (depth + 1) (path ++ [element]))
                        count [] [] cursor with
                    | .error failure => .error failure
                    | .ok (members, cursor) => .ok (.object members, cursor)

def finish (reader : Reader) (cursor : Cursor) : Except Error Unit :=
  if cursor.offset ≠ reader.input.size then .error (error [] cursor .trailingData)
  else .ok ()

/-- `read_document` with `read_value_item` as its root. -/
def read (reader : Reader) : Except Error Value :=
  if reader.limits.maxBytes < reader.input.size then
    .error (error [] ⟨0, 0⟩ .limitExceeded)
  else
    match reader.readItem (reader.limits.maxDepth + 1) 0 [] ⟨0, 0⟩ with
    | .error failure => .error failure
    | .ok (value, cursor) =>
        match reader.finish cursor with
        | .error failure => .error failure
        | .ok _ => .ok value

end Reader

def decode (bytes : ByteSegments) (limits : Limits) : Except Error Value :=
  Reader.read ⟨bytes, limits⟩

end Mmltk.Wire
