import Mathlib.Algebra.Group.Nat.Defs
import Mathlib.Data.List.Nodup

namespace Mmltk.Wire

/-- `std::byte` sequences; text is held as its bytes, valid UTF-8 or not. -/
abbrev Bytes := List UInt8

structure ByteSegments where
  first : Bytes
  second : Bytes

namespace ByteSegments

def size (segments : ByteSegments) : Nat :=
  segments.first.length + segments.second.length

/-- The one byte string the two segments spell. -/
def bytes (segments : ByteSegments) : Bytes :=
  segments.first ++ segments.second

@[simp] theorem length_bytes (segments : ByteSegments) :
    segments.bytes.length = segments.size := by
  simp [bytes, size]

end ByteSegments

inductive ErrorCode where
  | unexpectedEof
  | nonMinimal
  | invalidMajorType
  | invalidAdditionalInfo
  | invalidUtf8
  | invalidFloat
  | overflow
  | limitExceeded
  | depthExceeded
  | indefiniteContainer
  | trailingData
  | malformedItem
  | duplicateKey
  | unknownKey
  | typeMismatch
  deriving DecidableEq, Repr

structure Error where
  code : ErrorCode
  offset : Nat
  path : Bytes
  deriving DecidableEq, Repr

/-- The wire vocabulary.  Floats are their bit patterns. -/
inductive Value where
  | null
  | bool (value : Bool)
  | signed (value : Int64)
  | unsigned (value : UInt64)
  | float (bits : UInt64)
  | text (value : Bytes)
  | bytes (value : Bytes)
  | array (items : List Value)
  | object (fields : List (Bytes × Value))

namespace Value

/-- `Value(const std::int64_t)` stores a nonnegative integer as unsigned. -/
def ofSigned (value : Int64) : Value :=
  if value.toInt < 0 then .signed value else .unsigned value.toUInt64

mutual

/-- Nonnegative signed integers rewritten as unsigned, at every level. -/
def normalize : Value → Value
  | .signed value => ofSigned value
  | .array items => .array (normalizeItems items)
  | .object fields => .object (normalizeFields fields)
  | .null => .null
  | .bool value => .bool value
  | .unsigned value => .unsigned value
  | .float bits => .float bits
  | .text value => .text value
  | .bytes value => .bytes value

def normalizeItems : List Value → List Value
  | [] => []
  | item :: rest => item.normalize :: normalizeItems rest

def normalizeFields : List (Bytes × Value) → List (Bytes × Value)
  | [] => []
  | (key, value) :: rest => (key, value.normalize) :: normalizeFields rest

end

end Value

inductive AllocationKind where
  | text
  | bytes
  | sequence
  | object
  deriving DecidableEq, Repr

structure DecodePathElement where
  name : Bytes
  objectKind : Bytes
  deriving DecidableEq, Repr

structure AllocationRequest where
  path : List DecodePathElement
  kind : AllocationKind
  size : Nat

/-- `std::size_t` budgets.  A missing policy admits every allocation. -/
structure Limits where
  maxBytes : Nat
  maxItems : Nat
  maxDepth : Nat
  allocationPolicy : Option (AllocationRequest → Bool)
  maxBytes_lt : maxBytes < 2 ^ 64
  maxItems_lt : maxItems < 2 ^ 64
  maxDepth_lt : maxDepth < 2 ^ 64

def smallLimits : Limits := ⟨16, 8, 2, none, by decide, by decide, by decide⟩

/-- Room for four items, with the allocations that a caller may refuse. -/
def fourItems (allocationPolicy : Option (AllocationRequest → Bool)) : Limits where
  maxBytes := 16
  maxItems := 4
  maxDepth := 2
  allocationPolicy
  maxBytes_lt := by decide
  maxItems_lt := by decide
  maxDepth_lt := by decide

/-- `fits_remaining`, exact on `std::size_t`: the difference never underflows. -/
def fitsRemaining (value used limit : Nat) : Bool :=
  used ≤ limit && value ≤ limit - used

/-- Length of the shortest head that carries an argument. -/
def headSize (value : Nat) : Nat :=
  if value < 24 then 1
  else if value ≤ 0xff then 2
  else if value ≤ 0xffff then 3
  else if value ≤ 0xffffffff then 5
  else 9

end Mmltk.Wire
