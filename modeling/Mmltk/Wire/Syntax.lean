import Mmltk.Foundation.BigEndian
import Mmltk.Text.Utf8
import Mmltk.Wire.CanonicalFloat

namespace Mmltk.Wire

open Mmltk.Foundation

/-! Concrete syntax of the wire dialect.  Heads are minimal by construction; a
float leaf records the width it is spelled with. -/

inductive Item where
  | null
  | bool (value : Bool)
  | unsigned (argument : Nat)
  | negative (argument : Nat)
  | float (encoding : CanonicalFloatEncoding)
  | bytes (payload : Bytes)
  | text (payload : Bytes)
  | array (items : List Item)
  | object (members : List (Bytes × Item))

/-- Additional information and trailing argument bytes of the minimal head. -/
def headAdditional (argument : Nat) : Nat :=
  if argument < 24 then argument
  else if argument ≤ 0xff then 24
  else if argument ≤ 0xffff then 25
  else if argument ≤ 0xffffffff then 26
  else 27

def headTail (argument : Nat) : Bytes := bigEndianBytes (headSize argument - 1) argument

def initialByte (major additional : Nat) : UInt8 :=
  UInt8.ofNat ((major <<< 5) ||| additional)

def headBytes (major argument : Nat) : Bytes :=
  initialByte major (headAdditional argument) :: headTail argument

def floatLead (width : CanonicalFloatWidth) : UInt8 :=
  match width with
  | .half => 0xf9
  | .single => 0xfa
  | .double => 0xfb

def floatBytes (encoding : CanonicalFloatEncoding) : Bytes :=
  floatLead encoding.width :: bigEndianBytes encoding.width.bytes encoding.bits

def textBytes (payload : Bytes) : Bytes := headBytes 3 payload.length ++ payload

namespace Item

def isScalar : Item → Bool
  | .array _ => false
  | .object _ => false
  | _ => true

mutual

def encoding : Item → Bytes
  | .null => [0xf6]
  | .bool value => [if value then 0xf5 else 0xf4]
  | .unsigned argument => headBytes 0 argument
  | .negative argument => headBytes 1 argument
  | .float encoding => floatBytes encoding
  | .bytes payload => headBytes 2 payload.length ++ payload
  | .text payload => textBytes payload
  | .array items => headBytes 4 items.length ++ encodingItems items
  | .object members => headBytes 5 members.length ++ encodingMembers members

def encodingItems : List Item → Bytes
  | [] => []
  | item :: rest => item.encoding ++ encodingItems rest

def encodingMembers : List (Bytes × Item) → Bytes
  | [] => []
  | (key, item) :: rest => textBytes key ++ (item.encoding ++ encodingMembers rest)

end

mutual

/-- Budget units: an item, and each member's key, counts one. -/
def count : Item → Nat
  | .array items => 1 + countItems items
  | .object members => 1 + countMembers members
  | .null => 1
  | .bool _ => 1
  | .unsigned _ => 1
  | .negative _ => 1
  | .float _ => 1
  | .bytes _ => 1
  | .text _ => 1

def countItems : List Item → Nat
  | [] => 0
  | item :: rest => item.count + countItems rest

def countMembers : List (Bytes × Item) → Nat
  | [] => 0
  | (_, item) :: rest => 1 + (item.count + countMembers rest)

end

mutual

/-- Depth of the deepest item below this one; keys lie one level down. -/
def height : Item → Nat
  | .array items => heightItems items
  | .object members => heightMembers members
  | .null => 0
  | .bool _ => 0
  | .unsigned _ => 0
  | .negative _ => 0
  | .float _ => 0
  | .bytes _ => 0
  | .text _ => 0

def heightItems : List Item → Nat
  | [] => 0
  | item :: rest => max (item.height + 1) (heightItems rest)

def heightMembers : List (Bytes × Item) → Nat
  | [] => 0
  | (_, item) :: rest => max (item.height + 1) (heightMembers rest)

end

mutual

/-- The value an item spells. -/
def value : Item → Value
  | .null => .null
  | .bool value => .bool value
  | .unsigned argument => .unsigned (UInt64.ofNat argument)
  | .negative argument => Value.ofSigned (Int64.ofInt (-1 - (argument : Int)))
  | .float encoding => .float (UInt64.ofNat encoding.value)
  | .bytes payload => .bytes payload
  | .text payload => .text payload
  | .array items => .array (valueItems items)
  | .object members => .object (valueMembers members)

def valueItems : List Item → List Value
  | [] => []
  | item :: rest => item.value :: valueItems rest

def valueMembers : List (Bytes × Item) → List (Bytes × Value)
  | [] => []
  | (key, item) :: rest => (key, item.value) :: valueMembers rest

end

mutual

/-- An item a reader accepts, up to its budgets.  `canonical` is the reader's own
test of a float's width. -/
def WellFormed (canonical : CanonicalFloatEncoding → Prop) : Item → Prop
  | .null => True
  | .bool _ => True
  | .unsigned argument => argument < 2 ^ 64
  | .negative argument => argument < 2 ^ 63
  | .float encoding => canonical encoding
  | .bytes payload => payload.length < 2 ^ 64
  | .text payload => payload.length < 2 ^ 64 ∧ Text.WellFormed payload
  | .array items => items.length < 2 ^ 64 ∧ WellFormedItems canonical items
  | .object members =>
      members.length < 2 ^ 64 ∧ (members.map Prod.fst).Nodup ∧
        WellFormedMembers canonical members

def WellFormedItems (canonical : CanonicalFloatEncoding → Prop) : List Item → Prop
  | [] => True
  | item :: rest => item.WellFormed canonical ∧ WellFormedItems canonical rest

def WellFormedMembers (canonical : CanonicalFloatEncoding → Prop) :
    List (Bytes × Item) → Prop
  | [] => True
  | (key, item) :: rest =>
      (key.length < 2 ^ 64 ∧ Text.WellFormed key) ∧ item.WellFormed canonical ∧
        WellFormedMembers canonical rest

end

end Item

end Mmltk.Wire
