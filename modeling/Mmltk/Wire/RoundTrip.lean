import Mathlib.Logic.Equiv.Defs
import Mmltk.Wire.WriterLanguage

namespace Mmltk.Wire

/-! Reader and writer have one language: the canonical items that fit the limits. -/

namespace Value

theorem ofSigned_normalize (value : Int64) : (ofSigned value).normalize = ofSigned value := by
  unfold ofSigned
  split
  · next hneg => rw [normalize, ofSigned, if_pos hneg]
  · rfl

end Value

namespace Item

mutual

theorem value_normalize : (item : Item) → item.value.normalize = item.value
  | .null => rfl
  | .bool _ => rfl
  | .unsigned _ => rfl
  | .negative _ => Value.ofSigned_normalize _
  | .float _ => rfl
  | .bytes _ => rfl
  | .text _ => rfl
  | .array items => by
      rw [value, Value.normalize, valueItems_normalize items]
  | .object members => by
      rw [value, Value.normalize, valueMembers_normalize members]

theorem valueItems_normalize :
    (items : List Item) → Value.normalizeItems (valueItems items) = valueItems items
  | [] => rfl
  | item :: rest => by
      rw [valueItems, Value.normalizeItems, value_normalize item, valueItems_normalize rest]

theorem valueMembers_normalize : (members : List (Bytes × Item)) →
    Value.normalizeFields (valueMembers members) = valueMembers members
  | [] => rfl
  | (key, item) :: rest => by
      rw [valueMembers, Value.normalizeFields, value_normalize item,
        valueMembers_normalize rest]

end

end Item

namespace Writer

/-- A nonnegative signed integer is written as the unsigned one it equals. -/
theorem writeSignedBody_nonneg (writer : Writer) {value : Int64} (h : ¬ value.toInt < 0) :
    writer.writeSignedBody value = writer.head 0 value.toUInt64.toNat := by
  have hnonneg : 0 ≤ value.toInt := by omega
  have hsame : value.toUInt64.toNat = value.toInt.toNat :=
    Int64.toNat_toUInt64_of_le (Int64.le_iff_toInt_le.mpr hnonneg)
  rw [writeSignedBody, signedIntegerEncoding, if_pos hnonneg, hsame]

mutual

theorem writeItem_normalize (value : Value) (depth : Nat) (writer : Writer) :
    writeItem value.normalize depth writer = writeItem value depth writer := by
  rw [writeItem, writeItem]
  cases hbegin : writer.beginItem depth with
  | error failure => rfl
  | ok begun =>
      cases value with
      | signed value =>
          rw [Value.normalize, Value.ofSigned]
          by_cases hneg : value.toInt < 0
          · rw [if_pos hneg]
          · rw [if_neg hneg]
            exact (writeSignedBody_nonneg begun hneg).symm
      | array items =>
          rw [Value.normalize]
          dsimp only
          rw [normalizeItems_length]
          cases begun.writeArrayBody items.length with
          | error failure => rfl
          | ok inside => exact writeItems_normalize items (depth + 1) inside
      | object fields =>
          rw [Value.normalize]
          dsimp only
          have hlength : (Value.normalizeFields fields).length = fields.length := by
            have := congrArg List.length (normalizeFields_keys fields)
            rwa [List.length_map, List.length_map] at this
          have hsame : duplicateObjectKey (Value.normalizeFields fields) =
              duplicateObjectKey fields := by
            rw [Bool.eq_iff_iff]
            apply not_iff_not.mp
            rw [Bool.not_eq_true, Bool.not_eq_true, duplicateObjectKey_eq_false,
              duplicateObjectKey_eq_false, normalizeFields_keys]
          have hbody : begun.writeObjectBody (Value.normalizeFields fields).length
              (Value.normalizeFields fields) = begun.writeObjectBody fields.length fields := by
            rw [writeObjectBody, writeObjectBody, hlength, hsame]
          rw [hbody]
          cases begun.writeObjectBody fields.length fields with
          | error failure => rfl
          | ok inside => exact writeFields_normalize fields (depth + 1) inside
      | null => rfl
      | bool value => rfl
      | unsigned value => rfl
      | float bits => rfl
      | text value => rfl
      | bytes value => rfl

theorem writeItems_normalize (values : List Value) (depth : Nat) (writer : Writer) :
    writeItems (Value.normalizeItems values) depth writer =
      writeItems values depth writer := by
  match values with
  | [] => rfl
  | value :: rest =>
      rw [Value.normalizeItems, writeItems, writeItems, writeItem_normalize value]
      cases writeItem value depth writer with
      | error failure => rfl
      | ok after => exact writeItems_normalize rest depth after

theorem writeFields_normalize (fields : List (Bytes × Value)) (depth : Nat)
    (writer : Writer) :
    writeFields (Value.normalizeFields fields) depth writer =
      writeFields fields depth writer := by
  match fields with
  | [] => rfl
  | (key, value) :: rest =>
      rw [Value.normalizeFields, writeFields, writeFields]
      cases writer.writeKey key depth with
      | error failure => rfl
      | ok afterKey =>
          dsimp only
          rw [writeItem_normalize value]
          cases writeItem value depth afterKey with
          | error failure => rfl
          | ok after => exact writeFields_normalize rest depth after

end

theorem write_sound (destination : Destination) {limits : Limits} {value : Value}
    {after : Writer} (hempty : destination.size = 0) (hroom : destination.HasRoom)
    (h : write ⟨destination, limits, 0⟩ value = .ok after) :
    ∃ item : Item, item.Canonical ∧ item.Fits limits ∧ item.value = value.normalize ∧
      (destination.extend item.encoding).HasRoom ∧
      after.destination = destination.extend item.encoding := by
  have hbounds : (⟨destination, limits, 0⟩ : Writer).WithinBounds :=
    ⟨by rw [hempty]; exact Nat.zero_le _, hroom⟩
  obtain ⟨item, hcanonical, hvalue, hemits, hdepth, hitems⟩ := writeItem_sound value hbounds h
  have hcount := hemits.items_eq
  have hroomAfter := hemits.withinBounds.hasRoom
  rw [hemits.destination_eq] at hroomAfter
  dsimp only at hcount hdepth hitems
  exact ⟨item, hcanonical, ⟨hemits.taken_le, by omega, by omega⟩, hvalue, hroomAfter,
    hemits.destination_eq⟩

theorem write_complete (destination : Destination) {limits : Limits} {value : Value}
    {item : Item} (hempty : destination.size = 0)
    (hroom : (destination.extend item.encoding).HasRoom) (hcanonical : item.Canonical)
    (hfits : item.Fits limits) (hvalue : item.value = value.normalize) :
    write ⟨destination, limits, 0⟩ value =
      .ok ⟨destination.extend item.encoding, limits, item.count⟩ := by
  rw [write, ← writeItem_normalize, ← hvalue]
  refine writeItem_complete item hcanonical (by rw [Nat.zero_add]; exact hfits.depth_le)
    hfits.items_le ⟨rfl, rfl, (Nat.zero_add _).symm, ?_, hroom⟩
  rw [Destination.size_extend, hempty, Nat.zero_add]
  exact hfits.bytes_le

end Writer

/-- The item a value spells under some limits, if it fits them. -/
def Item.Spells (item : Item) (value : Value) (limits : Limits) : Prop :=
  item.Canonical ∧ item.Fits limits ∧ item.value = value.normalize

/-! The item a value is written as depends on the value alone. -/

def canonicalFloatItem (bits : Nat) : Item :=
  match canonicalFloatEncoding bits with
  | .ok encoding => .float encoding
  | .error _ => .float ⟨.double, bits⟩

namespace Value

mutual

def canonicalItem : Value → Item
  | .null => .null
  | .bool value => .bool value
  | .signed value => Writer.signedItem value
  | .unsigned value => .unsigned value.toNat
  | .float bits => canonicalFloatItem bits.toNat
  | .text value => .text value
  | .bytes value => .bytes value
  | .array items => .array (canonicalItems items)
  | .object fields => .object (canonicalMembers fields)

def canonicalItems : List Value → List Item
  | [] => []
  | value :: rest => value.canonicalItem :: canonicalItems rest

def canonicalMembers : List (Bytes × Value) → List (Bytes × Item)
  | [] => []
  | (key, value) :: rest => (key, value.canonicalItem) :: canonicalMembers rest

end

theorem canonicalItems_length (values : List Value) :
    (canonicalItems values).length = values.length := by
  induction values with
  | nil => rfl
  | cons value rest ih => rw [canonicalItems, List.length_cons, ih, List.length_cons]

theorem canonicalMembers_length (fields : List (Bytes × Value)) :
    (canonicalMembers fields).length = fields.length := by
  induction fields with
  | nil => rfl
  | cons field rest ih =>
      obtain ⟨key, value⟩ := field
      rw [canonicalMembers, List.length_cons, ih, List.length_cons]

theorem canonicalItem_ofSigned (value : Int64) :
    (ofSigned value).canonicalItem = Writer.signedItem value := by
  unfold ofSigned
  split
  · rfl
  · next hnonneg =>
    have hsame : value.toUInt64.toNat = value.toInt.toNat :=
      Int64.toNat_toUInt64_of_le (Int64.le_iff_toInt_le.mpr (Int.not_lt.mp hnonneg))
    rw [canonicalItem, Writer.signedItem, if_pos (Int.not_lt.mp hnonneg), hsame]

mutual

theorem canonicalItem_normalize : (value : Value) →
    value.normalize.canonicalItem = value.canonicalItem
  | .null => rfl
  | .bool _ => rfl
  | .signed value => canonicalItem_ofSigned value
  | .unsigned _ => rfl
  | .float _ => rfl
  | .text _ => rfl
  | .bytes _ => rfl
  | .array items => by
      rw [normalize, canonicalItem, canonicalItem, canonicalItems_normalize items]
  | .object fields => by
      rw [normalize, canonicalItem, canonicalItem, canonicalMembers_normalize fields]

theorem canonicalItems_normalize : (values : List Value) →
    canonicalItems (normalizeItems values) = canonicalItems values
  | [] => rfl
  | value :: rest => by
      rw [normalizeItems, canonicalItems, canonicalItems, canonicalItem_normalize value,
        canonicalItems_normalize rest]

theorem canonicalMembers_normalize : (fields : List (Bytes × Value)) →
    canonicalMembers (normalizeFields fields) = canonicalMembers fields
  | [] => rfl
  | (key, value) :: rest => by
      rw [normalizeFields, canonicalMembers, canonicalMembers, canonicalItem_normalize value,
        canonicalMembers_normalize rest]

end

end Value

namespace Item

mutual

theorem canonicalItem_value : (item : Item) → item.Canonical →
    item.value.canonicalItem = item
  | .null, _ => rfl
  | .bool _, _ => rfl
  | .unsigned argument, h => by
      rw [value, Value.canonicalItem, UInt64.toNat_ofNat_of_lt' h]
  | .negative argument, h => by
      obtain ⟨hvalue, hitem⟩ := Writer.negative_value h
      rw [hvalue, Value.canonicalItem, hitem]
  | .float encoding, h => by
      rw [value, Value.canonicalItem, canonicalFloatItem,
        UInt64.toNat_ofNat_of_lt' (CanonicalFloatEncoding.value_lt h),
        canonicalFloatEncoding_complete h]
  | .bytes _, _ => rfl
  | .text _, _ => rfl
  | .array items, h => by
      rw [value, Value.canonicalItem, canonicalItems_value items h.2]
  | .object members, h => by
      rw [value, Value.canonicalItem, canonicalMembers_value members h.2.2]

theorem canonicalItems_value : (items : List Item) →
    WellFormedItems CanonicalFloatEncoding.Canonical items →
    Value.canonicalItems (valueItems items) = items
  | [], _ => rfl
  | item :: rest, h => by
      rw [valueItems, Value.canonicalItems, canonicalItem_value item h.1,
        canonicalItems_value rest h.2]

theorem canonicalMembers_value : (members : List (Bytes × Item)) →
    WellFormedMembers CanonicalFloatEncoding.Canonical members →
    Value.canonicalMembers (valueMembers members) = members
  | [], _ => rfl
  | (key, item) :: rest, h => by
      rw [valueMembers, Value.canonicalMembers, canonicalItem_value item h.2.1,
        canonicalMembers_value rest h.2.2]

end

/-- One item at most spells a value. -/
theorem Spells.eq_canonicalItem {item : Item} {value : Value} {limits : Limits}
    (h : item.Spells value limits) : item = value.canonicalItem := by
  obtain ⟨hcanonical, -, hvalue⟩ := h
  rw [← canonicalItem_value item hcanonical, hvalue, Value.canonicalItem_normalize]

end Item

theorem measure_eq_ok {value : Value} {limits : Limits} {size : Nat} :
    measure value limits = .ok size ↔
      ∃ item : Item, item.Spells value limits ∧ item.encoding.length = size := by
  unfold measure
  constructor
  · intro h
    split at h
    · contradiction
    · next after hwrite =>
      cases h
      obtain ⟨item, hcanonical, hfits, hvalue, -, hafter⟩ :=
        Writer.write_sound (.counted 0) rfl trivial hwrite
      refine ⟨item, ⟨hcanonical, hfits, hvalue⟩, ?_⟩
      rw [Writer.destinationSize, hafter, Destination.extend]
      exact (Nat.zero_add _).symm
  · rintro ⟨item, ⟨hcanonical, hfits, hvalue⟩, rfl⟩
    rw [Writer.write_complete (.counted 0) rfl trivial hcanonical hfits hvalue]
    exact congrArg Except.ok (Nat.zero_add _)

theorem encode_eq_ok {value : Value} {limits : Limits} {bytes : Bytes} :
    encode value limits = .ok bytes ↔
      ∃ item : Item, item.Spells value limits ∧ item.encoding = bytes := by
  unfold encode
  constructor
  · intro h
    split at h
    · contradiction
    · split at h
      · contradiction
      · next after hwrite =>
        cases h
        obtain ⟨item, hcanonical, hfits, hvalue, -, hafter⟩ :=
          Writer.write_sound (.dynamic []) rfl trivial hwrite
        refine ⟨item, ⟨hcanonical, hfits, hvalue⟩, ?_⟩
        rw [hafter]
        rfl
  · rintro ⟨item, hspells, rfl⟩
    rw [measure_eq_ok.mpr ⟨item, hspells, rfl⟩]
    dsimp only
    rw [Writer.write_complete (.dynamic []) rfl trivial hspells.1 hspells.2.1 hspells.2.2]
    rfl

/-- Encoding into a span is encoding that the span has room for. -/
theorem encodeInto_eq_ok {value : Value} {capacity : Nat} {limits : Limits} {bytes : Bytes} :
    encodeInto value capacity limits = .ok bytes ↔
      encode value limits = .ok bytes ∧ bytes.length ≤ capacity := by
  rw [encode_eq_ok]
  unfold encodeInto
  constructor
  · intro h
    split at h
    · contradiction
    · split at h
      · contradiction
      · split at h
        · contradiction
        · next after hwrite =>
          cases h
          obtain ⟨item, hcanonical, hfits, hvalue, hroom, hafter⟩ :=
            Writer.write_sound (.fixed capacity []) rfl (Nat.zero_le _) hwrite
          rw [hafter]
          exact ⟨⟨item, ⟨hcanonical, hfits, hvalue⟩, rfl⟩, hroom⟩
  · rintro ⟨⟨item, hspells, rfl⟩, hcapacity⟩
    rw [measure_eq_ok.mpr ⟨item, hspells, rfl⟩]
    dsimp only
    rw [if_neg (Nat.not_lt.mpr hcapacity),
      Writer.write_complete (.fixed capacity []) rfl hcapacity hspells.1 hspells.2.1 hspells.2.2]
    rfl

theorem decode_eq_ok {segments : ByteSegments} {limits : Limits} {value : Value}
    (hpolicy : limits.allocationPolicy = none) :
    decode segments limits = .ok value ↔
      ∃ item : Item, item.Canonical ∧ item.Fits limits ∧ item.value = value ∧
        item.encoding = segments.bytes := by
  constructor
  · exact decode_sound
  · rintro ⟨item, hcanonical, hfits, rfl, hencoding⟩
    exact decode_complete hpolicy hcanonical hfits hencoding

theorem decode_encode {value : Value} {limits : Limits} {bytes : Bytes}
    {segments : ByteSegments} (hpolicy : limits.allocationPolicy = none)
    (h : encode value limits = .ok bytes) (hsegments : segments.bytes = bytes) :
    decode segments limits = .ok value.normalize := by
  obtain ⟨item, ⟨hcanonical, hfits, hvalue⟩, hencoding⟩ := encode_eq_ok.mp h
  exact (decode_eq_ok hpolicy).mpr ⟨item, hcanonical, hfits, hvalue, by rw [hencoding, hsegments]⟩

theorem encode_decode {value : Value} {limits : Limits} {segments : ByteSegments}
    (h : decode segments limits = .ok value) :
    value.normalize = value ∧ encode value limits = .ok segments.bytes := by
  obtain ⟨item, hcanonical, hfits, rfl, hencoding⟩ := decode_sound h
  exact ⟨item.value_normalize,
    encode_eq_ok.mpr ⟨item, ⟨hcanonical, hfits, item.value_normalize.symm⟩, hencoding⟩⟩

/-- Byte strings a reader accepts whole. -/
def AcceptedEncoding (limits : Limits) : Type :=
  { bytes : Bytes // ∃ value, decode ⟨bytes, []⟩ limits = .ok value }

/-- Values in normal form that the limits admit. -/
def NormalizedValue (limits : Limits) : Type :=
  { value : Value // value.normalize = value ∧ ∃ bytes, encode value limits = .ok bytes }

theorem bytes_whole (bytes : Bytes) : (⟨bytes, []⟩ : ByteSegments).bytes = bytes :=
  List.append_nil bytes

def AcceptedEncoding.decoded {limits : Limits} (encoding : AcceptedEncoding limits) :
    NormalizedValue limits :=
  match hdecode : decode ⟨encoding.1, []⟩ limits with
  | .ok value =>
      ⟨value, (encode_decode hdecode).1, encoding.1, by
        rw [(encode_decode hdecode).2, bytes_whole]⟩
  | .error failure => absurd encoding.2 (by simp [hdecode])

def NormalizedValue.encoded {limits : Limits} (hpolicy : limits.allocationPolicy = none)
    (value : NormalizedValue limits) : AcceptedEncoding limits :=
  match hencode : encode value.1 limits with
  | .ok bytes => ⟨bytes, value.1.normalize, decode_encode hpolicy hencode (bytes_whole bytes)⟩
  | .error failure => absurd value.2.2 (by simp [hencode])

theorem AcceptedEncoding.decode_eq {limits : Limits} (encoding : AcceptedEncoding limits) :
    decode ⟨encoding.1, []⟩ limits = .ok encoding.decoded.1 := by
  unfold decoded
  split
  · assumption
  · next hdecode => exact absurd encoding.2 (by simp [hdecode])

theorem NormalizedValue.encode_eq {limits : Limits} (hpolicy : limits.allocationPolicy = none)
    (value : NormalizedValue limits) :
    encode value.1 limits = .ok (value.encoded hpolicy).1 := by
  unfold encoded
  split
  · assumption
  · next hencode => exact absurd value.2.2 (by simp [hencode])

def encodingEquiv {limits : Limits} (hpolicy : limits.allocationPolicy = none) :
    AcceptedEncoding limits ≃ NormalizedValue limits where
  toFun := AcceptedEncoding.decoded
  invFun := NormalizedValue.encoded hpolicy
  left_inv encoding := by
    apply Subtype.ext
    have hencode := (encode_decode encoding.decode_eq).2
    rw [NormalizedValue.encode_eq hpolicy, bytes_whole, Except.ok.injEq] at hencode
    exact hencode
  right_inv value := by
    apply Subtype.ext
    have hdecode := decode_encode hpolicy (value.encode_eq hpolicy) (bytes_whole _)
    rw [AcceptedEncoding.decode_eq, value.2.1, Except.ok.injEq] at hdecode
    exact hdecode

/-- Encoding and decoding are inverse to each other, however the bytes are split. -/
theorem encode_decode_inverse (limits : Limits) (hpolicy : limits.allocationPolicy = none) :
    (∀ value bytes, encode value limits = .ok bytes →
      ∀ segments : ByteSegments, segments.bytes = bytes →
        decode segments limits = .ok value.normalize) ∧
    (∀ (segments : ByteSegments) value, decode segments limits = .ok value →
      encode value limits = .ok segments.bytes) ∧
    (∃ correspondence : AcceptedEncoding limits ≃ NormalizedValue limits,
      ∀ encoding, decode ⟨encoding.1, []⟩ limits = .ok (correspondence encoding).1 ∧
        encode (correspondence encoding).1 limits = .ok encoding.1) ∧
    (∀ value size, measure value limits = .ok size ↔
      ∃ bytes, encode value limits = .ok bytes ∧ bytes.length = size) := by
  refine ⟨?_, ?_, ?_, ?_⟩
  · intro value bytes hencode segments hsegments
    exact decode_encode hpolicy hencode hsegments
  · intro segments value hdecode
    exact (encode_decode hdecode).2
  · refine ⟨encodingEquiv hpolicy, fun encoding => ⟨encoding.decode_eq, ?_⟩⟩
    have hencode := (encode_decode encoding.decode_eq).2
    rwa [bytes_whole] at hencode
  · intro value size
    rw [measure_eq_ok]
    constructor
    · rintro ⟨item, hspells, hsize⟩
      exact ⟨item.encoding, encode_eq_ok.mpr ⟨item, hspells, rfl⟩, hsize⟩
    · rintro ⟨bytes, hencode, hsize⟩
      obtain ⟨item, hspells, rfl⟩ := encode_eq_ok.mp hencode
      exact ⟨item, hspells, hsize⟩

theorem encode_decode_inverse_split :
    decode ⟨[0x82, 0xf9, 0x00], [0x01, 0x20]⟩ smallLimits =
      .ok (.array [.float 0x3e70000000000000, .signed (-1)]) :=
  (encode_decode_inverse smallLimits rfl).1
    (.array [.float 0x3e70000000000000, .signed (-1)]) _ rfl _ rfl

end Mmltk.Wire
