import Mmltk.Frontend.DecoderLanguage
import Mmltk.Wire.RoundTrip

namespace Mmltk.Frontend

open Mmltk.Foundation
open Mmltk.Wire (Item CanonicalFloatEncoding Limits ByteSegments canonicalFloatEncoding
  canonicalFloatItem headBytes headTail headAdditional headSize floatBytes textBytes)

/-! Where the two codecs meet: everywhere but on the wide half subnormals. -/

/-- `encoding_limits`, with `kMaxRecordWireBytes` and `kMaxIntentValueDepth`. -/
def encodingLimits : Limits :=
  ⟨maxRecordWireBytes, maxRecordWireBytes, maxIntentValueDepth, none, by decide, by decide,
    by decide⟩

theorem min_maxRecordWireBytes_lt (size : Nat) : min size maxRecordWireBytes < 2 ^ 64 :=
  Nat.lt_of_le_of_lt (Nat.min_le_right _ _) (by decide)

/-- `decoding_limits` -/
def decodingLimits (bytes : ByteSegments) : Limits :=
  ⟨min bytes.size maxRecordWireBytes, min bytes.size maxRecordWireBytes, maxIntentValueDepth,
    none, min_maxRecordWireBytes_lt _, min_maxRecordWireBytes_lt _, by decide⟩

namespace Item

mutual

/-- Some float of the item is a half subnormal spelled as a single. -/
def HasWideSubnormal : Item → Prop
  | .float encoding => WideSubnormal encoding
  | .array items => HasWideSubnormalItems items
  | .object members => HasWideSubnormalMembers members
  | _ => False

def HasWideSubnormalItems : List Item → Prop
  | [] => False
  | item :: rest => HasWideSubnormal item ∨ HasWideSubnormalItems rest

def HasWideSubnormalMembers : List (Wire.Bytes × Item) → Prop
  | [] => False
  | (_, item) :: rest => HasWideSubnormal item ∨ HasWideSubnormalMembers rest

end

mutual

theorem accepted_of_canonical : (item : Item) → item.Canonical → item.WellFormed Accepted
  | .null, _ => trivial
  | .bool _, _ => trivial
  | .unsigned _, h => h
  | .negative _, h => h
  | .float _, h => accepted_iff.mpr (.inl h)
  | .bytes _, h => h
  | .text _, h => h
  | .array items, h => ⟨h.1, accepted_of_canonicalItems items h.2⟩
  | .object members, h => ⟨h.1, h.2.1, accepted_of_canonicalMembers members h.2.2⟩

theorem accepted_of_canonicalItems : (items : List Item) →
    Item.WellFormedItems CanonicalFloatEncoding.Canonical items →
    Item.WellFormedItems Accepted items
  | [], _ => trivial
  | item :: rest, h => ⟨accepted_of_canonical item h.1, accepted_of_canonicalItems rest h.2⟩

theorem accepted_of_canonicalMembers : (members : List (Wire.Bytes × Item)) →
    Item.WellFormedMembers CanonicalFloatEncoding.Canonical members →
    Item.WellFormedMembers Accepted members
  | [], _ => trivial
  | (_, item) :: rest, h =>
      ⟨h.1, accepted_of_canonical item h.2.1, accepted_of_canonicalMembers rest h.2.2⟩

end

mutual

theorem canonical_of_accepted : (item : Item) → item.WellFormed Accepted →
    ¬ HasWideSubnormal item → item.Canonical
  | .null, _, _ => trivial
  | .bool _, _, _ => trivial
  | .unsigned _, h, _ => h
  | .negative _, h, _ => h
  | .float _, h, hwide => (accepted_iff.mp h).resolve_right hwide
  | .bytes _, h, _ => h
  | .text _, h, _ => h
  | .array items, h, hwide => ⟨h.1, canonical_of_acceptedItems items h.2 hwide⟩
  | .object members, h, hwide =>
      ⟨h.1, h.2.1, canonical_of_acceptedMembers members h.2.2 hwide⟩

theorem canonical_of_acceptedItems : (items : List Item) →
    Item.WellFormedItems Accepted items → ¬ HasWideSubnormalItems items →
    Item.WellFormedItems CanonicalFloatEncoding.Canonical items
  | [], _, _ => trivial
  | item :: rest, h, hwide =>
      ⟨canonical_of_accepted item h.1 (fun hitem => hwide (.inl hitem)),
        canonical_of_acceptedItems rest h.2 (fun hrest => hwide (.inr hrest))⟩

theorem canonical_of_acceptedMembers : (members : List (Wire.Bytes × Item)) →
    Item.WellFormedMembers Accepted members → ¬ HasWideSubnormalMembers members →
    Item.WellFormedMembers CanonicalFloatEncoding.Canonical members
  | [], _, _ => trivial
  | (_, item) :: rest, h, hwide =>
      ⟨h.1, canonical_of_accepted item h.2.1 (fun hitem => hwide (.inl hitem)),
        canonical_of_acceptedMembers rest h.2.2 (fun hrest => hwide (.inr hrest))⟩

end

end Item

/-- The double a wide subnormal denotes is canonically a half. -/
theorem canonicalFloatEncoding_halfSubnormal {bits : Nat} (h : HalfSubnormal bits) :
    canonicalFloatEncoding (f64From bits) = .ok ⟨.half, Wire.floatToHalf bits⟩ := by
  obtain ⟨hbits, hfinite, hnarrow⟩ := h.finite
  have hsingle := Wire.singleRepresents_floatToDouble hfinite
  have hdouble := Wire.isFinite_floatToDouble.mpr hfinite
  change canonicalFloatEncoding (Wire.floatToDouble bits) = _
  rw [Wire.canonicalFloatEncoding_eq, hdouble, hsingle,
    Wire.doubleToFloat_floatToDouble hfinite, hnarrow]
  rfl

theorem f64From_lt {bits : Nat} (h : bits < 2 ^ 32) : f64From bits < UInt64.size :=
  Wire.floatToDouble_lt h

theorem floatBytes_length (encoding : CanonicalFloatEncoding) :
    (floatBytes encoding).length = 1 + encoding.width.bytes := by
  rw [floatBytes, List.length_cons, length_bigEndianBytes, Nat.add_comm]

/-- The canonical item of an accepted item's value is shorter when it narrows a float. -/
def Narrows (long : Nat) (wide : Prop) (short : Nat) : Prop :=
  short ≤ long ∧ (wide → short < long)

theorem Narrows.refl {wide : Prop} (length : Nat) (h : ¬ wide) :
    Narrows length wide length :=
  ⟨Nat.le_refl _, fun hwide => absurd hwide h⟩

theorem Narrows.add {left right : Prop} {leftLong leftShort rightLong rightShort : Nat}
    (hleft : Narrows leftLong left leftShort) (hright : Narrows rightLong right rightShort) :
    Narrows (leftLong + rightLong) (left ∨ right) (leftShort + rightShort) := by
  obtain ⟨hleftLe, hleftLt⟩ := hleft
  obtain ⟨hrightLe, hrightLt⟩ := hright
  refine ⟨Nat.add_le_add hleftLe hrightLe, ?_⟩
  rintro (hwide | hwide)
  · have := hleftLt hwide
    omega
  · have := hrightLt hwide
    omega

theorem Narrows.add_left {wide : Prop} {long short : Nat} (head : Nat)
    (h : Narrows long wide short) : Narrows (head + long) wide (head + short) :=
  ⟨Nat.add_le_add_left h.1 _, fun hwide => Nat.add_lt_add_left (h.2 hwide) _⟩

namespace Item

theorem narrows_float {encoding : CanonicalFloatEncoding} (h : Accepted encoding) :
    Narrows (Item.encoding (.float encoding)).length (WideSubnormal encoding)
      (Item.value (.float encoding)).canonicalItem.encoding.length := by
  rcases accepted_iff.mp h with hcanonical | hwide
  · rw [Wire.Item.canonicalItem_value (.float encoding) hcanonical]
    exact Narrows.refl _ (fun hwide => hwide.not_canonical hcanonical)
  · obtain ⟨width, bits⟩ := encoding
    obtain ⟨rfl, hsubnormal⟩ := hwide
    have hvalue : CanonicalFloatEncoding.value ⟨.single, bits⟩ = f64From bits := rfl
    rw [Item.value, Wire.Value.canonicalItem, hvalue,
      UInt64.toNat_ofNat_of_lt' (f64From_lt hsubnormal.finite.1), canonicalFloatItem,
      canonicalFloatEncoding_halfSubnormal hsubnormal]
    dsimp only
    rw [Item.encoding, Item.encoding, floatBytes_length, floatBytes_length]
    dsimp only [Wire.CanonicalFloatWidth.bytes]
    exact ⟨by decide, fun _ => by decide⟩

mutual

theorem narrows : (item : Item) → item.WellFormed Accepted →
    Narrows item.encoding.length (HasWideSubnormal item)
      item.value.canonicalItem.encoding.length
  | .null, _ => Narrows.refl _ id
  | .bool _, _ => Narrows.refl _ id
  | .unsigned argument, h => by
      rw [Wire.Item.canonicalItem_value (.unsigned argument) h]
      exact Narrows.refl _ id
  | .negative argument, h => by
      rw [Wire.Item.canonicalItem_value (.negative argument) h]
      exact Narrows.refl _ id
  | .float _, h => narrows_float h
  | .bytes _, _ => Narrows.refl _ id
  | .text _, _ => Narrows.refl _ id
  | .array items, h => by
      have hrest := narrows_items items h.2
      rw [Item.value, Wire.Value.canonicalItem, Item.encoding, Item.encoding,
        List.length_append, List.length_append, Wire.Value.canonicalItems_length,
        Wire.Writer.valueItems_length]
      exact hrest.add_left _
  | .object members, h => by
      have hrest := narrows_members members h.2.2
      have hlength : (Item.valueMembers members).length = members.length := by
        have := congrArg List.length (Wire.Writer.valueMembers_keys members)
        rwa [List.length_map, List.length_map] at this
      rw [Item.value, Wire.Value.canonicalItem, Item.encoding, Item.encoding,
        List.length_append, List.length_append, Wire.Value.canonicalMembers_length, hlength]
      exact hrest.add_left _

theorem narrows_items : (items : List Item) → Item.WellFormedItems Accepted items →
    Narrows (Item.encodingItems items).length (HasWideSubnormalItems items)
      (Item.encodingItems (Wire.Value.canonicalItems (Item.valueItems items))).length
  | [], _ => Narrows.refl _ id
  | item :: rest, h => by
      rw [Item.valueItems, Wire.Value.canonicalItems, Item.encodingItems, Item.encodingItems,
        List.length_append, List.length_append]
      exact (narrows item h.1).add (narrows_items rest h.2)

theorem narrows_members : (members : List (Wire.Bytes × Item)) →
    Item.WellFormedMembers Accepted members →
    Narrows (Item.encodingMembers members).length (HasWideSubnormalMembers members)
      (Item.encodingMembers (Wire.Value.canonicalMembers (Item.valueMembers members))).length
  | [], _ => Narrows.refl _ id
  | (key, item) :: rest, h => by
      rw [Item.valueMembers, Wire.Value.canonicalMembers, Item.encodingMembers,
        Item.encodingMembers, List.length_append, List.length_append, List.length_append,
        List.length_append]
      exact ((narrows item h.2.1).add (narrows_members rest h.2.2)).add_left _

end

end Item

/-! Decoding -/

/-- Nothing but the grammar, with wide subnormals let in, under the depth limit. -/
def SpellsWideSubnormal (bytes : Bytes) : Prop :=
  ∃ item : Item,
    item.WellFormed (fun encoding => encoding.Canonical ∨ WideSubnormal encoding) ∧
      item.height ≤ maxIntentValueDepth ∧ Item.HasWideSubnormal item ∧ item.encoding = bytes

theorem accepted_eq :
    Accepted = fun encoding => encoding.Canonical ∨ WideSubnormal encoding :=
  funext fun _ => propext accepted_iff

theorem decodeMessage_sound {bytes : Bytes} (hsize : bytes.length ≤ usizeMax) {value : Value}
    (h : decodeMessage bytes = .ok value) :
    ∃ item : Item, item.WellFormed Accepted ∧ item.height ≤ maxIntentValueDepth ∧
      item.value = value.toNative ∧ item.encoding = bytes := by
  unfold decodeMessage at h
  split at h
  · contradiction
  · next result cursor hresult =>
    split at h
    · contradiction
    · next hend =>
      cases h
      rw [not_not] at hend
      subst hend
      obtain ⟨item, hwellFormed, hvalue, hadvances, hdepth⟩ :=
        decodeValue_sound hsize _ _ _ _ _ _ (Nat.zero_le _) hresult
      have hrest := hadvances.rest_eq
      rw [List.drop_zero, List.drop_eq_nil_of_le (Nat.le_refl _), List.append_nil] at hrest
      exact ⟨item, hwellFormed, by omega, hvalue, hrest.symm⟩

theorem decodeMessage_complete {item : Item} (hsize : item.encoding.length ≤ usizeMax)
    (hwellFormed : item.WellFormed Accepted) (hdepth : item.height ≤ maxIntentValueDepth) :
    ∃ value : Value, value.toNative = item.value ∧
      decodeMessage item.encoding = .ok value := by
  have hadvances : Advances item.encoding 0 item.encoding item.encoding.length := by
    refine ⟨?_, (Nat.zero_add _).symm, Nat.le_refl _⟩
    rw [List.drop_zero, List.drop_eq_nil_of_le (Nat.le_refl _), List.append_nil]
  obtain ⟨value, hvalue, hdecode⟩ := decodeValue_complete hsize item
    (Nat.zero_add (maxIntentValueDepth + 1)) hwellFormed
    (by rw [Nat.zero_add]; exact hdepth) hadvances
  refine ⟨value, hvalue, ?_⟩
  rw [decodeMessage, hdecode]
  exact if_neg (by rw [not_not])

mutual

/-- Every budget unit takes at least a byte. -/
theorem count_le_encoding : (item : Item) → item.count ≤ item.encoding.length
  | .null => Nat.le_refl _
  | .bool _ => Nat.le_refl _
  | .unsigned argument => one_le_encoding (.unsigned argument)
  | .negative argument => one_le_encoding (.negative argument)
  | .float encoding => one_le_encoding (.float encoding)
  | .bytes payload => one_le_encoding (.bytes payload)
  | .text payload => one_le_encoding (.text payload)
  | .array items => by
      have hitems := countItems_le_encoding items
      rw [Item.count, Item.encoding, headBytes, List.length_append, List.length_cons]
      omega
  | .object members => by
      have hmembers := countMembers_le_encoding members
      rw [Item.count, Item.encoding, headBytes, List.length_append, List.length_cons]
      omega

theorem countItems_le_encoding : (items : List Item) →
    Item.countItems items ≤ (Item.encodingItems items).length
  | [] => Nat.le_refl _
  | item :: rest => by
      have hitem := count_le_encoding item
      have hrest := countItems_le_encoding rest
      rw [Item.countItems, Item.encodingItems, List.length_append]
      omega

theorem countMembers_le_encoding : (members : List (Wire.Bytes × Item)) →
    Item.countMembers members ≤ (Item.encodingMembers members).length
  | [] => Nat.le_refl _
  | (key, item) :: rest => by
      have hkey := one_le_encoding (.text key)
      have hitem := count_le_encoding item
      have hrest := countMembers_le_encoding rest
      rw [Item.encoding] at hkey
      rw [Item.countMembers, Item.encodingMembers, List.length_append, List.length_append]
      omega

end

/-- Limits of the protocol for a message: no byte or item limit below its size. -/
structure ProtocolLimits (limits : Limits) (size : Nat) : Prop where
  policy_eq : limits.allocationPolicy = none
  bytes_le : size ≤ limits.maxBytes
  items_le : size ≤ limits.maxItems
  depth_eq : limits.maxDepth = maxIntentValueDepth

theorem encodingLimits_protocol {size : Nat} (h : size ≤ maxRecordWireBytes) :
    ProtocolLimits encodingLimits size :=
  ⟨rfl, h, h, rfl⟩

theorem decodingLimits_protocol {segments : ByteSegments}
    (h : segments.size ≤ maxRecordWireBytes) :
    ProtocolLimits (decodingLimits segments) segments.size :=
  ⟨rfl, Nat.le_min.mpr ⟨Nat.le_refl _, h⟩, Nat.le_min.mpr ⟨Nat.le_refl _, h⟩, rfl⟩

theorem decode_protocol {segments : ByteSegments} {limits : Limits}
    (hlimits : ProtocolLimits limits segments.size) {value : Wire.Value} :
    Wire.decode segments limits = .ok value ↔
      ∃ item : Item, item.Canonical ∧ item.height ≤ maxIntentValueDepth ∧
        item.value = value ∧ item.encoding = segments.bytes := by
  rw [Wire.decode_eq_ok hlimits.policy_eq]
  constructor
  · rintro ⟨item, hcanonical, hfits, hvalue, hencoding⟩
    have hdepth := hfits.depth_le
    rw [hlimits.depth_eq] at hdepth
    exact ⟨item, hcanonical, hdepth, hvalue, hencoding⟩
  · rintro ⟨item, hcanonical, hdepth, hvalue, hencoding⟩
    have hlength : item.encoding.length = segments.size := by
      rw [hencoding, ByteSegments.length_bytes]
    have hcount := count_le_encoding item
    have hbytes := hlimits.bytes_le
    have hitems := hlimits.items_le
    refine ⟨item, hcanonical, ⟨by omega, by omega, ?_⟩, hvalue, hencoding⟩
    rw [hlimits.depth_eq]
    exact hdepth

theorem toOption_eq_some {ε α : Type} {result : Except ε α} {value : α} :
    result.toOption = some value ↔ result = .ok value := by
  cases result with
  | error failure => simp [Except.toOption]
  | ok result => simp [Except.toOption]

/-- Both decoders answer a message alike unless it spells a wide subnormal. -/
theorem decoders_agree_iff {segments : ByteSegments} {limits : Limits}
    (hlimits : ProtocolLimits limits segments.size)
    (hsize : segments.size ≤ maxRecordWireBytes) :
    (Wire.decode segments limits).toOption =
        (decodeMessage segments.bytes).toOption.map Value.toNative ↔
      ¬ SpellsWideSubnormal segments.bytes := by
  have hbytes : segments.bytes.length ≤ usizeMax := by
    rw [ByteSegments.length_bytes]
    exact Nat.le_trans hsize (by decide)
  constructor
  · rintro hagree ⟨item, hwellFormed, hdepth, hwide, hencoding⟩
    rw [← accepted_eq] at hwellFormed
    obtain ⟨value, hvalue, hdecode⟩ :=
      decodeMessage_complete (by rw [hencoding]; exact hbytes) hwellFormed hdepth
    rw [hencoding] at hdecode
    rw [hdecode] at hagree
    obtain ⟨other, hother, -, hotherValue, hotherEncoding⟩ :=
      (decode_protocol hlimits).mp (toOption_eq_some.mp hagree)
    -- both items spell `value`, but the canonical one is strictly shorter
    have hcanonical := Wire.Item.canonicalItem_value other hother
    rw [hotherValue, hvalue] at hcanonical
    have hshorter := (Item.narrows item hwellFormed).2 hwide
    rw [hcanonical, hotherEncoding, hencoding] at hshorter
    exact Nat.lt_irrefl _ hshorter
  · intro hplain
    apply Option.ext
    intro value
    rw [toOption_eq_some, Option.map_eq_some_iff, decode_protocol hlimits]
    constructor
    · rintro ⟨item, hcanonical, hdepth, rfl, hencoding⟩
      obtain ⟨value, hvalue, hdecode⟩ :=
        decodeMessage_complete (by rw [hencoding]; exact hbytes)
          (Item.accepted_of_canonical item hcanonical) hdepth
      rw [hencoding] at hdecode
      exact ⟨value, toOption_eq_some.mpr hdecode, hvalue⟩
    · rintro ⟨value, hdecode, rfl⟩
      obtain ⟨item, hwellFormed, hdepth, hvalue, hencoding⟩ :=
        decodeMessage_sound hbytes (toOption_eq_some.mp hdecode)
      refine ⟨item, Item.canonical_of_accepted item hwellFormed ?_, hdepth, hvalue, hencoding⟩
      intro hwide
      rw [accepted_eq] at hwellFormed
      exact hplain ⟨item, hwellFormed, hdepth, hwide, hencoding⟩

/-! Encoding -/

/-- A double that is a half subnormal above the smallest. -/
def SubnormalFloat (bits : Nat) : Prop :=
  ∃ narrowed, HalfSubnormal narrowed ∧ bits = f64From narrowed

namespace Value

mutual

/-- Some float of the value is a half subnormal above the smallest. -/
def HasSubnormal : Value → Prop
  | .float bits => SubnormalFloat bits.toNat
  | .array values => HasSubnormalValues values
  | .object fields => HasSubnormalFields fields
  | _ => False

def HasSubnormalValues : List Value → Prop
  | [] => False
  | value :: rest => value.HasSubnormal ∨ HasSubnormalValues rest

def HasSubnormalFields : List (String × Value) → Prop
  | [] => False
  | (_, value) :: rest => value.HasSubnormal ∨ HasSubnormalFields rest

end

theorem toNativeValues_length (values : List Value) :
    (toNativeValues values).length = values.length := by
  induction values with
  | nil => rfl
  | cons value rest ih => rw [toNativeValues, List.length_cons, ih, List.length_cons]

theorem toNativeFields_length (fields : List (String × Value)) :
    (toNativeFields fields).length = fields.length := by
  induction fields with
  | nil => rfl
  | cons field rest ih =>
      obtain ⟨key, value⟩ := field
      rw [toNativeFields, List.length_cons, ih, List.length_cons]

end Value

theorem ofNat_eq_masked (value : Nat) : UInt8.ofNat value = UInt8.ofNat (value &&& 0xff) := by
  have hmask : value &&& 0xff = value % 2 ^ 8 := Nat.and_two_pow_sub_one_eq_mod _ 8
  rw [hmask]
  exact (UInt8.ofNat_mod_size).symm

theorem head_eq (major value : Nat) : head major value = headBytes major value := by
  unfold head headBytes headTail headAdditional headSize Wire.initialByte
  by_cases h1 : value < 24
  · rw [if_pos (by omega), if_pos h1, if_pos h1]
    rfl
  · rw [if_neg (by omega), if_neg h1, if_neg h1]
    by_cases h2 : value ≤ 0xff
    · rw [if_pos h2, if_pos h2, if_pos h2, ofNat_eq_masked value]
      rfl
    · rw [if_neg h2, if_neg h2, if_neg h2]
      by_cases h3 : value ≤ 0xffff
      · rw [if_pos h3, if_pos h3, if_pos h3]
      · rw [if_neg h3, if_neg h3, if_neg h3]
        by_cases h4 : value ≤ 0xffffffff
        · rw [if_pos h4, if_pos h4, if_pos h4]
        · rw [if_neg h4, if_neg h4, if_neg h4]

/-- What `write_float` writes: the canonical spelling, except that a half subnormal
above the smallest stays single. -/
theorem writeFloat_spec {bits : Nat} (hbits : bits < 2 ^ 64)
    (hfinite : FloatFormat.binary64.isFinite bits = true) :
    ∃ canonical written, canonicalFloatEncoding bits = .ok canonical ∧
      writeFloat bits = .ok (floatBytes written) ∧
      (SubnormalFloat bits → written.width = .single ∧ canonical.width = .half) ∧
      (¬ SubnormalFloat bits → written = canonical) := by
  have hwrite : writeFloat bits =
      if singleExact bits then
        if halfExact (asF32 bits) then .ok (0xf9 :: bigEndianBytes 2 (f32ToHalf (asF32 bits)))
        else .ok (0xfa :: bigEndianBytes 4 (asF32 bits))
      else .ok (0xfb :: bigEndianBytes 8 bits) := by
    rw [writeFloat, hfinite]
    rfl
  have hcanonical := Wire.canonicalFloatEncoding_eq bits
  rw [hfinite] at hcanonical
  simp only [Bool.not_true, Bool.false_eq_true, if_false] at hcanonical
  cases hsingle : singleExact bits with
  | false =>
      have hsame : Wire.singleRepresents bits = false := hsingle
      rw [hsame] at hcanonical
      rw [hsingle] at hwrite
      refine ⟨_, ⟨.double, bits⟩, hcanonical, hwrite, ?_, fun _ => rfl⟩
      rintro ⟨narrowed, hsubnormal, rfl⟩
      have := Wire.singleRepresents_floatToDouble hsubnormal.finite.2.1
      exact absurd (hsame.symm.trans this) Bool.false_ne_true
  | true =>
      have hsame : Wire.singleRepresents bits = true := hsingle
      have hwiden : f64From (asF32 bits) = bits := Wire.floatToDouble_doubleToFloat hsame
      have hnarrowFinite : FloatFormat.binary32.isFinite (asF32 bits) = true := by
        rw [← Wire.isFinite_floatToDouble]
        change FloatFormat.binary64.isFinite (f64From (asF32 bits)) = true
        rw [hwiden, hfinite]
      have hnarrowLt : asF32 bits < 2 ^ 32 := Wire.doubleToFloat_lt hbits
      have hsubnormal : SubnormalFloat bits ↔ HalfSubnormal (asF32 bits) := by
        constructor
        · rintro ⟨narrowed, hnarrowed, rfl⟩
          have hback : asF32 (f64From narrowed) = narrowed :=
            Wire.doubleToFloat_floatToDouble hnarrowed.finite.2.1
          rwa [hback]
        · exact fun h => ⟨asF32 bits, h, hwiden.symm⟩
      have hexact := halfExact_iff hnarrowLt hnarrowFinite
      have hnative : Wire.doubleToFloat bits = asF32 bits := rfl
      rw [hsame, hnative] at hcanonical
      simp only [Bool.not_true, Bool.false_eq_true, if_false] at hcanonical
      rw [hsingle, if_pos rfl] at hwrite
      cases hhalf : Wire.halfRepresents (asF32 bits) with
      | false =>
          rw [if_neg (by rw [hexact, hhalf]; simp)] at hwrite
          rw [hhalf, if_neg Bool.false_ne_true] at hcanonical
          refine ⟨_, ⟨.single, asF32 bits⟩, hcanonical, hwrite, ?_, fun _ => rfl⟩
          intro h
          rw [(hsubnormal.mp h).finite.2.2] at hhalf
          contradiction
      | true =>
          rw [hhalf, if_pos rfl] at hcanonical
          by_cases hnarrow : HalfSubnormal (asF32 bits)
          · rw [if_neg (fun h => (hexact.mp h).2 hnarrow)] at hwrite
            exact ⟨_, ⟨.single, asF32 bits⟩, hcanonical, hwrite, fun _ => ⟨rfl, rfl⟩,
              fun h => absurd (hsubnormal.mpr hnarrow) h⟩
          · rw [if_pos (hexact.mpr ⟨hhalf, hnarrow⟩),
              f32ToHalf_eq hnarrowLt hnarrowFinite hhalf hnarrow] at hwrite
            exact ⟨_, ⟨.half, Wire.floatToHalf (asF32 bits)⟩, hcanonical, hwrite,
              fun h => absurd (hsubnormal.mp h) hnarrow, fun _ => rfl⟩

/-- `encode_value` against the canonical item: longer where a subnormal stays wide, and
the same bytes elsewhere. -/
def Writes (result : Except ProtocolError Bytes) (subnormal : Prop) (canonical : Bytes) :
    Prop :=
  ∃ bytes, result = .ok bytes ∧ Narrows bytes.length subnormal canonical.length ∧
    (¬ subnormal → bytes = canonical)

theorem Writes.same {canonical : Bytes} : Writes (.ok canonical) False canonical :=
  ⟨canonical, rfl, Narrows.refl _ id, fun _ => rfl⟩

theorem Writes.eq_ok_iff {result : Except ProtocolError Bytes} {subnormal : Prop}
    {canonical : Bytes} (h : Writes result subnormal canonical) :
    result = .ok canonical ↔ ¬ subnormal := by
  obtain ⟨bytes, rfl, hnarrows, hsame⟩ := h
  rw [Except.ok.injEq]
  refine ⟨fun hequal hsubnormal => ?_, hsame⟩
  subst hequal
  exact Nat.lt_irrefl _ (hnarrows.2 hsubnormal)

theorem Writes.exists_ok {result : Except ProtocolError Bytes} {subnormal : Prop}
    {canonical : Bytes} (h : Writes result subnormal canonical) :
    ∃ bytes, result = .ok bytes := by
  obtain ⟨bytes, hbytes, -⟩ := h
  exact ⟨bytes, hbytes⟩

theorem Writes.prepend {result whole : Except ProtocolError Bytes} {subnormal : Prop}
    {canonical : Bytes} (lead : Bytes) (h : Writes result subnormal canonical)
    (hwhole : ∀ written, result = .ok written → whole = .ok (lead ++ written)) :
    Writes whole subnormal (lead ++ canonical) := by
  obtain ⟨bytes, hbytes, hnarrows, hsame⟩ := h
  refine ⟨lead ++ bytes, hwhole bytes hbytes, ?_, fun hplain => by rw [hsame hplain]⟩
  rw [List.length_append, List.length_append]
  exact hnarrows.add_left _

theorem Writes.append {left right whole : Except ProtocolError Bytes}
    {leftSub rightSub : Prop} {leftBytes rightBytes : Bytes}
    (hleft : Writes left leftSub leftBytes) (hright : Writes right rightSub rightBytes)
    (hwhole : ∀ first later, left = .ok first → right = .ok later →
      whole = .ok (first ++ later)) :
    Writes whole (leftSub ∨ rightSub) (leftBytes ++ rightBytes) := by
  obtain ⟨first, hfirst, hfirstNarrows, hfirstSame⟩ := hleft
  obtain ⟨later, hlater, hlaterNarrows, hlaterSame⟩ := hright
  refine ⟨first ++ later, hwhole first later hfirst hlater, ?_, fun hplain => ?_⟩
  · rw [List.length_append, List.length_append]
    exact hfirstNarrows.add hlaterNarrows
  · rw [hfirstSame (fun h => hplain (.inl h)), hlaterSame (fun h => hplain (.inr h))]

theorem encodeText_eq (text : String) : encodeText text = textBytes (asBytes text) := by
  rw [encodeText, head_eq, textBytes]

theorem encodeValue_signed (value : Int64) :
    encodeValue (.signed value) = .ok (Wire.Writer.signedItem value).encoding := by
  rw [encodeValue, Wire.Writer.signedItem]
  split
  · next hnonneg =>
    have hsame : value.toUInt64.toNat = value.toInt.toNat :=
      Int64.toNat_toUInt64_of_le (Int64.le_iff_toInt_le.mpr hnonneg)
    rw [head_eq, hsame]
    rfl
  · next hnegative =>
    have hargument : value.toInt.natAbs - 1 = (-(value.toInt + 1)).toNat := by omega
    rw [head_eq, hargument]
    rfl

theorem encodeValue_float {bits : UInt64} (h : (canonicalFloatItem bits.toNat).Canonical) :
    Writes (encodeValue (.float bits)) (SubnormalFloat bits.toNat)
      (canonicalFloatItem bits.toNat).encoding := by
  have hfinite : FloatFormat.binary64.isFinite bits.toNat = true := by
    by_contra hinfinite
    have hfails : canonicalFloatEncoding bits.toNat = .error .invalidFloat := by
      rw [Wire.canonicalFloatEncoding_eq, if_pos (by simpa using hinfinite)]
    rw [canonicalFloatItem, hfails] at h
    exact hinfinite h.2.1
  obtain ⟨canonical, written, hcanonical, hwrite, hsubnormal, hsame⟩ :=
    writeFloat_spec bits.toNat_lt hfinite
  rw [encodeValue, hwrite, canonicalFloatItem, hcanonical]
  dsimp only
  rw [Item.encoding]
  by_cases hwide : SubnormalFloat bits.toNat
  · obtain ⟨hsingle, hhalf⟩ := hsubnormal hwide
    refine ⟨_, rfl, ?_, fun hplain => absurd hwide hplain⟩
    rw [floatBytes_length, floatBytes_length, hsingle, hhalf]
    exact ⟨by decide, fun _ => by decide⟩
  · rw [hsame hwide]
    exact ⟨_, rfl, Narrows.refl _ hwide, fun _ => rfl⟩

mutual

theorem encodeValue_writes : (value : Value) → value.toNative.canonicalItem.Canonical →
    Writes (encodeValue value) value.HasSubnormal value.toNative.canonicalItem.encoding
  | .null, _ => Writes.same
  | .bool false, _ => Writes.same
  | .bool true, _ => Writes.same
  | .signed value, _ => by
      rw [encodeValue_signed]
      exact Writes.same
  | .unsigned value, _ => by
      rw [encodeValue, head_eq]
      exact Writes.same
  | .float _, h => encodeValue_float h
  | .text text, _ => by
      rw [encodeValue, encodeText_eq]
      exact Writes.same
  | .bytes value, _ => by
      rw [encodeValue, head_eq]
      exact Writes.same
  | .array values, h => by
      rw [encodeValue, head_eq, Value.toNative, Wire.Value.canonicalItem, Item.encoding,
        Wire.Value.canonicalItems_length, Value.toNativeValues_length]
      exact (encodeValueArray_writes values h.2).prepend _ fun written hwritten => by
        rw [hwritten]
  | .object fields, h => by
      rw [encodeValue, head_eq, Value.toNative, Wire.Value.canonicalItem, Item.encoding,
        Wire.Value.canonicalMembers_length, Value.toNativeFields_length]
      exact (encodeValueObject_writes fields h.2.2).prepend _ fun written hwritten => by
        rw [hwritten]

theorem encodeValueArray_writes : (values : List Value) →
    Item.WellFormedItems CanonicalFloatEncoding.Canonical
      (Wire.Value.canonicalItems (Value.toNativeValues values)) →
    Writes (encodeValueArray values) (Value.HasSubnormalValues values)
      (Item.encodingItems (Wire.Value.canonicalItems (Value.toNativeValues values)))
  | [], _ => Writes.same
  | value :: rest, h => by
      rw [encodeValueArray, Value.toNativeValues, Wire.Value.canonicalItems,
        Item.encodingItems]
      exact (encodeValue_writes value h.1).append (encodeValueArray_writes rest h.2)
        fun first later hfirst hlater => by rw [hfirst, hlater]

theorem encodeValueObject_writes : (fields : List (String × Value)) →
    Item.WellFormedMembers CanonicalFloatEncoding.Canonical
      (Wire.Value.canonicalMembers (Value.toNativeFields fields)) →
    Writes (encodeValueObject fields) (Value.HasSubnormalFields fields)
      (Item.encodingMembers (Wire.Value.canonicalMembers (Value.toNativeFields fields)))
  | [], _ => Writes.same
  | (key, value) :: rest, h => by
      have hvalue := encodeValue_writes value h.2.1
      have hrest := encodeValueObject_writes rest h.2.2
      obtain ⟨first, hfirst⟩ := hvalue.exists_ok
      obtain ⟨later, hlater⟩ := hrest.exists_ok
      rw [hfirst] at hvalue
      rw [hlater] at hrest
      have hboth := hvalue.append hrest fun _ _ hleft hright => by
        cases hleft
        cases hright
        exact rfl
      rw [Value.toNativeFields, Wire.Value.canonicalMembers, Item.encodingMembers]
      refine hboth.prepend _ fun written hwritten => ?_
      cases hwritten
      rw [encodeValueObject, encodeText_eq, hfirst]
      dsimp only
      rw [hlater]

end

/-- Both encoders write a value alike unless it holds a half subnormal. -/
theorem encoders_agree_iff {value : Value} {limits : Limits} {bytes : Bytes}
    (h : Wire.encode value.toNative limits = .ok bytes) :
    encodeValue value = .ok bytes ↔ ¬ value.HasSubnormal := by
  obtain ⟨item, hspells, rfl⟩ := Wire.encode_eq_ok.mp h
  have hitem := hspells.eq_canonicalItem
  have hcanonical := hspells.1
  rw [hitem] at hcanonical ⊢
  exact (encodeValue_writes value hcanonical).eq_ok_iff

/-- The codecs agree on a message exactly when it spells no half subnormal as a single,
and on a value exactly when it holds no half subnormal above the smallest. -/
theorem codecs_agree_iff (segments : ByteSegments) (value : Value) (limits : Limits) :
    (segments.size ≤ maxRecordWireBytes →
      limits = encodingLimits ∨ limits = decodingLimits segments →
        ((Wire.decode segments limits).toOption =
            (decodeMessage segments.bytes).toOption.map Value.toNative ↔
          ¬ SpellsWideSubnormal segments.bytes)) ∧
    ∀ bytes : Bytes, Wire.encode value.toNative limits = .ok bytes →
      (encodeValue value = .ok bytes ↔ ¬ value.HasSubnormal) := by
  constructor
  · rintro hsize (rfl | rfl)
    · exact decoders_agree_iff (encodingLimits_protocol hsize) hsize
    · exact decoders_agree_iff (decodingLimits_protocol hsize) hsize
  · intro bytes h
    exact encoders_agree_iff h

theorem codecs_agree_on_one :
    ¬ SpellsWideSubnormal [0xf9, 0x3c, 0] ∧ ¬ (Value.float 0x3ff0000000000000).HasSubnormal :=
  have h := codecs_agree_iff ⟨[0xf9, 0x3c, 0], []⟩ (.float 0x3ff0000000000000) encodingLimits
  ⟨(h.1 (by decide) (.inl rfl)).mp rfl, (h.2 [0xf9, 0x3c, 0] rfl).mp rfl⟩

/-- `2 ^ -23`, the half subnormal `0x0002`, as each side spells and reads it. -/
theorem codecs_disagree_on_subnormal :
    Wire.decode ⟨[0xfa, 0x34, 0, 0, 0], []⟩ encodingLimits =
        .error ⟨.nonMinimal, 5, []⟩ ∧
      decodeMessage [0xfa, 0x34, 0, 0, 0] = .ok (.float 0x3e80000000000000) ∧
      Wire.encode (.float 0x3e80000000000000) encodingLimits = .ok [0xf9, 0, 2] ∧
      encodeValue (.float 0x3e80000000000000) = .ok [0xfa, 0x34, 0, 0, 0] :=
  ⟨rfl, rfl, rfl, rfl⟩

end Mmltk.Frontend
