import Mmltk.Wire.ReaderLanguage
import Mmltk.Wire.Writer

namespace Mmltk.Wire

open Mmltk.Foundation

/-! The writer emits the canonical item of a value, and fails only when no
canonical item of it fits the budgets. -/

namespace Destination

def size : Destination → Nat
  | .dynamic bytes => bytes.length
  | .fixed _ bytes => bytes.length
  | .counted size => size

def extend : Destination → Bytes → Destination
  | .dynamic written, bytes => .dynamic (written ++ bytes)
  | .fixed capacity written, bytes => .fixed capacity (written ++ bytes)
  | .counted size, bytes => .counted (size + bytes.length)

/-- Bytes a destination can hold, as far as the destination itself bounds them. -/
def HasRoom : Destination → Prop
  | .dynamic _ => True
  | .fixed capacity bytes => bytes.length ≤ capacity
  | .counted _ => True

instance (destination : Destination) : Decidable destination.HasRoom :=
  match destination with
  | .dynamic _ => isTrue trivial
  | .fixed capacity bytes => inferInstanceAs (Decidable (bytes.length ≤ capacity))
  | .counted _ => isTrue trivial

@[simp] theorem size_extend (destination : Destination) (bytes : Bytes) :
    (destination.extend bytes).size = destination.size + bytes.length := by
  cases destination <;> simp [extend, size]

theorem extend_extend (destination : Destination) (left right : Bytes) :
    (destination.extend left).extend right = destination.extend (left ++ right) := by
  cases destination <;> simp [extend, Nat.add_assoc]

theorem extend_nil (destination : Destination) : destination.extend [] = destination := by
  cases destination <;> simp [extend]

theorem HasRoom.of_extend {destination : Destination} {bytes : Bytes}
    (h : (destination.extend bytes).HasRoom) : destination.HasRoom := by
  cases destination with
  | dynamic written => trivial
  | fixed capacity written =>
      simp only [extend, HasRoom, List.length_append] at h ⊢
      omega
  | counted size => trivial

end Destination

namespace Writer

structure WithinBounds (writer : Writer) : Prop where
  size_le : writer.destination.size ≤ writer.limits.maxBytes
  hasRoom : writer.destination.HasRoom

/-- Between two writers exactly `taken` was appended and `count` items begun. -/
structure Emits (before : Writer) (taken : Bytes) (count : Nat) (after : Writer) : Prop where
  destination_eq : after.destination = before.destination.extend taken
  limits_eq : after.limits = before.limits
  items_eq : after.items = before.items + count
  withinBounds : after.WithinBounds

theorem Emits.refl {writer : Writer} (h : writer.WithinBounds) :
    writer.Emits [] 0 writer :=
  ⟨(Destination.extend_nil _).symm, rfl, rfl, h⟩

theorem Emits.trans {first second third : Writer} {left right : Bytes}
    {leftCount rightCount : Nat} (hleft : first.Emits left leftCount second)
    (hright : second.Emits right rightCount third) :
    first.Emits (left ++ right) (leftCount + rightCount) third where
  destination_eq := by
    rw [hright.destination_eq, hleft.destination_eq, Destination.extend_extend]
  limits_eq := hright.limits_eq.trans hleft.limits_eq
  items_eq := by rw [hright.items_eq, hleft.items_eq, Nat.add_assoc]
  withinBounds := hright.withinBounds

theorem Emits.split {first third : Writer} {left right : Bytes}
    {leftCount rightCount : Nat}
    (h : first.Emits (left ++ right) (leftCount + rightCount) third) :
    ∃ second, first.Emits left leftCount second ∧ second.Emits right rightCount third := by
  have hdestination := h.destination_eq
  rw [← Destination.extend_extend] at hdestination
  have hbounds := h.withinBounds
  refine ⟨⟨first.destination.extend left, first.limits, first.items + leftCount⟩,
    ⟨rfl, rfl, rfl, ?_, ?_⟩, ⟨hdestination, h.limits_eq, ?_, hbounds⟩⟩
  · have hsize := hbounds.size_le
    rw [hdestination, Destination.size_extend, h.limits_eq] at hsize
    exact Nat.le_of_add_right_le hsize
  · have hroom := hbounds.hasRoom
    rw [hdestination] at hroom
    exact hroom.of_extend
  · rw [h.items_eq, Nat.add_assoc]

theorem Emits.after_eq {before after : Writer} {taken : Bytes} {count : Nat}
    (h : before.Emits taken count after) :
    after = ⟨before.destination.extend taken, before.limits, before.items + count⟩ := by
  obtain ⟨destination, limits, items⟩ := after
  rw [Writer.mk.injEq]
  exact ⟨h.destination_eq, h.limits_eq, h.items_eq⟩

theorem fitsRemaining_eq_true {value used limit : Nat} :
    fitsRemaining value used limit = true ↔ used + value ≤ limit := by
  simp only [fitsRemaining, Bool.and_eq_true, decide_eq_true_eq]
  omega

/-- What `append` checks, destination by destination. -/
theorem append_eq (writer : Writer) (bytes : Bytes) :
    writer.append bytes =
      if writer.destination.size + bytes.length ≤ writer.limits.maxBytes ∧
          (writer.destination.extend bytes).HasRoom then
        .ok { writer with destination := writer.destination.extend bytes }
      else .error (encodeError .limitExceeded) := by
  obtain ⟨destination, limits, items⟩ := writer
  cases destination with
  | dynamic written =>
      by_cases hfits : fitsRemaining bytes.length written.length limits.maxBytes = true
      · simp [append, destinationSize, Destination.size, Destination.extend,
          Destination.HasRoom, hfits, fitsRemaining_eq_true.mp hfits]
      · simp [append, destinationSize, Destination.size, hfits,
          mt fitsRemaining_eq_true.mpr hfits]
  | counted size =>
      by_cases hfits : fitsRemaining bytes.length size limits.maxBytes = true
      · simp [append, destinationSize, Destination.size, Destination.extend,
          Destination.HasRoom, hfits, fitsRemaining_eq_true.mp hfits]
      · simp [append, destinationSize, Destination.size, hfits,
          mt fitsRemaining_eq_true.mpr hfits]
  | fixed capacity written =>
      by_cases hfits : fitsRemaining bytes.length written.length limits.maxBytes = true
      · by_cases hroom : written.length + bytes.length ≤ capacity
        · have hfree : ¬ (capacity < written.length ∨
              capacity - written.length < bytes.length) := by omega
          simp [append, destinationSize, Destination.size, Destination.extend,
            Destination.HasRoom, hfits, fitsRemaining_eq_true.mp hfits, hroom, hfree]
        · have hfull : capacity < written.length ∨
              capacity - written.length < bytes.length := by omega
          simp [append, destinationSize, Destination.extend,
            Destination.HasRoom, hfits, hroom, hfull]
      · simp [append, destinationSize, Destination.size, hfits,
          mt fitsRemaining_eq_true.mpr hfits]

theorem append_eq_ok {before after : Writer} {bytes : Bytes} :
    before.append bytes = .ok after ↔ before.Emits bytes 0 after := by
  rw [append_eq]
  constructor
  · intro h
    split at h
    · next hfits =>
      cases h
      refine ⟨rfl, rfl, rfl, ?_, hfits.2⟩
      rw [Destination.size_extend]
      exact hfits.1
    · contradiction
  · intro h
    have hbounds := h.withinBounds
    rw [h.after_eq] at hbounds ⊢
    obtain ⟨hsize, hroom⟩ := hbounds
    rw [Destination.size_extend] at hsize
    rw [if_pos ⟨hsize, hroom⟩]
    rfl

theorem put_eq_ok {before after : Writer} {value : UInt8} :
    before.put value = .ok after ↔ before.Emits [value] 0 after := append_eq_ok

theorem putBigEndian_eq_ok {value count : Nat} {before after : Writer}
    (hbounds : before.WithinBounds) :
    putBigEndian value count before = .ok after ↔
      before.Emits (bigEndianBytes count value) 0 after := by
  induction count generalizing before with
  | zero =>
      rw [putBigEndian, Except.ok.injEq]
      constructor
      · rintro rfl
        exact Emits.refl hbounds
      · intro h
        rw [h.after_eq, bigEndianBytes, Destination.extend_nil, Nat.add_zero]
  | succ count ih =>
      rw [putBigEndian, bigEndianBytes]
      constructor
      · intro h
        split at h
        · contradiction
        · next middle hput =>
          have hlead := put_eq_ok.mp hput
          exact hlead.trans ((ih hlead.withinBounds).mp h)
      · intro h
        obtain ⟨middle, hlead, htail⟩ := Emits.split
          (show before.Emits ([_] ++ bigEndianBytes count value) (0 + 0) after from h)
        rw [put_eq_ok.mpr hlead]
        exact (ih hlead.withinBounds).mpr htail

theorem head_additional (argument : Nat) :
    (if headSize argument = 1 then argument
      else additionalInfoForHeadSize (headSize argument)) = headAdditional argument := by
  unfold headSize headAdditional
  split_ifs <;> first | rfl | contradiction

theorem head_eq_ok {before after : Writer} {major argument : Nat} :
    before.head major argument = .ok after ↔
      before.Emits (headBytes major argument) 0 after := by
  unfold head
  dsimp only
  rw [head_additional]
  constructor
  · intro h
    split at h
    · contradiction
    · next middle hput =>
      have hlead := put_eq_ok.mp hput
      exact hlead.trans ((putBigEndian_eq_ok hlead.withinBounds).mp h)
  · intro h
    obtain ⟨middle, hlead, htail⟩ := Emits.split
      (show before.Emits ([initialByte major (headAdditional argument)] ++ headTail argument)
        (0 + 0) after from h)
    rw [← initialByte, put_eq_ok.mpr hlead]
    exact (putBigEndian_eq_ok hlead.withinBounds).mpr htail

theorem beginItem_eq_ok {before after : Writer} {depth : Nat} :
    before.beginItem depth = .ok after ↔
      depth ≤ before.limits.maxDepth ∧ before.items < before.limits.maxItems ∧
        after = { before with items := before.items + 1 } := by
  unfold beginItem
  split
  · simp
    omega
  · split
    · simp
      omega
    · rw [Except.ok.injEq]
      exact ⟨fun h => ⟨by omega, by omega, h.symm⟩, fun h => h.2.2.symm⟩

theorem writeTextBody_eq_ok {before after : Writer} {text : Bytes} :
    before.writeTextBody text = .ok after ↔
      Text.WellFormed text ∧ before.Emits (textBytes text) 0 after := by
  unfold writeTextBody writeTextHead
  rw [← Text.validUtf8_iff]
  constructor
  · intro h
    split at h
    · contradiction
    · next middle hhead =>
      split at hhead
      · contradiction
      · next hvalid =>
        rw [Bool.not_eq_true, Bool.not_eq_false'] at hvalid
        exact ⟨hvalid, (head_eq_ok.mp hhead).trans (append_eq_ok.mp h)⟩
  · rintro ⟨hvalid, h⟩
    obtain ⟨middle, hhead, hpayload⟩ := Emits.split
      (show before.Emits (headBytes 3 text.length ++ text) (0 + 0) after from h)
    rw [hvalid]
    simp only [Bool.not_true, Bool.false_eq_true, if_false, head_eq_ok.mpr hhead]
    exact append_eq_ok.mpr hpayload

theorem writeBytesBody_eq_ok {before after : Writer} {value : Bytes} :
    before.writeBytesBody value = .ok after ↔
      before.Emits (headBytes 2 value.length ++ value) 0 after := by
  unfold writeBytesBody
  constructor
  · intro h
    split at h
    · contradiction
    · next middle hhead => exact (head_eq_ok.mp hhead).trans (append_eq_ok.mp h)
  · intro h
    obtain ⟨middle, hhead, hpayload⟩ := Emits.split
      (show before.Emits (headBytes 2 value.length ++ value) (0 + 0) after from h)
    rw [head_eq_ok.mpr hhead]
    exact append_eq_ok.mpr hpayload

theorem writeFloatBody_eq_ok {before after : Writer} {value : Nat} :
    before.writeFloatBody value = .ok after ↔
      ∃ encoding, canonicalFloatEncoding value = .ok encoding ∧
        before.Emits (floatBytes encoding) 0 after := by
  have hlead : ∀ width : CanonicalFloatWidth,
      (if width.bytes = 2 then (0xf9 : UInt8) else if width.bytes = 4 then 0xfa else 0xfb) =
        floatLead width := by
    intro width
    cases width <;> rfl
  unfold writeFloatBody
  constructor
  · intro h
    split at h
    · contradiction
    · next encoding hencoding =>
      dsimp only at h
      rw [hlead] at h
      split at h
      · contradiction
      · next middle hput =>
        have hfirst := put_eq_ok.mp hput
        exact ⟨encoding, hencoding,
          hfirst.trans ((putBigEndian_eq_ok hfirst.withinBounds).mp h)⟩
  · rintro ⟨encoding, hencoding, h⟩
    obtain ⟨middle, hfirst, htail⟩ := Emits.split
      (show before.Emits ([floatLead encoding.width] ++
        bigEndianBytes encoding.width.bytes encoding.bits) (0 + 0) after from h)
    rw [hencoding]
    dsimp only
    rw [hlead, put_eq_ok.mpr hfirst]
    exact (putBigEndian_eq_ok hfirst.withinBounds).mpr htail

theorem writeArrayBody_eq_ok {before after : Writer} {size : Nat} :
    before.writeArrayBody size = .ok after ↔
      before.items + size ≤ before.limits.maxItems ∧
        before.Emits (headBytes 4 size) 0 after := by
  rw [← head_eq_ok, writeArrayBody, fitsRemaining]
  constructor
  · intro h
    split at h
    · contradiction
    · next hfits =>
      simp only [Bool.not_eq_true, Bool.not_eq_false', Bool.and_eq_true,
        decide_eq_true_eq] at hfits
      exact ⟨by omega, h⟩
  · rintro ⟨hfits, h⟩
    rw [if_neg (by simp; omega), h]

theorem duplicateObjectKey_eq_false {fields : List (Bytes × Value)} :
    duplicateObjectKey fields = false ↔ (fields.map Prod.fst).Nodup := by
  induction fields with
  | nil => simp [duplicateObjectKey]
  | cons field rest ih =>
      obtain ⟨name, value⟩ := field
      rw [duplicateObjectKey, Bool.or_eq_false_iff, ih, List.map_cons, List.nodup_cons]
      apply and_congr_left
      intro _
      rw [List.any_eq_false]
      constructor
      · intro h hmember
        obtain ⟨other, hother, hname⟩ := List.mem_map.mp hmember
        exact h other hother (beq_iff_eq.mpr hname)
      · intro h other hother hname
        exact h (List.mem_map.mpr ⟨other, hother, beq_iff_eq.mp hname⟩)

theorem writeObjectBody_eq_ok {before after : Writer} {size : Nat}
    {fields : List (Bytes × Value)} :
    before.writeObjectBody size fields = .ok after ↔
      (fields.map Prod.fst).Nodup ∧ before.items + 2 * size ≤ before.limits.maxItems ∧
        before.Emits (headBytes 5 size) 0 after := by
  rw [← head_eq_ok, ← duplicateObjectKey_eq_false, writeObjectBody, validateObjectEncoding]
  constructor
  · intro h
    split at h
    · contradiction
    · next hunique =>
      rw [Bool.not_eq_true] at hunique
      split at h
      · contradiction
      · next hvalid =>
        split at hvalid
        · contradiction
        · next hfits => exact ⟨hunique, by omega, h⟩
  · rintro ⟨hunique, hfits, h⟩
    rw [hunique, if_neg Bool.false_ne_true, if_neg (by omega)]
    exact h

/-- A write within budget: what was appended, and how deep and how many it was. -/
structure Produces (before : Writer) (depth : Nat) (taken : Bytes) (count height : Nat)
    (after : Writer) : Prop where
  emits : before.Emits taken count after
  depth_le : depth + height ≤ before.limits.maxDepth
  items_le : after.items ≤ before.limits.maxItems

theorem beginItem_sound {before after : Writer} {depth : Nat}
    (hbounds : before.WithinBounds) (h : before.beginItem depth = .ok after) :
    before.Produces depth [] 1 0 after := by
  obtain ⟨hdepth, hitems, rfl⟩ := beginItem_eq_ok.mp h
  refine ⟨⟨(Destination.extend_nil _).symm, rfl, rfl, ?_⟩, hdepth, hitems⟩
  exact ⟨hbounds.size_le, hbounds.hasRoom⟩

theorem Emits.taken_le {before after : Writer} {taken : Bytes} {count : Nat}
    (h : before.Emits taken count after) : taken.length ≤ before.limits.maxBytes := by
  have hsize := h.withinBounds.size_le
  rw [h.destination_eq, h.limits_eq, Destination.size_extend] at hsize
  omega

theorem Emits.taken_lt {before after : Writer} {taken : Bytes} {count : Nat}
    (h : before.Emits taken count after) : taken.length < 2 ^ 64 :=
  Nat.lt_of_le_of_lt h.taken_le before.limits.maxBytes_lt

theorem Produces.scalar {before middle after : Writer} {depth : Nat} {item : Item}
    (hbegin : before.Produces depth [] 1 0 middle) (hscalar : item.isScalar = true)
    (hbody : middle.Emits item.encoding 0 after) :
    before.Produces depth item.encoding item.count item.height after := by
  have hsizes : item.count = 1 ∧ item.height = 0 := by
    cases item <;> first | exact ⟨rfl, rfl⟩ | contradiction
  rw [hsizes.1, hsizes.2]
  refine ⟨hbegin.emits.trans hbody, hbegin.depth_le, ?_⟩
  rw [hbody.items_eq]
  exact hbegin.items_le

/-- A container's head, and then its content one level down. -/
theorem Produces.container {before middle inside after : Writer} {depth count height : Nat}
    {head body : Bytes} (hbegin : before.Produces depth [] 1 0 middle)
    (hhead : middle.Emits head 0 inside)
    (hbody : inside.Produces depth body count height after) :
    before.Produces depth (head ++ body) (1 + count) height after := by
  have hlimits : inside.limits = before.limits := hhead.limits_eq.trans hbegin.emits.limits_eq
  obtain ⟨hemits, hdepth, hitems⟩ := hbody
  rw [hlimits] at hdepth hitems
  refine ⟨?_, hdepth, hitems⟩
  have hwhole := (hbegin.emits.trans hhead).trans hemits
  rwa [List.nil_append, Nat.add_zero] at hwhole

/-- The integer item the writer chooses for a signed value. -/
def signedItem (value : Int64) : Item :=
  if 0 ≤ value.toInt then .unsigned value.toInt.toNat
  else .negative (-(value.toInt + 1)).toNat

theorem signedItem_isScalar (value : Int64) : (signedItem value).isScalar = true := by
  unfold signedItem
  split <;> rfl

theorem signedItem_canonical (value : Int64) : (signedItem value).Canonical := by
  have hupper := value.toInt_lt
  have hlower := value.le_toInt
  unfold signedItem
  split
  · show value.toInt.toNat < 2 ^ 64
    omega
  · show (-(value.toInt + 1)).toNat < 2 ^ 63
    omega

theorem signedItem_value (value : Int64) :
    (signedItem value).value = Value.ofSigned value := by
  unfold signedItem
  split
  · next hnonneg =>
    have hsame : value.toUInt64.toNat = value.toInt.toNat :=
      Int64.toNat_toUInt64_of_le (Int64.le_iff_toInt_le.mpr hnonneg)
    have hbound : value.toInt.toNat < UInt64.size := by
      have := value.toInt_lt
      rw [UInt64.size]
      omega
    rw [Item.value, Value.ofSigned, if_neg (by omega), Value.unsigned.injEq,
      ← UInt64.toNat_inj, hsame, UInt64.toNat_ofNat_of_lt' hbound]
  · next hneg =>
    rw [Item.value]
    congr 1
    have hvalue : -1 - ((-(value.toInt + 1)).toNat : Int) = value.toInt := by omega
    rw [hvalue, Int64.ofInt_toInt]

theorem writeSignedBody_eq_ok {before after : Writer} {value : Int64} :
    before.writeSignedBody value = .ok after ↔
      before.Emits (signedItem value).encoding 0 after := by
  unfold writeSignedBody signedIntegerEncoding signedItem
  dsimp only
  split <;> exact head_eq_ok

theorem valueItems_length (items : List Item) :
    (Item.valueItems items).length = items.length := by
  induction items with
  | nil => rfl
  | cons item rest ih => rw [Item.valueItems, List.length_cons, ih, List.length_cons]

theorem normalizeItems_length (items : List Value) :
    (Value.normalizeItems items).length = items.length := by
  induction items with
  | nil => rfl
  | cons item rest ih => rw [Value.normalizeItems, List.length_cons, ih, List.length_cons]

theorem valueMembers_keys (members : List (Bytes × Item)) :
    (Item.valueMembers members).map Prod.fst = members.map Prod.fst := by
  induction members with
  | nil => rfl
  | cons member rest ih => rw [Item.valueMembers, List.map_cons, ih, List.map_cons]

theorem normalizeFields_keys (fields : List (Bytes × Value)) :
    (Value.normalizeFields fields).map Prod.fst = fields.map Prod.fst := by
  induction fields with
  | nil => rfl
  | cons field rest ih => rw [Value.normalizeFields, List.map_cons, ih, List.map_cons]

theorem writeKey_sound {before after : Writer} {depth : Nat} {key : Bytes}
    (hbounds : before.WithinBounds) (h : before.writeKey key depth = .ok after) :
    (key.length < 2 ^ 64 ∧ Text.WellFormed key) ∧
      before.Produces depth (textBytes key) 1 0 after := by
  unfold writeKey at h
  split at h
  · contradiction
  · next middle hbegin =>
    have hstart := beginItem_sound hbounds hbegin
    obtain ⟨htext, hbody⟩ := writeTextBody_eq_ok.mp h
    have hlength : key.length < 2 ^ 64 := by
      have := hbody.taken_lt
      rw [textBytes, List.length_append] at this
      omega
    exact ⟨⟨hlength, htext⟩,
      hstart.scalar (show (Item.text key).isScalar = true from rfl) hbody⟩

mutual

theorem writeItem_sound (value : Value) {depth : Nat} {before after : Writer}
    (hbounds : before.WithinBounds) (h : writeItem value depth before = .ok after) :
    ∃ item : Item, item.Canonical ∧ item.value = value.normalize ∧
      before.Produces depth item.encoding item.count item.height after := by
  rw [writeItem] at h
  split at h
  · contradiction
  · next middle hbegin =>
    have hstart := beginItem_sound hbounds hbegin
    cases value with
    | null =>
        exact ⟨.null, trivial, rfl, hstart.scalar rfl (put_eq_ok.mp h)⟩
    | bool value =>
        exact ⟨.bool value, trivial, rfl, hstart.scalar rfl (put_eq_ok.mp h)⟩
    | signed value =>
        exact ⟨signedItem value, signedItem_canonical value, signedItem_value value,
          hstart.scalar (signedItem_isScalar value) (writeSignedBody_eq_ok.mp h)⟩
    | unsigned value =>
        refine ⟨.unsigned value.toNat, value.toNat_lt, ?_,
          hstart.scalar rfl (head_eq_ok.mp h)⟩
        rw [Item.value, UInt64.ofNat_toNat, Value.normalize]
    | float bits =>
        obtain ⟨encoding, hencoding, hbody⟩ := writeFloatBody_eq_ok.mp h
        obtain ⟨hcanonical, hvalue⟩ :=
          canonicalFloatEncoding_sound bits.toNat_lt hencoding
        refine ⟨.float encoding, hcanonical, ?_, hstart.scalar rfl hbody⟩
        rw [Item.value, hvalue, UInt64.ofNat_toNat, Value.normalize]
    | text value =>
        obtain ⟨htext, hbody⟩ := writeTextBody_eq_ok.mp h
        have hlength : value.length < 2 ^ 64 := by
          have := hbody.taken_lt
          rw [textBytes, List.length_append] at this
          omega
        exact ⟨.text value, ⟨hlength, htext⟩, rfl, hstart.scalar rfl hbody⟩
    | bytes value =>
        have hbody := writeBytesBody_eq_ok.mp h
        have hlength : value.length < 2 ^ 64 := by
          have := hbody.taken_lt
          rw [List.length_append] at this
          omega
        exact ⟨.bytes value, hlength, rfl, hstart.scalar rfl hbody⟩
    | array values =>
        dsimp only at h
        split at h
        · contradiction
        · next inside hbody =>
          obtain ⟨hfits, hhead⟩ := writeArrayBody_eq_ok.mp hbody
          have hlimits := hstart.emits.limits_eq
          have hlength : values.length < 2 ^ 64 := by
            have := middle.limits.maxItems_lt
            omega
          have hdepth : depth ≤ inside.limits.maxDepth := by
            rw [hhead.limits_eq, hlimits]
            exact hstart.depth_le
          have hbudget : inside.items ≤ inside.limits.maxItems := by
            rw [hhead.items_eq, hhead.limits_eq]
            omega
          obtain ⟨items, hitems, hvalues, hcount, hproduces⟩ :=
            writeItems_sound values hhead.withinBounds hdepth hbudget h
          refine ⟨.array items, ⟨by omega, hitems⟩, ?_, ?_⟩
          · rw [Item.value, hvalues, Value.normalize]
          · rw [Item.encoding, hcount]
            exact hstart.container hhead hproduces
    | object fields =>
        dsimp only at h
        split at h
        · contradiction
        · next inside hbody =>
          obtain ⟨hunique, hfits, hhead⟩ := writeObjectBody_eq_ok.mp hbody
          have hlimits := hstart.emits.limits_eq
          have hlength : fields.length < 2 ^ 64 := by
            have := middle.limits.maxItems_lt
            omega
          have hdepth : depth ≤ inside.limits.maxDepth := by
            rw [hhead.limits_eq, hlimits]
            exact hstart.depth_le
          have hbudget : inside.items ≤ inside.limits.maxItems := by
            rw [hhead.items_eq, hhead.limits_eq]
            omega
          obtain ⟨members, hmembers, hvalues, hkeys, hproduces⟩ :=
            writeFields_sound fields hhead.withinBounds hdepth hbudget h
          have hcount : members.length = fields.length := by
            have := congrArg List.length hkeys
            rwa [List.length_map, List.length_map] at this
          refine ⟨.object members, ⟨by omega, by rwa [hkeys], hmembers⟩, ?_, ?_⟩
          · rw [Item.value, hvalues, Value.normalize]
          · rw [Item.encoding, hcount]
            exact hstart.container hhead hproduces

theorem writeItems_sound (values : List Value) {depth : Nat} {before after : Writer}
    (hbounds : before.WithinBounds) (hdepth : depth ≤ before.limits.maxDepth)
    (hbudget : before.items ≤ before.limits.maxItems)
    (h : writeItems values (depth + 1) before = .ok after) :
    ∃ items : List Item, Item.WellFormedItems CanonicalFloatEncoding.Canonical items ∧
      Item.valueItems items = Value.normalizeItems values ∧
      items.length = values.length ∧
      before.Produces depth (Item.encodingItems items) (Item.countItems items)
        (Item.heightItems items) after := by
  match values with
  | [] =>
      rw [writeItems, Except.ok.injEq] at h
      subst h
      exact ⟨[], trivial, rfl, rfl, Emits.refl hbounds, hdepth, hbudget⟩
  | value :: rest =>
      rw [writeItems] at h
      split at h
      · contradiction
      · next middle hfirst =>
        obtain ⟨item, hitem, hvalue, hproduced⟩ := writeItem_sound value hbounds hfirst
        have hlimits := hproduced.emits.limits_eq
        obtain ⟨items, hitems, hvalues, hcount, hlater⟩ :=
          writeItems_sound rest hproduced.emits.withinBounds (by rwa [hlimits])
            (by rw [hlimits]; exact hproduced.items_le) h
        refine ⟨item :: items, ⟨hitem, hitems⟩, ?_, ?_,
          hproduced.emits.trans hlater.emits, ?_, ?_⟩
        · rw [Item.valueItems, hvalue, hvalues, Value.normalizeItems]
        · rw [List.length_cons, hcount, List.length_cons]
        · have := hproduced.depth_le
          have := hlater.depth_le
          rw [hlimits] at this
          rw [Item.heightItems]
          omega
        · rw [← hlimits]
          exact hlater.items_le

theorem writeFields_sound (fields : List (Bytes × Value)) {depth : Nat}
    {before after : Writer}
    (hbounds : before.WithinBounds) (hdepth : depth ≤ before.limits.maxDepth)
    (hbudget : before.items ≤ before.limits.maxItems)
    (h : writeFields fields (depth + 1) before = .ok after) :
    ∃ members : List (Bytes × Item),
      Item.WellFormedMembers CanonicalFloatEncoding.Canonical members ∧
      Item.valueMembers members = Value.normalizeFields fields ∧
      members.map Prod.fst = fields.map Prod.fst ∧
      before.Produces depth (Item.encodingMembers members) (Item.countMembers members)
        (Item.heightMembers members) after := by
  match fields with
  | [] =>
      rw [writeFields, Except.ok.injEq] at h
      subst h
      exact ⟨[], trivial, rfl, rfl, Emits.refl hbounds, hdepth, hbudget⟩
  | (key, value) :: rest =>
      rw [writeFields] at h
      split at h
      · contradiction
      · next afterKey hkeyWrite =>
        obtain ⟨hkey, hkeyProduced⟩ := writeKey_sound hbounds hkeyWrite
        have hkeyLimits := hkeyProduced.emits.limits_eq
        split at h
        · contradiction
        · next middle hfirst =>
          obtain ⟨item, hitem, hvalue, hproduced⟩ :=
            writeItem_sound value hkeyProduced.emits.withinBounds hfirst
          have hlimits := hproduced.emits.limits_eq.trans hkeyLimits
          obtain ⟨members, hmembers, hvalues, hkeys, hlater⟩ :=
            writeFields_sound rest hproduced.emits.withinBounds (by rwa [hlimits])
              (by rw [hproduced.emits.limits_eq]; exact hproduced.items_le) h
          refine ⟨(key, item) :: members, ⟨hkey, hitem, hmembers⟩, ?_, ?_,
            hkeyProduced.emits.trans (hproduced.emits.trans hlater.emits), ?_, ?_⟩
          · rw [Item.valueMembers, hvalue, hvalues, Value.normalizeFields]
          · rw [List.map_cons, hkeys, List.map_cons]
          · have := hproduced.depth_le
            rw [hkeyLimits] at this
            have := hlater.depth_le
            rw [hlimits] at this
            rw [Item.heightMembers]
            omega
          · rw [← hlimits]
            exact hlater.items_le

end

/-! Completeness: the value of a canonical item that fits is written as that item. -/

theorem beginItem_complete {before after : Writer} {depth count : Nat} {taken : Bytes}
    (hdepth : depth ≤ before.limits.maxDepth) (hbudget : after.items ≤ before.limits.maxItems)
    (h : before.Emits taken (1 + count) after) :
    ∃ middle, before.beginItem depth = .ok middle ∧ middle.limits = before.limits ∧
      middle.Emits taken count after := by
  obtain ⟨middle, hbegin, hbody⟩ :=
    Emits.split (show before.Emits ([] ++ taken) (1 + count) after from h)
  refine ⟨middle, beginItem_eq_ok.mpr ⟨hdepth, ?_, ?_⟩, hbegin.limits_eq, hbody⟩
  · have := h.items_eq
    omega
  · rw [hbegin.after_eq, Destination.extend_nil]

theorem writeKey_complete {before after : Writer} {depth : Nat} {key : Bytes}
    (hkey : Text.WellFormed key) (hdepth : depth ≤ before.limits.maxDepth)
    (hbudget : after.items ≤ before.limits.maxItems)
    (h : before.Emits (textBytes key) 1 after) :
    before.writeKey key depth = .ok after := by
  obtain ⟨middle, hbegin, -, hbody⟩ :=
    beginItem_complete hdepth hbudget
      (show before.Emits (textBytes key) (1 + 0) after from h)
  rw [writeKey, hbegin]
  exact writeTextBody_eq_ok.mpr ⟨hkey, hbody⟩

/-- A negative item's value is signed, and the writer picks the same item for it. -/
theorem negative_value {argument : Nat} (h : argument < 2 ^ 63) :
    (Item.negative argument).value = .signed (Int64.ofInt (-1 - (argument : Int))) ∧
      signedItem (Int64.ofInt (-1 - (argument : Int))) = .negative argument := by
  have hround : (Int64.ofInt (-1 - (argument : Int))).toInt = -1 - (argument : Int) :=
    Int64.toInt_ofInt_of_le (by omega) (by omega)
  constructor
  · rw [Item.value, Value.ofSigned, hround, if_pos (by omega)]
  · rw [signedItem, hround, if_neg (by omega)]
    congr 1
    omega

mutual

theorem writeItem_complete (item : Item) {depth : Nat} {before after : Writer}
    (hitem : item.Canonical) (hdepth : depth + item.height ≤ before.limits.maxDepth)
    (hbudget : after.items ≤ before.limits.maxItems)
    (h : before.Emits item.encoding item.count after) :
    writeItem item.value depth before = .ok after := by
  have hone : 1 + (item.count - 1) = item.count := by
    cases item <;> simp only [Item.count] <;> omega
  rw [← hone] at h
  obtain ⟨middle, hbegin, hlimits, hbody⟩ :=
    beginItem_complete (show depth ≤ _ by omega) hbudget h
  rw [writeItem, hbegin]
  cases item with
  | null => exact put_eq_ok.mpr hbody
  | bool value => exact put_eq_ok.mpr hbody
  | unsigned argument =>
      rw [Item.value]
      dsimp only
      rw [UInt64.toNat_ofNat_of_lt' hitem]
      exact head_eq_ok.mpr hbody
  | negative argument =>
      obtain ⟨hvalue, hsame⟩ := negative_value hitem
      rw [hvalue]
      dsimp only
      rw [writeSignedBody_eq_ok, hsame]
      exact hbody
  | float encoding =>
      rw [Item.value]
      dsimp only
      rw [UInt64.toNat_ofNat_of_lt' (CanonicalFloatEncoding.value_lt hitem)]
      exact writeFloatBody_eq_ok.mpr ⟨encoding, canonicalFloatEncoding_complete hitem, hbody⟩
  | bytes payload => exact writeBytesBody_eq_ok.mpr hbody
  | text payload => exact writeTextBody_eq_ok.mpr ⟨hitem.2, hbody⟩
  | array items =>
      rw [Item.count, Nat.add_sub_cancel_left, ← Nat.zero_add (Item.countItems items)] at hbody
      obtain ⟨inside, hhead, hcontent⟩ := Emits.split
        (show middle.Emits (headBytes 4 items.length ++ Item.encodingItems items) _ after
          from hbody)
      have hinside : inside.limits = before.limits := hhead.limits_eq.trans hlimits
      rw [Item.value]
      dsimp only
      rw [valueItems_length, writeArrayBody_eq_ok.mpr ⟨?_, hhead⟩]
      · exact writeItems_complete items hitem.2 (by rw [hinside]; exact hdepth)
          (by rw [hinside]; exact hbudget) hcontent
      · have := Reader.length_le_countItems items
        have := hbody.items_eq
        rw [hlimits]
        omega
  | object members =>
      rw [Item.count, Nat.add_sub_cancel_left, ← Nat.zero_add (Item.countMembers members)] at hbody
      obtain ⟨inside, hhead, hcontent⟩ := Emits.split
        (show middle.Emits (headBytes 5 members.length ++ Item.encodingMembers members) _ after
          from hbody)
      have hinside : inside.limits = before.limits := hhead.limits_eq.trans hlimits
      have hcount : (Item.valueMembers members).length = members.length := by
        have := congrArg List.length (valueMembers_keys members)
        rwa [List.length_map, List.length_map] at this
      rw [Item.value]
      dsimp only
      rw [hcount, writeObjectBody_eq_ok.mpr ⟨?_, ?_, hhead⟩]
      · exact writeFields_complete members hitem.2.2 (by rw [hinside]; exact hdepth)
          (by rw [hinside]; exact hbudget) hcontent
      · rw [valueMembers_keys]
        exact hitem.2.1
      · have := Reader.two_mul_length_le_countMembers members
        have := hbody.items_eq
        rw [hlimits]
        omega

theorem writeItems_complete (items : List Item) {depth : Nat} {before after : Writer}
    (hitems : Item.WellFormedItems CanonicalFloatEncoding.Canonical items)
    (hdepth : depth + Item.heightItems items ≤ before.limits.maxDepth)
    (hbudget : after.items ≤ before.limits.maxItems)
    (h : before.Emits (Item.encodingItems items) (Item.countItems items) after) :
    writeItems (Item.valueItems items) (depth + 1) before = .ok after := by
  match items with
  | [] =>
      rw [Item.valueItems, writeItems, Except.ok.injEq, h.after_eq, Item.encodingItems,
        Item.countItems, Destination.extend_nil, Nat.add_zero]
  | item :: rest =>
      rw [Item.heightItems] at hdepth
      obtain ⟨middle, hfirst, hlater⟩ := Emits.split
        (show before.Emits (item.encoding ++ Item.encodingItems rest)
          (item.count + Item.countItems rest) after from h)
      have hmiddle : middle.items ≤ before.limits.maxItems := by
        have := hlater.items_eq
        omega
      rw [Item.valueItems, writeItems,
        writeItem_complete item hitems.1 (by omega) hmiddle hfirst]
      exact writeItems_complete rest hitems.2 (by rw [hfirst.limits_eq]; omega)
        (by rw [hfirst.limits_eq]; exact hbudget) hlater

theorem writeFields_complete (members : List (Bytes × Item)) {depth : Nat}
    {before after : Writer}
    (hmembers : Item.WellFormedMembers CanonicalFloatEncoding.Canonical members)
    (hdepth : depth + Item.heightMembers members ≤ before.limits.maxDepth)
    (hbudget : after.items ≤ before.limits.maxItems)
    (h : before.Emits (Item.encodingMembers members) (Item.countMembers members) after) :
    writeFields (Item.valueMembers members) (depth + 1) before = .ok after := by
  match members with
  | [] =>
      rw [Item.valueMembers, writeFields, Except.ok.injEq, h.after_eq, Item.encodingMembers,
        Item.countMembers, Destination.extend_nil, Nat.add_zero]
  | (key, item) :: rest =>
      rw [Item.heightMembers] at hdepth
      obtain ⟨hkey, hitem, hrest⟩ := hmembers
      obtain ⟨afterKey, hkeyEmits, htail⟩ := Emits.split
        (show before.Emits (textBytes key ++ (item.encoding ++ Item.encodingMembers rest))
          (1 + (item.count + Item.countMembers rest)) after from h)
      obtain ⟨middle, hfirst, hlater⟩ := htail.split
      have hafterKey : afterKey.items ≤ before.limits.maxItems := by
        have := htail.items_eq
        omega
      have hmiddle : middle.items ≤ before.limits.maxItems := by
        have := hlater.items_eq
        omega
      have hlimits : middle.limits = before.limits :=
        hfirst.limits_eq.trans hkeyEmits.limits_eq
      rw [Item.valueMembers, writeFields,
        writeKey_complete hkey.2 (by omega) hafterKey hkeyEmits]
      dsimp only
      rw [writeItem_complete item hitem (by rw [hkeyEmits.limits_eq]; omega)
        (by rw [hkeyEmits.limits_eq]; exact hmiddle) hfirst]
      exact writeFields_complete rest hrest (by rw [hlimits]; omega)
        (by rw [hlimits]; exact hbudget) hlater

end

end Writer

end Mmltk.Wire
