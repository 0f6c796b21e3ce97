import Mmltk.Frontend.DecoderSpec

namespace Mmltk.Frontend

open Mmltk.Foundation
open Mmltk.Wire (Item CanonicalFloatEncoding headBytes headTail headAdditional initialByte
  floatLead textBytes)

/-! The frontend's decoder accepts the wire grammar under its own float test. -/

namespace Value

mutual

/-- The wire value a frontend value stands for. -/
def toNative : Value → Wire.Value
  | .null => .null
  | .bool value => .bool value
  | .signed value => .signed value
  | .unsigned value => .unsigned value
  | .float bits => .float bits
  | .text value => .text (asBytes value)
  | .bytes value => .bytes value
  | .array values => .array (toNativeValues values)
  | .object fields => .object (toNativeFields fields)

def toNativeValues : List Value → List Wire.Value
  | [] => []
  | value :: rest => value.toNative :: toNativeValues rest

def toNativeFields : List (String × Value) → List (Wire.Bytes × Wire.Value)
  | [] => []
  | (key, value) :: rest => (asBytes key, value.toNative) :: toNativeFields rest

end

end Value

/-- A decoded item: its spelling, its value and the nesting it took. -/
structure Decodes (bytes : Bytes) (maxDepth depth before : Nat) (item : Item) (value : Value)
    (after : Nat) : Prop where
  wellFormed : item.WellFormed Accepted
  value_eq : item.value = value.toNative
  advances : Advances bytes before item.encoding after
  depth_le : depth + item.height ≤ maxDepth

def DecodesSound (bytes : Bytes) (maxDepth depth : Nat)
    (decode : Nat → Except ProtocolError (Value × Nat)) : Prop :=
  ∀ before value after, before ≤ bytes.length → decode before = .ok (value, after) →
    ∃ item, Decodes bytes maxDepth depth before item value after

theorem decodeElements_sound {bytes : Bytes} {maxDepth depth : Nat}
    {decode : Nat → Except ProtocolError (Value × Nat)}
    (hdecode : DecodesSound bytes maxDepth (depth + 1) decode) {count before after : Nat}
    {values : List Value} (hdepth : depth ≤ maxDepth) (hbefore : before ≤ bytes.length)
    (h : decodeElements decode count before = .ok (values, after)) :
    ∃ items : List Item, items.length = count ∧ Item.WellFormedItems Accepted items ∧
      Item.valueItems items = Value.toNativeValues values ∧
      Advances bytes before (Item.encodingItems items) after ∧
      depth + Item.heightItems items ≤ maxDepth := by
  induction count generalizing before values with
  | zero =>
      rw [decodeElements, Except.ok.injEq, Prod.mk.injEq] at h
      obtain ⟨rfl, rfl⟩ := h
      exact ⟨[], rfl, trivial, rfl, Advances.refl hbefore, hdepth⟩
  | succ count ih =>
      rw [decodeElements] at h
      split at h
      · contradiction
      · next value middle hvalue =>
        split at h
        · contradiction
        · next rest last hrest =>
          rw [Except.ok.injEq, Prod.mk.injEq] at h
          obtain ⟨rfl, rfl⟩ := h
          obtain ⟨item, hitem⟩ := hdecode _ _ _ hbefore hvalue
          obtain ⟨items, rfl, hwellFormed, hvalues, hadvances, hheight⟩ :=
            ih hitem.advances.after_le hrest
          refine ⟨item :: items, rfl, ⟨hitem.wellFormed, hwellFormed⟩, ?_,
            hitem.advances.trans hadvances, ?_⟩
          · rw [Item.valueItems, hitem.value_eq, hvalues, Value.toNativeValues]
          · have := hitem.depth_le
            rw [Item.heightItems]
            omega

/-- Only a text item denotes a text value. -/
theorem item_of_text_value {item : Item} {key : Wire.Bytes} (h : item.value = .text key) :
    item = .text key := by
  cases item with
  | text payload =>
      rw [Item.value, Wire.Value.text.injEq] at h
      rw [h]
  | negative argument => exact absurd h (Wire.Reader.ofSigned_ne_text _ _)
  | null => cases h
  | bool value => cases h
  | unsigned argument => cases h
  | float encoding => cases h
  | bytes payload => cases h
  | array items => cases h
  | object members => cases h

theorem decodeFields_sound {bytes : Bytes} {maxDepth depth : Nat}
    {decode : Nat → Except ProtocolError (Value × Nat)}
    (hdecode : DecodesSound bytes maxDepth (depth + 1) decode) {count before after : Nat}
    {known : List String} {fields : List (String × Value)} (hdepth : depth ≤ maxDepth)
    (hbefore : before ≤ bytes.length)
    (h : decodeFields decode count known before = .ok (fields, after)) :
    ∃ members : List (Wire.Bytes × Item), members.length = count ∧
      (members.map Prod.fst).Nodup ∧
      (∀ key ∈ known, asBytes key ∉ members.map Prod.fst) ∧
      Item.WellFormedMembers Accepted members ∧
      Item.valueMembers members = Value.toNativeFields fields ∧
      Advances bytes before (Item.encodingMembers members) after ∧
      depth + Item.heightMembers members ≤ maxDepth := by
  induction count generalizing before known fields with
  | zero =>
      rw [decodeFields, Except.ok.injEq, Prod.mk.injEq] at h
      obtain ⟨rfl, rfl⟩ := h
      exact ⟨[], rfl, List.nodup_nil, fun _ _ => List.not_mem_nil, trivial, rfl,
        Advances.refl hbefore, hdepth⟩
  | succ count ih =>
      rw [decodeFields] at h
      split at h
      · contradiction
      · next key afterKey hkey =>
        split at h
        · contradiction
        · next hfresh =>
          split at h
          · contradiction
          · next value afterValue hvalue =>
            split at h
            · contradiction
            · next rest last hrest =>
              rw [Except.ok.injEq, Prod.mk.injEq] at h
              obtain ⟨rfl, rfl⟩ := h
              obtain ⟨keyItem, hkeyItem⟩ := hdecode _ _ _ hbefore hkey
              obtain rfl := item_of_text_value hkeyItem.value_eq
              obtain ⟨item, hitem⟩ := hdecode _ _ _ hkeyItem.advances.after_le hvalue
              obtain ⟨members, rfl, hnodup, hdisjoint, hwellFormed, hvalues, hadvances,
                hheight⟩ := ih hitem.advances.after_le hrest
              refine ⟨(asBytes key, item) :: members, rfl, ?_, ?_,
                ⟨hkeyItem.wellFormed, hitem.wellFormed, hwellFormed⟩, ?_,
                hkeyItem.advances.trans (hitem.advances.trans hadvances), ?_⟩
              · rw [List.map_cons, List.nodup_cons]
                exact ⟨hdisjoint key (List.mem_append_right _ List.mem_cons_self), hnodup⟩
              · intro other hother hmember
                rw [List.map_cons, List.mem_cons] at hmember
                rcases hmember with hsame | hmember
                · obtain rfl := asBytes_injective hsame
                  exact hfresh (List.any_eq_true.mpr ⟨other, hother, beq_self_eq_true other⟩)
                · exact hdisjoint other (List.mem_append_left _ hother) hmember
              · rw [Item.valueMembers, hitem.value_eq, hvalues, Value.toNativeFields]
              · have := hitem.depth_le
                rw [Item.heightMembers]
                omega
      · contradiction

theorem decodeSimple_sound {bytes : Bytes} (hsize : bytes.length ≤ usizeMax)
    {first : UInt8} {cursor after : Nat} {value : Value} (hmajor : first.toNat >>> 5 = 7)
    (hcursor : cursor ≤ bytes.length)
    (h : decodeSimple bytes (first.toNat &&& 31) cursor = .ok (value, after)) :
    ∃ (item : Item) (tail : Bytes), item.WellFormed Accepted ∧
      item.value = value.toNative ∧ item.encoding = first :: tail ∧ item.height = 0 ∧
      Advances bytes cursor tail after := by
  have hfirst : ∀ {additional : Nat}, additional < 32 → first.toNat &&& 31 = additional →
      first = initialByte 7 additional := fun hlt hadditional =>
    (Wire.Reader.initialByte_fields (by decide) hlt).mpr ⟨hmajor, hadditional⟩
  have hfloat : ∀ width, first = floatLead width →
      floatItem bytes cursor width.bytes (finishFloat width) = .ok (value, after) →
      ∃ (item : Item) (tail : Bytes), item.WellFormed Accepted ∧
        item.value = value.toNative ∧ item.encoding = first :: tail ∧ item.height = 0 ∧
        Advances bytes cursor tail after := by
    intro width hlead hitem
    obtain ⟨bits, hbits, hadvances, hfinish⟩ := (floatItem_eq_ok hsize).mp hitem
    obtain ⟨haccepted, rfl⟩ := (finishFloat_eq_ok hbits).mp hfinish
    exact ⟨.float ⟨width, bits⟩, _, haccepted, rfl, by rw [hlead]; rfl, rfl, hadvances⟩
  unfold decodeSimple at h
  split at h
  · next hadditional =>
    cases h
    exact ⟨.bool false, [], trivial, rfl, by rw [hfirst (by decide) hadditional]; rfl, rfl,
      Advances.refl hcursor⟩
  · next hadditional =>
    cases h
    exact ⟨.bool true, [], trivial, rfl, by rw [hfirst (by decide) hadditional]; rfl, rfl,
      Advances.refl hcursor⟩
  · next hadditional =>
    cases h
    exact ⟨.null, [], trivial, rfl, by rw [hfirst (by decide) hadditional]; rfl, rfl,
      Advances.refl hcursor⟩
  · next hadditional => exact hfloat .half (hfirst (by decide) hadditional) h
  · next hadditional => exact hfloat .single (hfirst (by decide) hadditional) h
  · next hadditional => exact hfloat .double (hfirst (by decide) hadditional) h
  · contradiction

theorem negative_value {argument : Nat} (h : argument ≤ 2 ^ 63 - 1) :
    (Item.negative argument).value =
      (Value.signed (Int64.ofInt (-1 - (argument : Int)))).toNative :=
  (Wire.Writer.negative_value (by omega)).1

theorem decodeValue_sound {bytes : Bytes} (hsize : bytes.length ≤ usizeMax)
    (maxDepth levels depth : Nat) :
    DecodesSound bytes maxDepth depth (decodeValue bytes maxDepth levels depth) := by
  induction levels generalizing depth with
  | zero =>
      intro before value after hbefore h
      rw [decodeValue] at h
      contradiction
  | succ levels ih =>
      intro before value after hbefore h
      rw [decodeValue] at h
      split at h
      · contradiction
      · next hdepth =>
        split at h
        · contradiction
        · next first hfirst =>
          obtain ⟨hbound, rfl⟩ := List.getElem?_eq_some_iff.mp hfirst
          have hinitial : Advances bytes before [bytes[before]] (before + 1) :=
            ⟨List.drop_eq_getElem_cons hbound, rfl, hbound⟩
          have hmask : bytes[before].toNat &&& 31 = bytes[before].toNat % 32 :=
            Nat.and_two_pow_sub_one_eq_mod _ 5
          dsimp only at h
          split at h
          · next hmajor =>
            obtain ⟨item, tail, hwellFormed, hvalue, hencoding, hheight, hadvances⟩ :=
              decodeSimple_sound hsize hmajor hbound h
            refine ⟨item, hwellFormed, hvalue, ?_, by omega⟩
            rw [hencoding]
            exact hinitial.trans hadvances
          · split at h
            · contradiction
            · next argument start hargument =>
              obtain ⟨hlt, hadditional, hstart⟩ := (length_eq_ok hsize hbound).mp hargument
              have hlead : ∀ {major : Nat}, bytes[before].toNat >>> 5 = major → major < 8 →
                  Advances bytes before (headBytes major argument) start := by
                intro major hmajor hlt
                have hbyte : bytes[before] = initialByte major (headAdditional argument) :=
                  (Wire.Reader.initialByte_fields hlt (by omega)).mpr
                    ⟨hmajor, hadditional.symm⟩
                rw [headBytes, ← hbyte]
                exact hinitial.trans hstart
              split at h
              · next hmajor =>
                cases h
                exact ⟨.unsigned argument, hlt, rfl, hlead hmajor (by decide),
                  Nat.not_lt.mp hdepth⟩
              · next hmajor =>
                split at h
                · next hsmall =>
                  cases h
                  have hnegative : argument < 2 ^ 63 := by omega
                  exact ⟨.negative argument, hnegative, negative_value hsmall,
                    hlead hmajor (by decide), Nat.not_lt.mp hdepth⟩
                · contradiction
              · next hmajor =>
                split at h
                · contradiction
                · next raw last hraw =>
                  obtain ⟨rfl, hadvances⟩ := (take_eq_ok hsize).mp hraw
                  cases h
                  exact ⟨.bytes raw, hlt, rfl, (hlead hmajor (by decide)).trans hadvances,
                    Nat.not_lt.mp hdepth⟩
              · next hmajor =>
                split at h
                · contradiction
                · next raw last hraw =>
                  obtain ⟨rfl, hadvances⟩ := (take_eq_ok hsize).mp hraw
                  split at h
                  · contradiction
                  · next text htext =>
                    have hbytes := fromUtf8_eq_some.mp htext
                    cases h
                    refine ⟨.text raw, ⟨hlt, wellFormed_iff.mpr ⟨text, hbytes⟩⟩, ?_,
                      (hlead hmajor (by decide)).trans hadvances, Nat.not_lt.mp hdepth⟩
                    rw [Item.value, Value.toNative, hbytes]
              · next hmajor =>
                split at h
                · contradiction
                · split at h
                  · contradiction
                  · split at h
                    · contradiction
                    · next values last hvalues =>
                      cases h
                      obtain ⟨items, rfl, hwellFormed, hvalue, hadvances, hheight⟩ :=
                        decodeElements_sound (ih (depth + 1)) (Nat.not_lt.mp hdepth)
                          hstart.after_le hvalues
                      refine ⟨.array items, ⟨hlt, hwellFormed⟩, ?_,
                        (hlead hmajor (by decide)).trans hadvances, hheight⟩
                      rw [Item.value, Value.toNative, hvalue]
              · next hmajor =>
                split at h
                · contradiction
                · split at h
                  · contradiction
                  · split at h
                    · contradiction
                    · next fields last hfields =>
                      cases h
                      obtain ⟨members, rfl, hnodup, -, hwellFormed, hvalue, hadvances,
                        hheight⟩ := decodeFields_sound (ih (depth + 1))
                          (Nat.not_lt.mp hdepth) hstart.after_le hfields
                      refine ⟨.object members, ⟨hlt, hnodup, hwellFormed⟩, ?_,
                        (hlead hmajor (by decide)).trans hadvances, hheight⟩
                      rw [Item.value, Value.toNative, hvalue]
              · contradiction

/-! Completeness: a grammatical item within the depth limit is decoded. -/

theorem one_le_encoding (item : Item) : 1 ≤ item.encoding.length := by
  cases item <;>
    simp only [Item.encoding, headBytes, textBytes, Wire.floatBytes, List.length_cons,
      List.length_append] <;> omega

theorem length_le_encodingItems (items : List Item) :
    items.length ≤ (Item.encodingItems items).length := by
  induction items with
  | nil => exact Nat.le_refl _
  | cons item rest ih =>
      have := one_le_encoding item
      rw [Item.encodingItems, List.length_cons, List.length_append]
      omega

theorem two_mul_length_le_encodingMembers (members : List (Wire.Bytes × Item)) :
    2 * members.length ≤ (Item.encodingMembers members).length := by
  induction members with
  | nil => exact Nat.le_refl _
  | cons member rest ih =>
      obtain ⟨key, item⟩ := member
      have := one_le_encoding item
      have hkey := one_le_encoding (.text key)
      rw [Item.encoding] at hkey
      rw [Item.encodingMembers, List.length_cons, List.length_append, List.length_append]
      omega

/-- The first byte an advance consumes is the one the decoder looks at. -/
theorem Advances.first {bytes : Bytes} {before after : Nat} {first : UInt8} {tail : Bytes}
    (h : Advances bytes before (first :: tail) after) :
    bytes[before]? = some first ∧ before + 1 ≤ bytes.length ∧
      Advances bytes (before + 1) tail after := by
  obtain ⟨middle, hfirst, htail⟩ :=
    Advances.split (show Advances bytes before ([first] ++ tail) after from h)
  obtain rfl := hfirst.after_eq
  refine ⟨?_, hfirst.after_le, htail⟩
  have hdrop := congrArg (fun rest => rest[0]?) hfirst.rest_eq
  simpa using hdrop

/-- The head of an item, as the decoder reads it. -/
theorem head_complete {bytes : Bytes} (hsize : bytes.length ≤ usizeMax)
    {major argument before after : Nat} {tail : Bytes} (hmajor : major < 7)
    (hargument : argument < 2 ^ 64)
    (h : Advances bytes before (headBytes major argument ++ tail) after) :
    ∃ first start, bytes[before]? = some first ∧ first.toNat >>> 5 = major ∧
      length (first.toNat &&& 31) bytes (before + 1) = .ok (argument, start) ∧
      Advances bytes start tail after := by
  obtain ⟨hfirst, hbound, hrest⟩ := Advances.first
    (show Advances bytes before
      (initialByte major (headAdditional argument) :: (headTail argument ++ tail)) after from h)
  obtain ⟨start, hhead, htail⟩ := hrest.split
  obtain ⟨hfield, hadditional, -⟩ := Wire.Reader.headBytes_fields
    (show major < 8 by omega) hargument
    (show headBytes major argument = initialByte major (headAdditional argument) ::
      headTail argument from rfl)
  refine ⟨_, start, hfirst, hfield, ?_, htail⟩
  rw [length_eq_ok hsize hbound]
  exact ⟨hargument, hadditional.symm, hhead⟩

theorem decodeSimple_float {bytes : Bytes} (hsize : bytes.length ≤ usizeMax)
    {encoding : CanonicalFloatEncoding} {cursor after : Nat} (haccepted : Accepted encoding)
    (h : Advances bytes cursor (bigEndianBytes encoding.width.bytes encoding.bits) after) :
    decodeSimple bytes ((floatLead encoding.width).toNat &&& 31) cursor =
      .ok (.float (UInt64.ofNat encoding.value), after) := by
  have hitem : floatItem bytes cursor encoding.width.bytes (finishFloat encoding.width) =
      .ok (.float (UInt64.ofNat encoding.value), after) :=
    (floatItem_eq_ok hsize).mpr ⟨encoding.bits, accepted_bits_lt haccepted, h,
      (finishFloat_eq_ok (accepted_bits_lt haccepted)).mpr ⟨haccepted, rfl⟩⟩
  obtain ⟨width, bits⟩ := encoding
  cases width with
  | half =>
      rw [show (floatLead .half).toNat &&& 31 = 25 from rfl]
      exact hitem
  | single =>
      rw [show (floatLead .single).toNat &&& 31 = 26 from rfl]
      exact hitem
  | double =>
      rw [show (floatLead .double).toNat &&& 31 = 27 from rfl]
      exact hitem

theorem floatLead_major (width : Wire.CanonicalFloatWidth) :
    (floatLead width).toNat >>> 5 = 7 := by
  cases width <;> rfl

/-- A text item, which is also how a map key is spelled. -/
theorem decodeValue_text {bytes : Bytes} (hsize : bytes.length ≤ usizeMax)
    {maxDepth : Nat} {text : String} (levels : Nat) {depth before after : Nat}
    (hdepth : depth ≤ maxDepth) (hbound : (asBytes text).length < 2 ^ 64)
    (h : Advances bytes before (textBytes (asBytes text)) after) :
    decodeValue bytes maxDepth (levels + 1) depth before = .ok (.text text, after) := by
  have hlevel : ¬ maxDepth < depth := by omega
  obtain ⟨first, start, hfirst, hmajor, hlength, htail⟩ := head_complete hsize
    (by decide) hbound h
  simp only [decodeValue, if_neg hlevel, hfirst, hmajor, hlength,
    (take_eq_ok hsize).mpr ⟨rfl, htail⟩, fromUtf8_eq_some.mpr rfl]
  rfl

mutual

theorem decodeValue_complete {bytes : Bytes} (hsize : bytes.length ≤ usizeMax)
    {maxDepth : Nat} (item : Item) {levels depth before after : Nat}
    (hlevels : depth + levels = maxDepth + 1) (hitem : item.WellFormed Accepted)
    (hdepth : depth + item.height ≤ maxDepth)
    (h : Advances bytes before item.encoding after) :
    ∃ value : Value, value.toNative = item.value ∧
      decodeValue bytes maxDepth levels depth before = .ok (value, after) := by
  obtain ⟨levels, rfl⟩ : ∃ inner, levels = inner + 1 := ⟨levels - 1, by omega⟩
  have hlevel : ¬ maxDepth < depth := by omega
  cases item with
  | null =>
      obtain ⟨hfirst, hbound, htail⟩ := Advances.first h
      refine ⟨.null, rfl, ?_⟩
      rw [decodeValue, if_neg hlevel, hfirst, htail.after_eq]
      rfl
  | bool value =>
      obtain ⟨hfirst, hbound, htail⟩ := Advances.first h
      refine ⟨.bool value, rfl, ?_⟩
      rw [decodeValue, if_neg hlevel, hfirst, htail.after_eq]
      cases value <;> rfl
  | float encoding =>
      obtain ⟨hfirst, hbound, htail⟩ := Advances.first h
      refine ⟨.float (UInt64.ofNat encoding.value), rfl, ?_⟩
      rw [decodeValue, if_neg hlevel, hfirst]
      dsimp only
      rw [if_pos (floatLead_major _), decodeSimple_float hsize hitem htail]
  | unsigned argument =>
      obtain ⟨first, start, hfirst, hmajor, hlength, htail⟩ := head_complete hsize
        (by decide) hitem (show Advances bytes before (headBytes 0 argument ++ []) after by
          rw [List.append_nil]; exact h)
      refine ⟨.unsigned (UInt64.ofNat argument), rfl, ?_⟩
      simp only [decodeValue, if_neg hlevel, hfirst, hmajor, hlength, htail.after_eq]
      rfl
  | negative argument =>
      have hsmall : argument < 2 ^ 63 := hitem
      obtain ⟨first, start, hfirst, hmajor, hlength, htail⟩ := head_complete hsize
        (by decide) (show argument < 2 ^ 64 by omega)
        (show Advances bytes before (headBytes 1 argument ++ []) after by
          rw [List.append_nil]; exact h)
      refine ⟨.signed (Int64.ofInt (-1 - (argument : Int))),
        (negative_value (by omega)).symm, ?_⟩
      simp only [decodeValue, if_neg hlevel, hfirst, hmajor, hlength, htail.after_eq]
      rw [if_neg (by decide), if_pos (by omega)]
      rfl
  | bytes payload =>
      obtain ⟨first, start, hfirst, hmajor, hlength, htail⟩ := head_complete hsize
        (by decide) hitem h
      refine ⟨.bytes payload, rfl, ?_⟩
      simp only [decodeValue, if_neg hlevel, hfirst, hmajor, hlength,
        (take_eq_ok hsize).mpr ⟨rfl, htail⟩]
      rfl
  | text payload =>
      obtain ⟨hbound, hvalid⟩ := hitem
      obtain ⟨text, rfl⟩ := wellFormed_iff.mp hvalid
      exact ⟨.text text, rfl, decodeValue_text hsize levels (by omega) hbound h⟩
  | array items =>
      obtain ⟨hbound, hitems⟩ := hitem
      obtain ⟨first, start, hfirst, hmajor, hlength, htail⟩ := head_complete hsize
        (by decide) hbound h
      obtain ⟨values, hvalues, hdecode⟩ :=
        decodeElements_complete hsize items (show depth + levels = maxDepth by omega) hitems hdepth
          htail
      have hroom := length_le_encodingItems items
      have hleft := htail.length_le
      refine ⟨.array values, by rw [Value.toNative, hvalues, Item.value], ?_⟩
      simp only [decodeValue, if_neg hlevel, hfirst, hmajor, hlength]
      rw [if_neg (by decide), if_neg (by omega), if_neg (by omega), hdecode]
  | object members =>
      obtain ⟨hbound, hnodup, hmembers⟩ := hitem
      obtain ⟨first, start, hfirst, hmajor, hlength, htail⟩ := head_complete hsize
        (by decide) hbound h
      obtain ⟨fields, hfields, hdecode⟩ :=
        decodeFields_complete hsize members [] (show depth + levels = maxDepth by omega) hnodup
          (fun _ hmember => absurd hmember List.not_mem_nil) hmembers hdepth
          htail
      have hroom := two_mul_length_le_encodingMembers members
      have hleft := htail.length_le
      refine ⟨.object fields, by rw [Value.toNative, hfields, Item.value], ?_⟩
      simp only [decodeValue, if_neg hlevel, hfirst, hmajor, hlength]
      rw [if_neg (by decide), if_neg (by omega), if_neg (by omega), hdecode]

theorem decodeElements_complete {bytes : Bytes} (hsize : bytes.length ≤ usizeMax)
    {maxDepth : Nat} (items : List Item) {levels depth before after : Nat}
    (hlevels : depth + levels = maxDepth) (hitems : Item.WellFormedItems Accepted items)
    (hdepth : depth + Item.heightItems items ≤ maxDepth)
    (h : Advances bytes before (Item.encodingItems items) after) :
    ∃ values : List Value, Value.toNativeValues values = Item.valueItems items ∧
      decodeElements (decodeValue bytes maxDepth levels (depth + 1)) items.length before =
        .ok (values, after) := by
  match items with
  | [] => exact ⟨[], rfl, by rw [h.after_eq]; rfl⟩
  | item :: rest =>
      rw [Item.heightItems] at hdepth
      obtain ⟨middle, hfirst, hlater⟩ := Advances.split
        (show Advances bytes before (item.encoding ++ Item.encodingItems rest) after from h)
      obtain ⟨value, hvalue, hdecode⟩ := decodeValue_complete hsize item
        (show depth + 1 + levels = maxDepth + 1 by omega) hitems.1 (by omega) hfirst
      obtain ⟨values, hvalues, hrest⟩ :=
        decodeElements_complete hsize rest hlevels hitems.2 (by omega) hlater
      refine ⟨value :: values, ?_, ?_⟩
      · rw [Value.toNativeValues, hvalue, hvalues, Item.valueItems]
      · rw [List.length_cons, decodeElements, hdecode]
        dsimp only
        rw [hrest]

theorem decodeFields_complete {bytes : Bytes} (hsize : bytes.length ≤ usizeMax)
    {maxDepth : Nat} (members : List (Wire.Bytes × Item)) (known : List String)
    {levels depth before after : Nat}
    (hlevels : depth + levels = maxDepth) (hnodup : (members.map Prod.fst).Nodup)
    (hfresh : ∀ key ∈ known, asBytes key ∉ members.map Prod.fst)
    (hmembers : Item.WellFormedMembers Accepted members)
    (hdepth : depth + Item.heightMembers members ≤ maxDepth)
    (h : Advances bytes before (Item.encodingMembers members) after) :
    ∃ fields : List (String × Value),
      Value.toNativeFields fields = Item.valueMembers members ∧
      decodeFields (decodeValue bytes maxDepth levels (depth + 1)) members.length known
        before = .ok (fields, after) := by
  match members with
  | [] => exact ⟨[], rfl, by rw [h.after_eq]; rfl⟩
  | (keyBytes, item) :: rest =>
      rw [Item.heightMembers] at hdepth
      rw [List.map_cons, List.nodup_cons] at hnodup
      obtain ⟨hkey, hitem, hrest⟩ := hmembers
      obtain ⟨key, rfl⟩ := wellFormed_iff.mp hkey.2
      obtain ⟨afterKey, hkeyAdvances, htail⟩ := Advances.split
        (show Advances bytes before
          (textBytes (asBytes key) ++ (item.encoding ++ Item.encodingMembers rest)) after
          from h)
      obtain ⟨middle, hfirst, hlater⟩ := htail.split
      have hinner : depth + 1 + levels = maxDepth + 1 := by omega
      have hnew : known.any (fun other => other == key) = false := by
        rw [List.any_eq_false]
        intro other hother hsame
        obtain rfl := beq_iff_eq.mp hsame
        exact hfresh other hother (by rw [List.map_cons]; exact List.mem_cons_self)
      obtain ⟨levels, rfl⟩ : ∃ inner, levels = inner + 1 := ⟨levels - 1, by omega⟩
      have hkeyDecode := decodeValue_text hsize levels
        (show depth + 1 ≤ maxDepth by omega) hkey.1 hkeyAdvances
      obtain ⟨value, hvalue, hdecode⟩ :=
        decodeValue_complete hsize item hinner hitem (by omega) hfirst
      have hstillFresh : ∀ other ∈ known ++ [key], asBytes other ∉ rest.map Prod.fst := by
        intro other hother hmember
        rcases List.mem_append.mp hother with hother | hother
        · exact hfresh other hother (by rw [List.map_cons]; exact List.mem_cons_of_mem _ hmember)
        · obtain rfl := List.mem_singleton.mp hother
          exact hnodup.1 hmember
      obtain ⟨fields, hfields, hlast⟩ := decodeFields_complete hsize rest (known ++ [key])
        hlevels hnodup.2 hstillFresh hrest (by omega) hlater
      refine ⟨(key, value) :: fields, ?_, ?_⟩
      · rw [Value.toNativeFields, hvalue, hfields, Item.valueMembers]
      · rw [List.length_cons, decodeFields, hkeyDecode]
        dsimp only
        rw [hnew, if_neg Bool.false_ne_true, hdecode]
        dsimp only
        rw [hlast]

end

end Mmltk.Frontend
