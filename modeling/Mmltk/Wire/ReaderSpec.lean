import Mmltk.Wire.Reader
import Mmltk.Wire.Syntax

namespace Mmltk.Wire

open Mmltk.Foundation

namespace Reader

/-! What each reader primitive consumes, as the flat byte string it leaves. -/

def rest (reader : Reader) (cursor : Cursor) : Bytes :=
  reader.input.bytes.drop cursor.offset

/-- Between two cursors the reader consumed exactly `taken` and `items` budget
units. -/
structure Reads (reader : Reader) (before : Cursor) (taken : Bytes) (items : Nat)
    (after : Cursor) : Prop where
  rest_eq : reader.rest before = taken ++ reader.rest after
  offset_eq : after.offset = before.offset + taken.length
  items_eq : after.items = before.items + items

theorem rest_of_rest_eq {reader : Reader} {before : Cursor} {taken tail : Bytes}
    (h : reader.rest before = taken ++ tail) (items : Nat) :
    reader.rest ⟨before.offset + taken.length, items⟩ = tail := by
  rw [rest, ← List.drop_drop, ← rest, h, List.drop_left]

theorem Reads.refl (reader : Reader) (cursor : Cursor) : reader.Reads cursor [] 0 cursor :=
  ⟨rfl, rfl, rfl⟩

theorem Reads.trans {reader : Reader} {first second third : Cursor} {left right : Bytes}
    {leftItems rightItems : Nat} (hleft : reader.Reads first left leftItems second)
    (hright : reader.Reads second right rightItems third) :
    reader.Reads first (left ++ right) (leftItems + rightItems) third where
  rest_eq := by rw [hleft.rest_eq, hright.rest_eq, List.append_assoc]
  offset_eq := by rw [hright.offset_eq, hleft.offset_eq, List.length_append, Nat.add_assoc]
  items_eq := by rw [hright.items_eq, hleft.items_eq, Nat.add_assoc]

theorem Reads.split {reader : Reader} {first third : Cursor} {left right : Bytes}
    {leftItems rightItems : Nat}
    (h : reader.Reads first (left ++ right) (leftItems + rightItems) third) :
    ∃ second, reader.Reads first left leftItems second ∧
      reader.Reads second right rightItems third := by
  have hrest : reader.rest first = left ++ (right ++ reader.rest third) := by
    rw [h.rest_eq, List.append_assoc]
  refine ⟨⟨first.offset + left.length, first.items + leftItems⟩,
    ⟨?_, rfl, rfl⟩, ⟨rest_of_rest_eq hrest _, ?_, ?_⟩⟩
  · rw [rest_of_rest_eq hrest, hrest]
  · rw [h.offset_eq, List.length_append, Nat.add_assoc]
  · rw [h.items_eq, Nat.add_assoc]

theorem Reads.after_eq {reader : Reader} {before after : Cursor} {taken : Bytes}
    {items : Nat} (h : reader.Reads before taken items after) :
    after = ⟨before.offset + taken.length, before.items + items⟩ := by
  obtain ⟨offset, count⟩ := after
  rw [Cursor.mk.injEq]
  exact ⟨h.offset_eq, h.items_eq⟩

theorem Reads.offset_le {reader : Reader} {before after : Cursor} {taken : Bytes}
    {items : Nat} (h : reader.Reads before taken items after)
    (hbefore : before.offset ≤ reader.input.size) : after.offset ≤ reader.input.size := by
  have hlength := congrArg List.length h.rest_eq
  rw [rest, List.length_drop, List.length_append, ByteSegments.length_bytes] at hlength
  have hoffset := h.offset_eq
  omega

theorem Reads.taken_length_le {reader : Reader} {before after : Cursor} {taken : Bytes}
    {items : Nat} (h : reader.Reads before taken items after) :
    taken.length ≤ reader.input.size - before.offset := by
  have hlength := congrArg List.length h.rest_eq
  rw [rest, List.length_drop, List.length_append, ByteSegments.length_bytes] at hlength
  omega

theorem peekByte_eq_ok {reader : Reader} {path : Path} {cursor : Cursor} {next : UInt8} :
    reader.peekByte path cursor = .ok next ↔
      reader.input.bytes[cursor.offset]? = some next := by
  obtain ⟨⟨first, second⟩, limits⟩ := reader
  simp only [peekByte, ByteSegments.size, ByteSegments.bytes]
  split
  · next hend =>
    rw [List.getElem?_eq_none (by rw [List.length_append]; exact hend)]
    simp
  · next hend =>
    split
    · next hfirst =>
      rw [List.getElem?_append_left hfirst, List.getD_eq_getElem?_getD,
        List.getElem?_eq_getElem hfirst]
      simp
    · next hfirst =>
      have hsecond : cursor.offset - first.length < second.length := by omega
      rw [List.getElem?_append_right (Nat.le_of_not_lt hfirst), List.getD_eq_getElem?_getD,
        List.getElem?_eq_getElem hsecond]
      simp

theorem byte_eq_ok {reader : Reader} {path : Path} {before after : Cursor} {next : UInt8} :
    reader.byte path before = .ok (next, after) ↔ reader.Reads before [next] 0 after := by
  have hpeek := @peekByte_eq_ok reader path before next
  unfold byte
  constructor
  · intro h
    split at h
    · contradiction
    · next result hresult =>
      rw [Except.ok.injEq, Prod.mk.injEq] at h
      obtain ⟨rfl, rfl⟩ := h
      obtain ⟨hlength, hget⟩ := List.getElem?_eq_some_iff.mp (hpeek.mp hresult)
      refine ⟨?_, rfl, rfl⟩
      rw [rest, List.drop_eq_getElem_cons hlength, hget]
      rfl
  · intro h
    have hget : reader.input.bytes[before.offset]? = some next := by
      have hhead := congrArg (fun bytes => bytes[0]?) h.rest_eq
      simpa [rest] using hhead
    rw [hpeek.mpr hget, h.after_eq]
    rfl

theorem bigEndian_eq_ok {reader : Reader} {path : Path} {byteCount value result : Nat}
    {before after : Cursor} :
    reader.bigEndian path byteCount value before = .ok (result, after) ↔
      ∃ taken, taken.length = byteCount ∧ bigEndianValue value taken = result ∧
        reader.Reads before taken 0 after := by
  induction byteCount generalizing value before with
  | zero =>
      rw [bigEndian, Except.ok.injEq, Prod.mk.injEq]
      constructor
      · rintro ⟨rfl, rfl⟩
        exact ⟨[], rfl, rfl, Reads.refl reader before⟩
      · rintro ⟨taken, hlength, hvalue, hreads⟩
        rw [List.length_eq_zero_iff] at hlength
        subst hlength
        exact ⟨hvalue, hreads.after_eq.symm⟩
  | succ byteCount ih =>
      rw [bigEndian]
      constructor
      · intro h
        split at h
        · contradiction
        · next next middle hbyte =>
          obtain ⟨taken, hlength, hvalue, hreads⟩ := ih.mp h
          refine ⟨next :: taken, by rw [List.length_cons, hlength], ?_, ?_⟩
          · rw [bigEndianValue, List.foldl_cons]
            exact hvalue
          · exact (byte_eq_ok.mp hbyte).trans hreads
      · rintro ⟨taken, hlength, hvalue, hreads⟩
        cases taken with
        | nil => contradiction
        | cons next taken =>
            obtain ⟨middle, hnext, htaken⟩ :=
              Reads.split (show reader.Reads before ([next] ++ taken) (0 + 0) after from hreads)
            rw [byte_eq_ok.mpr hnext]
            exact ih.mpr ⟨taken, Nat.succ_injective hlength, hvalue, htaken⟩

theorem argumentByteCount_eq {additional : Nat} (hlow : 24 ≤ additional)
    (hcount : argumentByteCount additional ≠ 0) :
    (additional = 24 ∧ argumentByteCount additional = 1) ∨
    (additional = 25 ∧ argumentByteCount additional = 2) ∨
    (additional = 26 ∧ argumentByteCount additional = 4) ∨
    (additional = 27 ∧ argumentByteCount additional = 8) := by
  unfold argumentByteCount at hcount ⊢
  split at hcount <;> simp_all

/-- Head size, additional information and argument byte count name the same five
shapes. -/
theorem headSize_cases {argument : Nat} (hargument : argument < 2 ^ 64) :
    (argument < 24 ∧ headSize argument = 1 ∧ headAdditional argument = argument) ∨
    (24 ≤ argument ∧ ∃ byteCount, byteCount ≠ 0 ∧ headSize argument = byteCount + 1 ∧
      24 ≤ headAdditional argument ∧ headAdditional argument ≤ 27 ∧
      argumentByteCount (headAdditional argument) = byteCount ∧
      argument < 256 ^ byteCount) := by
  unfold headSize headAdditional
  split_ifs with h1 h2 h3 h4
  · exact .inl ⟨h1, rfl, rfl⟩
  · exact .inr ⟨by omega, 1, by decide, rfl, by decide, by decide, rfl, by omega⟩
  · exact .inr ⟨by omega, 2, by decide, rfl, by decide, by decide, rfl, by omega⟩
  · exact .inr ⟨by omega, 4, by decide, rfl, by decide, by decide, rfl, by omega⟩
  · exact .inr ⟨by omega, 8, by decide, rfl, by decide, by decide, rfl, by omega⟩

/-- The five-way head size pins the additional information of a longer head. -/
theorem headAdditional_of_headSize {argument additional : Nat} (hlow : 24 ≤ additional)
    (hcount : argumentByteCount additional ≠ 0)
    (hsize : headSize argument = argumentByteCount additional + 1) :
    headAdditional argument = additional := by
  unfold headSize at hsize
  unfold headAdditional
  rcases argumentByteCount_eq hlow hcount with
    ⟨rfl, hvalue⟩ | ⟨rfl, hvalue⟩ | ⟨rfl, hvalue⟩ | ⟨rfl, hvalue⟩ <;>
  · rw [hvalue] at hsize
    split_ifs at hsize ⊢ <;> omega

theorem argument_eq_ok {reader : Reader} {path : Path} {additional result : Nat}
    {before after : Cursor} (hadditional : additional < 32) :
    reader.argument path additional before = .ok (result, after) ↔
      result < 2 ^ 64 ∧ headAdditional result = additional ∧
        reader.Reads before (headTail result) 0 after := by
  unfold argument
  constructor
  · intro h
    split at h
    · next hsmall =>
      rw [Except.ok.injEq, Prod.mk.injEq] at h
      obtain ⟨rfl, rfl⟩ := h
      have hsize : headSize additional = 1 := by simp [headSize, hsmall]
      refine ⟨by omega, by simp [headAdditional, hsmall], ?_⟩
      rw [headTail, hsize]
      exact Reads.refl reader before
    · next hlarge =>
      split at h
      · contradiction
      · dsimp only at h
        split at h
        · contradiction
        · next hcount =>
          split at h
          · contradiction
          · next value middle hvalue =>
            split at h
            · contradiction
            · next hminimal =>
              rw [Except.ok.injEq, Prod.mk.injEq] at h
              obtain ⟨rfl, rfl⟩ := h
              rw [not_not] at hminimal
              obtain ⟨taken, hlength, htaken, hreads⟩ := bigEndian_eq_ok.mp hvalue
              have hbound := bigEndianValue_lt taken
              have hbytes := bigEndianBytes_bigEndianValue taken
              rw [htaken] at hbound hbytes
              refine ⟨?_, headAdditional_of_headSize (by omega) hcount hminimal, ?_⟩
              · rw [hlength] at hbound
                rcases argumentByteCount_eq (by omega) hcount with
                  ⟨-, hk⟩ | ⟨-, hk⟩ | ⟨-, hk⟩ | ⟨-, hk⟩ <;>
                · rw [hk] at hbound
                  omega
              · rw [headTail, hminimal, Nat.add_sub_cancel, ← hlength, hbytes]
                exact hreads
  · rintro ⟨hresult, rfl, hreads⟩
    rcases headSize_cases hresult with ⟨hsmall, hsize, hhead⟩ |
      ⟨hlarge, byteCount, hpositive, hsize, hlow, hhigh, hcount, hbound⟩
    · rw [headTail, hsize] at hreads
      rw [hhead, if_pos hsmall, hreads.after_eq]
      rfl
    · rw [if_neg (by omega), if_neg (by omega), hcount]
      dsimp only
      rw [if_neg hpositive]
      have hread : reader.bigEndian path byteCount 0 before = .ok (result, after) := by
        refine bigEndian_eq_ok.mpr ⟨headTail result, ?_, ?_, hreads⟩
        · rw [headTail, length_bigEndianBytes, hsize, Nat.add_sub_cancel]
        · rw [headTail, hsize, Nat.add_sub_cancel, bigEndianValue_bigEndianBytes,
            Nat.mod_eq_of_lt hbound]
      rw [hread]
      dsimp only
      rw [if_neg (by rw [hsize, not_not])]

theorem sizeArgument_eq_ok {reader : Reader} {path : Path} {additional result : Nat}
    {before after : Cursor} (hadditional : additional < 32) :
    reader.sizeArgument path additional before = .ok (result, after) ↔
      result < 2 ^ 64 ∧ headAdditional result = additional ∧
        reader.Reads before (headTail result) 0 after := by
  rw [← @argument_eq_ok reader path additional result before after hadditional]
  unfold sizeArgument
  constructor
  · intro h
    split at h
    · contradiction
    · next hargument =>
      split at h
      · contradiction
      · rw [hargument]
        exact h
  · intro h
    have hbound := ((argument_eq_ok hadditional).mp h).1
    rw [h]
    dsimp only
    rw [if_neg (by omega)]

theorem payloadRanges_bytes (reader : Reader) (count : Nat) (cursor : Cursor) :
    (reader.payloadRanges count cursor).bytes = (reader.rest cursor).take count := by
  obtain ⟨⟨first, second⟩, limits⟩ := reader
  simp only [payloadRanges, rest, ByteSegments.bytes]
  split
  · next hpast =>
    simp only [List.append_nil]
    rw [List.drop_append, List.drop_eq_nil_of_le hpast, List.nil_append]
  · next hwithin =>
    have hstart : cursor.offset - first.length = 0 := by omega
    rw [List.drop_append, hstart, List.drop_zero, List.take_append, List.length_drop]
    dsimp only
    congr 1
    rw [List.take_eq_take_iff, List.length_drop]
    · omega
    · congr 1
      omega

theorem validatedPayloadRanges_eq_ok {reader : Reader} {path : Path} {count : Nat}
    {cursor : Cursor} {ranges : ByteSegments}
    (hbytes : reader.input.size ≤ reader.limits.maxBytes) :
    reader.validatedPayloadRanges path count cursor = .ok ranges ↔
      count ≤ reader.input.size - cursor.offset ∧
        ranges = reader.payloadRanges count cursor := by
  unfold validatedPayloadRanges
  split
  · simp
    omega
  · split
    · simp
      omega
    · next hsize _ =>
      rw [Except.ok.injEq]
      exact ⟨fun h => ⟨by omega, h.symm⟩, fun h => h.2.symm⟩

/-- A payload of `count` bytes is available exactly when it can be consumed. -/
theorem reads_payload {reader : Reader} {count : Nat} {before after : Cursor}
    {payload : Bytes} :
    reader.Reads before payload 0 after ∧ payload.length = count ↔
      count ≤ reader.input.size - before.offset ∧
        payload = (reader.rest before).take count ∧
        after = { before with offset := before.offset + count } := by
  constructor
  · rintro ⟨hreads, rfl⟩
    refine ⟨hreads.taken_length_le, ?_, hreads.after_eq⟩
    rw [hreads.rest_eq, List.take_left]
  · rintro ⟨hcount, hpayload, rfl⟩
    have hlength : payload.length = count := by
      rw [hpayload, List.length_take, rest, List.length_drop, ByteSegments.length_bytes]
      omega
    refine ⟨⟨?_, by rw [hlength], rfl⟩, hlength⟩
    rw [hpayload, rest, rest]
    dsimp only
    rw [← List.drop_drop, List.take_append_drop]

theorem bytes_eq_ok {reader : Reader} {path : Path} {count : Nat} {before after : Cursor}
    {payload : Bytes} (hbytes : reader.input.size ≤ reader.limits.maxBytes) :
    reader.bytes path count before = .ok (payload, after) ↔
      reader.Reads before payload 0 after ∧ payload.length = count := by
  rw [reads_payload]
  unfold bytes
  constructor
  · intro h
    split at h
    · contradiction
    · next ranges hranges =>
      obtain ⟨hcount, rfl⟩ := (validatedPayloadRanges_eq_ok hbytes).mp hranges
      rw [Except.ok.injEq, Prod.mk.injEq] at h
      refine ⟨hcount, ?_, h.2.symm⟩
      rw [← h.1, ← payloadRanges_bytes]
      rfl
  · rintro ⟨hcount, rfl, rfl⟩
    rw [(validatedPayloadRanges_eq_ok hbytes).mpr ⟨hcount, rfl⟩, ← payloadRanges_bytes]
    rfl

theorem text_eq_ok {reader : Reader} {path : Path} {count : Nat} {before after : Cursor}
    {payload : Bytes} (hbytes : reader.input.size ≤ reader.limits.maxBytes) :
    reader.text path count before = .ok (payload, after) ↔
      reader.Reads before payload 0 after ∧ payload.length = count ∧
        Text.WellFormed payload := by
  rw [← and_assoc, reads_payload]
  unfold text
  constructor
  · intro h
    split at h
    · contradiction
    · next ranges hranges =>
      obtain ⟨hcount, rfl⟩ := (validatedPayloadRanges_eq_ok hbytes).mp hranges
      dsimp only at h
      split at h
      · contradiction
      · next hvalid =>
        rw [Except.ok.injEq, Prod.mk.injEq] at h
        rw [Bool.not_eq_true, Bool.not_eq_false', h.1, Text.validUtf8_iff] at hvalid
        refine ⟨⟨hcount, ?_, h.2.symm⟩, hvalid⟩
        rw [← h.1, ← payloadRanges_bytes]
        rfl
  · rintro ⟨⟨hcount, rfl, rfl⟩, hvalid⟩
    rw [(validatedPayloadRanges_eq_ok hbytes).mpr ⟨hcount, rfl⟩]
    rw [← payloadRanges_bytes] at hvalid ⊢
    rw [← Text.validUtf8_iff, ByteSegments.bytes] at hvalid
    dsimp only
    rw [hvalid]
    rfl

/-- Initial byte of a head with the given fields. -/
theorem initialByte_fields {initial : UInt8} {major additional : Nat} (hmajor : major < 8)
    (hadditional : additional < 32) :
    initial = initialByte major additional ↔
      initial.toNat >>> 5 = major ∧ initial.toNat &&& 31 = additional := by
  have hbyte : initial.toNat < 256 := initial.toNat_lt
  have hmask : initial.toNat &&& 31 = initial.toNat % 32 :=
    Nat.and_two_pow_sub_one_eq_mod _ 5
  have hor : (major <<< 5) ||| additional = major * 32 + additional := by
    rw [← Nat.shiftLeft_add_eq_or_of_lt (show additional < 2 ^ 5 from hadditional),
      Nat.shiftLeft_eq]
  rw [initialByte, hor, hmask, Nat.shiftRight_eq_div_pow, ← UInt8.toNat_inj,
    UInt8.toNat_ofNat_of_lt' (show major * 32 + additional < 256 by omega)]
  omega

theorem itemHead_eq_ok {reader : Reader} {path : Path} {depth : Nat}
    {before after : Cursor} {head : ItemHead} :
    reader.itemHead path depth before = .ok (head, after) ↔
      reader.input.size ≤ reader.limits.maxBytes ∧ depth ≤ reader.limits.maxDepth ∧
        before.items < reader.limits.maxItems ∧
        ∃ initial : UInt8, reader.Reads before [initial] 1 after ∧
          head = ⟨initial.toNat, initial.toNat >>> 5, initial.toNat &&& 31⟩ := by
  have hshift : ∀ initial : UInt8,
      reader.Reads ⟨before.offset, before.items + 1⟩ [initial] 0 after ↔
        reader.Reads before [initial] 1 after := by
    intro initial
    constructor
    · rintro ⟨hrest, hoffset, hitems⟩
      exact ⟨hrest, hoffset, hitems⟩
    · rintro ⟨hrest, hoffset, hitems⟩
      exact ⟨hrest, hoffset, hitems⟩
  unfold itemHead
  constructor
  · intro h
    split at h
    · contradiction
    · split at h
      · contradiction
      · split at h
        · contradiction
        · split at h
          · contradiction
          · next lead middle hlead =>
            rw [Except.ok.injEq, Prod.mk.injEq] at h
            obtain ⟨rfl, rfl⟩ := h
            exact ⟨by omega, by omega, by omega, lead,
              (hshift lead).mp (byte_eq_ok.mp hlead), rfl⟩
  · rintro ⟨hbytes, hdepth, hitems, initial, hreads, rfl⟩
    rw [if_neg (by omega), if_neg (by omega), if_neg (by omega),
      byte_eq_ok.mpr ((hshift initial).mpr hreads)]

/-! Scalars. -/

theorem floatItem_eq_ok {reader : Reader} {path : Path} {width : Nat}
    {before after : Cursor} {finish : Nat → Except ErrorCode Nat} {result : Value} :
    reader.floatItem path width before finish = .ok (result, after) ↔
      ∃ bits value, bits < 256 ^ width ∧
        reader.Reads before (bigEndianBytes width bits) 0 after ∧
        finish bits = .ok value ∧ result = .float (UInt64.ofNat value) := by
  unfold floatItem
  constructor
  · intro h
    split at h
    · contradiction
    · next bits middle hbits =>
      obtain ⟨taken, hlength, hvalue, hreads⟩ := bigEndian_eq_ok.mp hbits
      split at h
      · contradiction
      · next value hfinish =>
        rw [Except.ok.injEq, Prod.mk.injEq] at h
        obtain ⟨rfl, rfl⟩ := h
        have hbound := bigEndianValue_lt taken
        have hbytes := bigEndianBytes_bigEndianValue taken
        rw [hvalue, hlength] at hbytes hbound
        exact ⟨bits, value, hbound, by rwa [hbytes], hfinish, rfl⟩
  · rintro ⟨bits, value, hbound, hreads, hfinish, rfl⟩
    have hread : reader.bigEndian path width 0 before = .ok (bits, after) := by
      refine bigEndian_eq_ok.mpr ⟨_, length_bigEndianBytes _ _, ?_, hreads⟩
      rw [bigEndianValue_bigEndianBytes, Nat.mod_eq_of_lt hbound]
    rw [hread]
    dsimp only
    rw [hfinish]

theorem finishHalf_eq_ok {bits value : Nat} (hbits : bits < 2 ^ 16) :
    finishHalf bits = .ok value ↔
      CanonicalFloatEncoding.Canonical ⟨.half, bits⟩ ∧
        value = CanonicalFloatEncoding.value ⟨.half, bits⟩ := by
  have hfinite : FloatFormat.binary64.isFinite (floatToDouble (halfToFloat bits)) = true ↔
      bits / 2 ^ 10 % 2 ^ 5 ≠ 31 := by
    rw [isFinite_floatToDouble]
    exact ⟨fun h hexponent => not_isFinite_halfToFloat hexponent h,
      fun h => (halfToFloat_finite hbits h).2⟩
  simp only [finishHalf, CanonicalFloatEncoding.Canonical, CanonicalFloatEncoding.value,
    hbits, true_and, ← hfinite]
  split
  · next hinfinite =>
    simp only [reduceCtorEq, false_iff]
    simp_all
  · next hfine =>
    rw [Bool.not_eq_true, Bool.not_eq_false'] at hfine
    simp [hfine, eq_comm]

theorem finishSingle_eq_ok {bits value : Nat} (hbits : bits < 2 ^ 32) :
    finishSingle bits = .ok value ↔
      CanonicalFloatEncoding.Canonical ⟨.single, bits⟩ ∧
        value = CanonicalFloatEncoding.value ⟨.single, bits⟩ := by
  simp only [finishSingle, CanonicalFloatEncoding.Canonical, CanonicalFloatEncoding.value,
    hbits, true_and]
  cases FloatFormat.binary32.isFinite bits <;> cases halfRepresents bits <;>
    simp [eq_comm]

theorem finishDouble_eq_ok {bits value : Nat} (hbits : bits < 2 ^ 64) :
    finishDouble bits = .ok value ↔
      CanonicalFloatEncoding.Canonical ⟨.double, bits⟩ ∧
        value = CanonicalFloatEncoding.value ⟨.double, bits⟩ := by
  simp only [finishDouble, CanonicalFloatEncoding.Canonical, CanonicalFloatEncoding.value,
    hbits, true_and]
  cases FloatFormat.binary64.isFinite bits <;> cases singleRepresents bits <;>
    simp [eq_comm]

/-- The reader's width checks for one float width, and the encoding they accept. -/
def finishFloat : CanonicalFloatWidth → Nat → Except ErrorCode Nat
  | .half => finishHalf
  | .single => finishSingle
  | .double => finishDouble

theorem finishFloat_eq_ok {width : CanonicalFloatWidth} {bits value : Nat}
    (hbits : bits < 256 ^ width.bytes) :
    finishFloat width bits = .ok value ↔
      CanonicalFloatEncoding.Canonical ⟨width, bits⟩ ∧
        value = CanonicalFloatEncoding.value ⟨width, bits⟩ := by
  cases width with
  | half => exact finishHalf_eq_ok hbits
  | single => exact finishSingle_eq_ok hbits
  | double => exact finishDouble_eq_ok hbits

theorem canonical_bits_lt {encoding : CanonicalFloatEncoding} (h : encoding.Canonical) :
    encoding.bits < 256 ^ encoding.width.bytes := by
  obtain ⟨width, bits⟩ := encoding
  cases width with
  | half => exact h.1
  | single => exact h.1
  | double => exact h.1

/-- A non-container item, with everything after its initial byte. -/
structure ScalarItem (initial : UInt8) (item : Item) (tail : Bytes) : Prop where
  scalar : item.isScalar = true
  wellFormed : item.WellFormed CanonicalFloatEncoding.Canonical
  encoding_eq : item.encoding = initial :: tail

theorem readFlatScalar_sound {reader : Reader} {path : Path} {policy : Bool}
    {initial : UInt8} {before after : Cursor} {result : Value}
    (hbytes : reader.input.size ≤ reader.limits.maxBytes)
    (h : reader.readFlatScalar path
      ⟨initial.toNat, initial.toNat >>> 5, initial.toNat &&& 31⟩ policy before =
        .ok (result, after)) :
    ∃ item tail, ScalarItem initial item tail ∧ reader.Reads before tail 0 after ∧
      item.value = result := by
  have hinitial : initial.toNat < 256 := initial.toNat_lt
  have hmask : initial.toNat &&& 31 = initial.toNat % 32 :=
    Nat.and_two_pow_sub_one_eq_mod _ 5
  have hadditional : initial.toNat &&& 31 < 32 := by omega
  have hbyte : ∀ {value : Nat}, initial.toNat = value → initial = UInt8.ofNat value := by
    intro value hvalue
    rw [← hvalue, UInt8.ofNat_toNat]
  unfold readFlatScalar at h
  dsimp only at h
  split at h
  · -- major 7: simple values and floats
    have hfloat : ∀ width : CanonicalFloatWidth, initial = floatLead width →
        reader.floatItem path width.bytes before (finishFloat width) = .ok (result, after) →
        ∃ item tail, ScalarItem initial item tail ∧ reader.Reads before tail 0 after ∧
          item.value = result := by
      intro width hlead hitem
      obtain ⟨bits, value, hbits, hreads, hfinish, rfl⟩ := floatItem_eq_ok.mp hitem
      obtain ⟨hcanonical, rfl⟩ := (finishFloat_eq_ok hbits).mp hfinish
      exact ⟨.float ⟨width, bits⟩, _, ⟨rfl, hcanonical, by rw [hlead]; rfl⟩,
        hreads, rfl⟩
    split at h
    · next hfalse =>
      rw [Except.ok.injEq, Prod.mk.injEq] at h
      obtain ⟨rfl, rfl⟩ := h
      exact ⟨.bool false, [], ⟨rfl, trivial, by rw [hbyte hfalse]; rfl⟩,
        Reads.refl reader before, rfl⟩
    · split at h
      · next htrue =>
        rw [Except.ok.injEq, Prod.mk.injEq] at h
        obtain ⟨rfl, rfl⟩ := h
        exact ⟨.bool true, [], ⟨rfl, trivial, by rw [hbyte htrue]; rfl⟩,
          Reads.refl reader before, rfl⟩
      · split at h
        · next hnull =>
          rw [Except.ok.injEq, Prod.mk.injEq] at h
          obtain ⟨rfl, rfl⟩ := h
          exact ⟨.null, [], ⟨rfl, trivial, by rw [hbyte hnull]; rfl⟩,
            Reads.refl reader before, rfl⟩
        · split at h
          · next hhalf => exact hfloat .half (hbyte hhalf) h
          · split at h
            · next hsingle => exact hfloat .single (hbyte hsingle) h
            · split at h
              · next hdouble => exact hfloat .double (hbyte hdouble) h
              · contradiction
  · split at h
    · contradiction
    · split at h
      · contradiction
      · split at h
        · contradiction
        · next argument middle hargument =>
          obtain ⟨hbound, hhead, htail⟩ := (argument_eq_ok hadditional).mp hargument
          have hlead : ∀ {major : Nat}, initial.toNat >>> 5 = major → major < 8 →
              initial = initialByte major (headAdditional argument) := by
            intro major hmajor hlt
            exact (initialByte_fields hlt (by rw [hhead]; exact hadditional)).mpr
              ⟨hmajor, hhead.symm⟩
          split at h
          · next hmajor =>
            rw [Except.ok.injEq, Prod.mk.injEq] at h
            obtain ⟨rfl, rfl⟩ := h
            exact ⟨.unsigned argument, _,
              ⟨rfl, hbound, by rw [hlead hmajor (by decide)]; rfl⟩, htail, rfl⟩
          · split at h
            · next hmajor =>
              split at h
              · contradiction
              · next hnegative =>
                rw [Except.ok.injEq, Prod.mk.injEq] at h
                obtain ⟨rfl, rfl⟩ := h
                exact ⟨.negative argument, _,
                  ⟨rfl, show argument < 2 ^ 63 by omega,
                    by rw [hlead hmajor (by decide)]; rfl⟩, htail, rfl⟩
            · split at h
              · contradiction
              · split at h
                · next hmajor =>
                  split at h
                  · contradiction
                  · split at h
                    · contradiction
                    · next payload finished hpayload =>
                      rw [Except.ok.injEq, Prod.mk.injEq] at h
                      obtain ⟨rfl, rfl⟩ := h
                      obtain ⟨hreads, rfl⟩ := (bytes_eq_ok hbytes).mp hpayload
                      exact ⟨.bytes payload, _,
                        ⟨rfl, hbound, by rw [hlead hmajor (by decide)]; rfl⟩,
                        htail.trans hreads, rfl⟩
                · split at h
                  · contradiction
                  · split at h
                    · contradiction
                    · next payload finished hpayload =>
                      rw [Except.ok.injEq, Prod.mk.injEq] at h
                      obtain ⟨rfl, rfl⟩ := h
                      obtain ⟨hreads, rfl, hvalid⟩ := (text_eq_ok hbytes).mp hpayload
                      have hmajor : initial.toNat >>> 5 = 3 := by omega
                      exact ⟨.text payload, _,
                        ⟨rfl, ⟨hbound, hvalid⟩, by rw [hlead hmajor (by decide)]; rfl⟩,
                        htail.trans hreads, rfl⟩

theorem headBytes_fields {initial : UInt8} {major argument : Nat} {tail : Bytes}
    (hmajor : major < 8) (hargument : argument < 2 ^ 64)
    (h : headBytes major argument = initial :: tail) :
    initial.toNat >>> 5 = major ∧ initial.toNat &&& 31 = headAdditional argument ∧
      tail = headTail argument := by
  rw [headBytes, List.cons.injEq] at h
  have hadditional : headAdditional argument < 32 := by
    rcases headSize_cases hargument with ⟨hsmall, -, hhead⟩ | ⟨-, -, -, -, -, hhigh, -⟩ <;>
      omega
  obtain ⟨hfield, hlow⟩ := (initialByte_fields hmajor hadditional).mp h.1.symm
  exact ⟨hfield, hlow, h.2.symm⟩

/-- The argument a well-formed head announces is the one the reader returns. -/
theorem argument_of_reads {reader : Reader} {path : Path} {initial : UInt8}
    {argument : Nat} {before after : Cursor} (hargument : argument < 2 ^ 64)
    (hadditional : initial.toNat &&& 31 = headAdditional argument)
    (h : reader.Reads before (headTail argument) 0 after) :
    reader.argument path (initial.toNat &&& 31) before = .ok (argument, after) := by
  have hmask : initial.toNat &&& 31 = initial.toNat % 32 :=
    Nat.and_two_pow_sub_one_eq_mod _ 5
  exact (argument_eq_ok (by omega)).mpr ⟨hargument, hadditional.symm, h⟩

/-- The head fields of the three float leads. -/
def floatFields : CanonicalFloatWidth → ItemHead
  | .half => ⟨0xf9, 7, 25⟩
  | .single => ⟨0xfa, 7, 26⟩
  | .double => ⟨0xfb, 7, 27⟩

theorem floatLead_fields (width : CanonicalFloatWidth) :
    (⟨(floatLead width).toNat, (floatLead width).toNat >>> 5,
      (floatLead width).toNat &&& 31⟩ : ItemHead) = floatFields width := by
  cases width <;> rfl

theorem readFlatScalar_float {reader : Reader} {path : Path} {policy : Bool}
    {encoding : CanonicalFloatEncoding} {before after : Cursor}
    (hcanonical : encoding.Canonical)
    (h : reader.Reads before (bigEndianBytes encoding.width.bytes encoding.bits) 0 after) :
    reader.readFlatScalar path ⟨(floatLead encoding.width).toNat,
      (floatLead encoding.width).toNat >>> 5, (floatLead encoding.width).toNat &&& 31⟩
      policy before = .ok (.float (UInt64.ofNat encoding.value), after) := by
  have hitem : reader.floatItem path encoding.width.bytes before
      (finishFloat encoding.width) = .ok (.float (UInt64.ofNat encoding.value), after) :=
    floatItem_eq_ok.mpr ⟨encoding.bits, encoding.value, canonical_bits_lt hcanonical, h,
      (finishFloat_eq_ok (canonical_bits_lt hcanonical)).mpr ⟨hcanonical, rfl⟩, rfl⟩
  obtain ⟨width, bits⟩ := encoding
  cases width with
  | half =>
      rw [floatLead_fields]
      dsimp only [floatFields]
      rw [readFlatScalar, if_pos (by decide), if_neg (by decide), if_neg (by decide),
        if_neg (by decide), if_pos (by decide)]
      exact hitem
  | single =>
      rw [floatLead_fields]
      dsimp only [floatFields]
      rw [readFlatScalar, if_pos (by decide), if_neg (by decide), if_neg (by decide),
        if_neg (by decide), if_neg (by decide), if_pos (by decide)]
      exact hitem
  | double =>
      rw [floatLead_fields]
      dsimp only [floatFields]
      rw [readFlatScalar, if_pos (by decide), if_neg (by decide), if_neg (by decide),
        if_neg (by decide), if_neg (by decide), if_neg (by decide), if_pos (by decide)]
      exact hitem

theorem readFlatScalar_complete {reader : Reader} {path : Path} {policy : Bool}
    {initial : UInt8} {item : Item} {tail : Bytes} {before after : Cursor}
    (hbytes : reader.input.size ≤ reader.limits.maxBytes)
    (hpolicy : policy = true → reader.limits.allocationPolicy = none)
    (hitem : ScalarItem initial item tail) (h : reader.Reads before tail 0 after) :
    reader.readFlatScalar path
      ⟨initial.toNat, initial.toNat >>> 5, initial.toNat &&& 31⟩ policy before =
        .ok (item.value, after) := by
  obtain ⟨hscalar, hwellFormed, hencoding⟩ := hitem
  have hallowed : ∀ kind size, (policy && !reader.allocationAllowed path kind size) = false := by
    intro kind size
    cases policy with
    | false => rfl
    | true =>
        rw [allocationAllowed, hpolicy rfl]
        rfl
  cases item with
  | null =>
      cases hencoding
      rw [h.after_eq]
      rfl
  | bool value =>
      cases value <;>
      · cases hencoding
        rw [h.after_eq]
        rfl
  | float encoding =>
      cases hencoding
      exact readFlatScalar_float hwellFormed h
  | unsigned argument =>
      have hbound : argument < 2 ^ 64 := hwellFormed
      obtain ⟨hmajor, hadditional, rfl⟩ := headBytes_fields (by decide) hbound hencoding
      simp only [readFlatScalar, hmajor, argument_of_reads hbound hadditional h]
      rfl
  | negative argument =>
      have hbound : argument < 2 ^ 63 := hwellFormed
      obtain ⟨hmajor, hadditional, rfl⟩ :=
        headBytes_fields (by decide) (by omega : argument < 2 ^ 64) hencoding
      simp only [readFlatScalar, hmajor,
        argument_of_reads (by omega : argument < 2 ^ 64) hadditional h]
      rw [if_neg (by decide), if_neg (by decide), if_neg (by decide), if_neg (by decide),
        if_pos trivial, if_neg (by omega)]
      rfl
  | bytes payload =>
      have hbound : payload.length < 2 ^ 64 := hwellFormed
      simp only [Item.encoding, headBytes, List.cons_append] at hencoding
      rw [List.cons.injEq] at hencoding
      obtain ⟨hinitial, rfl⟩ := hencoding
      obtain ⟨hmajor, hadditional, -⟩ := headBytes_fields (by decide) hbound
        (show headBytes 2 payload.length = initial :: headTail payload.length by
          rw [headBytes, hinitial])
      obtain ⟨middle, hhead, hpayload⟩ := Reads.split
        (show reader.Reads before (headTail payload.length ++ payload) (0 + 0) after from h)
      simp only [readFlatScalar, hmajor, argument_of_reads hbound hadditional hhead, hallowed,
        (bytes_eq_ok hbytes).mpr ⟨hpayload, rfl⟩]
      rw [if_neg (by decide), if_neg (by decide), if_neg (by decide), if_neg (by decide),
        if_neg (by decide), if_neg (by omega), if_neg Bool.false_ne_true, if_pos trivial]
      rfl
  | text payload =>
      obtain ⟨hbound, hvalid⟩ := hwellFormed
      simp only [Item.encoding, textBytes, headBytes, List.cons_append] at hencoding
      rw [List.cons.injEq] at hencoding
      obtain ⟨hinitial, rfl⟩ := hencoding
      obtain ⟨hmajor, hadditional, -⟩ := headBytes_fields (by decide) hbound
        (show headBytes 3 payload.length = initial :: headTail payload.length by
          rw [headBytes, hinitial])
      obtain ⟨middle, hhead, hpayload⟩ := Reads.split
        (show reader.Reads before (headTail payload.length ++ payload) (0 + 0) after from h)
      simp only [readFlatScalar, hmajor, argument_of_reads hbound hadditional hhead, hallowed,
        (text_eq_ok hbytes).mpr ⟨hpayload, rfl, hvalid⟩]
      rw [if_neg (by decide), if_neg (by decide), if_neg (by decide), if_neg (by decide),
        if_neg (by decide), if_neg (by omega), if_neg Bool.false_ne_true, if_neg (by decide)]
      rfl
  | array items => contradiction
  | object members => contradiction

end Reader

end Mmltk.Wire
