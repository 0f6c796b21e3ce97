import Mmltk.Foundation.Probing
import Mmltk.Wire.ReaderLanguage

namespace Mmltk.Wire

open Mmltk.Foundation
open Mmltk.Text

/-! Validation without values: the keys of a map are told apart by where they stand in the input,
in a table the caller lends. -/

/-- Where the entries are, since the hash of a key is salted with the addresses. -/
structure StructuralReader extends Reader where
  scratchSize : Nat
  inputAddress : UInt64
  scratchAddress : UInt64

structure TextRange where
  itemOffset : Nat
  dataOffset : Nat
  size : Nat
  deriving DecidableEq, Repr

structure StructuralCursor where
  cursor : Cursor
  keyOffsets : Nat → Nat
  scratchCursor : Nat

def structuralKeyHash (key : Bytes) (salt : UInt64) : UInt64 :=
  let seed : UInt64 := 0x9e3779b97f4a7c15
  let hash : UInt64 := key.foldl (fun hash value =>
    (hash ^^^ (value.toUInt64 + seed + (hash <<< 6) + (hash >>> 2))) * 0xbf58476d1ce4e5b9)
    (seed ^^^ salt)
  let hash := (hash ^^^ (hash >>> 30)) * 0xbf58476d1ce4e5b9
  let hash := (hash ^^^ (hash >>> 27)) * 0x94d049bb133111eb
  hash ^^^ (hash >>> 31)

namespace Reader

/-- The branch of `read_flat_scalar` without materialisation. -/
def skipFlatScalar (reader : Reader) (head : ItemHead) (cursor : Cursor) : Except Error Cursor :=
  if head.major = 2 ∨ head.major = 3 then
    match reader.argument [] head.additional cursor with
    | .error failure => .error failure
    | .ok (count, cursor) =>
        if 2 ^ 64 - 1 < count then .error (error [] cursor .overflow)
        else
          match reader.validatedPayloadRanges [] count cursor with
          | .error failure => .error failure
          | .ok _ =>
              if head.major = 3 ∧
                  ¬ validUtf8 ((reader.input.first.drop cursor.offset).take count) then
                .error (error [] cursor .invalidUtf8)
              else .ok { cursor with offset := cursor.offset + count }
  else
    match reader.readFlatScalar [] head false cursor with
    | .error failure => .error failure
    | .ok (_, cursor) => .ok cursor

def readStructuralObjectKey (reader : Reader) (depth : Nat) (cursor : Cursor) :
    Except Error (TextRange × Cursor) :=
  match reader.itemHead [] depth cursor with
  | .error failure => .error failure
  | .ok (head, next) =>
      if head.major ≠ 3 then .error (error [] next .typeMismatch)
      else
        match reader.sizeArgument [] head.additional next with
        | .error failure => .error failure
        | .ok (count, next) =>
            if reader.input.size - next.offset < count then .error (error [] next .unexpectedEof)
            else if reader.limits.maxBytes < next.offset ∨
                reader.limits.maxBytes - next.offset < count then
              .error (error [] next .limitExceeded)
            else if ¬ validUtf8 ((reader.input.first.drop next.offset).take count) then
              .error (error [] next .invalidUtf8)
            else
              .ok (⟨cursor.offset, next.offset, count⟩,
                { next with offset := next.offset + count })

def keyBytes (reader : Reader) (key : TextRange) : Bytes :=
  (reader.input.first.drop key.dataOffset).take key.size

end Reader

namespace StructuralReader

/-- The loop over the slots of the table that starts at `start`. -/
def probeKeys (reader : StructuralReader) (cursor : Cursor) (key : TextRange) (start size : Nat)
    (keyOffsets : Nat → Nat) : (probes slot : Nat) → Except Error (Nat → Nat)
  | 0, _ => .error (Reader.error [] cursor .limitExceeded)
  | probes + 1, slot =>
      if keyOffsets (start + slot) = 0 then
        .ok (Function.update keyOffsets (start + slot) (key.itemOffset + 1))
      else
        match reader.readStructuralObjectKey 0 ⟨keyOffsets (start + slot) - 1, 0⟩ with
        | .error _ => .error (Reader.error [] cursor .malformedItem)
        | .ok (previous, _) =>
            if reader.keyBytes key = reader.keyBytes previous then
              .error (Reader.error [] cursor .duplicateKey)
            else
              reader.probeKeys cursor key start size keyOffsets probes
                (if slot + 1 = size then 0 else slot + 1)

def salt (reader : StructuralReader) (start : Nat) : UInt64 :=
  reader.inputAddress ^^^ (reader.scratchAddress + 4 * UInt64.ofNat start)

def insertStructuralObjectKey (reader : StructuralReader) (cursor : Cursor) (key : TextRange)
    (start size : Nat) (keyOffsets : Nat → Nat) : Except Error (Nat → Nat) :=
  if size = 0 ∨ 2 ^ 32 - 1 ≤ key.itemOffset then .error (Reader.error [] cursor .limitExceeded)
  else
    reader.probeKeys cursor key start size keyOffsets size
      ((structuralKeyHash (reader.keyBytes key) (reader.salt start)).toNat % size)

def skipElements (skip : StructuralCursor → Except Error StructuralCursor) :
    (count : Nat) → StructuralCursor → Except Error StructuralCursor
  | 0, state => .ok state
  | count + 1, state =>
      match skip state with
      | .error failure => .error failure
      | .ok state => skipElements skip count state

def skipMembers (reader : StructuralReader) (depth start size : Nat)
    (skip : StructuralCursor → Except Error StructuralCursor) :
    (count : Nat) → StructuralCursor → Except Error StructuralCursor
  | 0, state => .ok state
  | count + 1, state =>
      match reader.readStructuralObjectKey depth state.cursor with
      | .error failure => .error failure
      | .ok (key, cursor) =>
          match reader.insertStructuralObjectKey cursor key start size state.keyOffsets with
          | .error failure => .error failure
          | .ok keyOffsets =>
              match skip { state with cursor, keyOffsets } with
              | .error failure => .error failure
              | .ok state => reader.skipMembers depth start size skip count state

/-- The table of a map, with every entry zero. -/
def clearTable (keyOffsets : Nat → Nat) (start size : Nat) : Nat → Nat :=
  fun entry => if start ≤ entry ∧ entry < start + size then 0 else keyOffsets entry

/-- `read_item` without materialisation; `levels` as in `readItem`. -/
def skipItem (reader : StructuralReader) :
    (levels depth : Nat) → StructuralCursor → Except Error StructuralCursor
  | 0, depth, state =>
      match reader.itemHead [] depth state.cursor with
      | .error failure => .error failure
      | .ok (_, cursor) => .error (Reader.error [] cursor .depthExceeded)
  | levels + 1, depth, state =>
      match reader.itemHead [] depth state.cursor with
      | .error failure => .error failure
      | .ok (head, cursor) =>
          if head.major ≠ 4 ∧ head.major ≠ 5 then
            match reader.skipFlatScalar head cursor with
            | .error failure => .error failure
            | .ok cursor => .ok { state with cursor }
          else
            match reader.sizeArgument [] head.additional cursor with
            | .error failure => .error failure
            | .ok (count, cursor) =>
                if head.major = 4 then
                  if !fitsRemaining count cursor.items reader.limits.maxItems then
                    .error (Reader.error [] cursor .limitExceeded)
                  else
                    skipElements (reader.skipItem levels (depth + 1)) count { state with cursor }
                else
                  if (reader.limits.maxItems - cursor.items) / 2 < count then
                    .error (Reader.error [] cursor .limitExceeded)
                  else if reader.scratchSize < state.scratchCursor then
                    .error (Reader.error [] cursor .limitExceeded)
                  else if (reader.scratchSize - state.scratchCursor) / 2 < count then
                    .error (Reader.error [] cursor .limitExceeded)
                  else
                    match reader.skipMembers (depth + 1) state.scratchCursor (count * 2)
                        (reader.skipItem levels (depth + 1)) count
                        ⟨cursor, clearTable state.keyOffsets state.scratchCursor (count * 2),
                          state.scratchCursor + count * 2⟩ with
                    | .error failure => .error failure
                    | .ok after => .ok { after with scratchCursor := state.scratchCursor }

def validateStructural (reader : StructuralReader) (keyOffsets : Nat → Nat) : Except Error Unit :=
  if reader.input.second ≠ [] then .error (Reader.error [] ⟨0, 0⟩ .malformedItem)
  else if reader.limits.maxBytes < reader.input.size then
    .error (Reader.error [] ⟨0, 0⟩ .limitExceeded)
  else if 2 ^ 32 - 1 ≤ reader.input.size ∨ reader.scratchSize < reader.limits.maxItems then
    .error (Reader.error [] ⟨0, 0⟩ .limitExceeded)
  else
    match reader.skipItem (reader.limits.maxDepth + 1) 0 ⟨⟨0, 0⟩, keyOffsets, 0⟩ with
    | .error failure => .error failure
    | .ok state => reader.finish state.cursor

end StructuralReader

/-- The scratch area the caller lends, with what it holds. -/
structure StructuralValidationScratch where
  keyOffsets : Nat → Nat
  size : Nat
  address : UInt64

def validateRawItem (bytes : ByteSegments) (limits : Limits) : Except Error Unit :=
  match decode bytes limits with
  | .error failure => .error failure
  | .ok _ => .ok ()

def validateRawItemStructural (bytes : Bytes) (address : UInt64) (limits : Limits)
    (scratch : StructuralValidationScratch) : Except Error Unit :=
  StructuralReader.validateStructural ⟨⟨⟨bytes, []⟩, limits⟩, scratch.size, address,
    scratch.address⟩ scratch.keyOffsets

/-! ### What is read without values -/

namespace Reader

section

variable {reader : Reader} {head : ItemHead} {depth count : Nat} {before after cursor : Cursor}

/-- In one segment the payload is the part of it behind the offset. -/
theorem payload_eq (hsecond : reader.input.second = []) {ranges : ByteSegments}
    (h : reader.validatedPayloadRanges [] count cursor = .ok ranges) :
    ranges.first ++ ranges.second = (reader.input.first.drop cursor.offset).take count := by
  have hranges : ranges = reader.payloadRanges count cursor := by
    unfold validatedPayloadRanges at h
    split at h
    · cases h
    · split at h
      · cases h
      · exact (Except.ok.inj h).symm
  have hbytes := reader.payloadRanges_bytes count cursor
  rw [rest, ByteSegments.bytes, ByteSegments.bytes, hsecond, List.append_nil] at hbytes
  rw [hranges, hbytes]

theorem text_eq (hsecond : reader.input.second = []) :
    reader.text [] count cursor =
      match reader.validatedPayloadRanges [] count cursor with
      | .error failure => .error failure
      | .ok _ =>
          let payload := (reader.input.first.drop cursor.offset).take count
          let cursor := { cursor with offset := cursor.offset + count }
          if !validUtf8 payload then .error (error [] cursor .invalidUtf8)
          else .ok (payload, cursor) := by
  rw [text]
  cases hranges : reader.validatedPayloadRanges [] count cursor with
  | error failure => rfl
  | ok ranges =>
      dsimp only
      rw [payload_eq hsecond hranges]

theorem skipFlatScalar_eq_ok (hsecond : reader.input.second = []) :
    reader.skipFlatScalar head before = .ok after ↔
      ∃ value, reader.readFlatScalar [] head false before = .ok (value, after) := by
  unfold skipFlatScalar
  split
  next hmajor =>
    rw [readFlatScalar, if_neg (by omega), if_neg (by omega), if_neg (by omega)]
    cases reader.argument [] head.additional before with
    | error failure => simp
    | ok argument =>
        obtain ⟨count, middle⟩ := argument
        dsimp only
        rw [if_neg (show head.major ≠ 0 by omega), if_neg (show head.major ≠ 1 by omega)]
        split
        · simp
        · rw [Bool.false_and, if_neg Bool.false_ne_true, Reader.bytes, text_eq hsecond]
          cases hranges : reader.validatedPayloadRanges [] count middle with
          | error failure => rcases hmajor with hmajor | hmajor <;> simp [hmajor]
          | ok ranges =>
              rcases hmajor with hmajor | hmajor
              · simp [hmajor]
              · simp only [hmajor]
                cases validUtf8 ((reader.input.first.drop middle.offset).take count) <;> simp
  next hmajor =>
    cases reader.readFlatScalar [] head false before with
    | error failure => simp
    | ok read => simp [Prod.ext_iff]

theorem rest_of_second (hsecond : reader.input.second = []) (cursor : Cursor) :
    reader.rest cursor = reader.input.first.drop cursor.offset := by
  rw [rest, ByteSegments.bytes, hsecond, List.append_nil]

/-- What a key is that was read at an offset. -/
structure KeyRead (reader : Reader) (before : Cursor) (range : TextRange) (key : Bytes) : Prop where
  item : range.itemOffset = before.offset
  bytes : reader.keyBytes range = key

theorem structuralKey_sound (hsecond : reader.input.second = []) {range : TextRange}
    (h : reader.readStructuralObjectKey depth before = .ok (range, after)) :
    ∃ key, (key.length < 2 ^ 64 ∧ Text.WellFormed key) ∧
      reader.Consumes depth before (textBytes key) 1 0 after ∧ reader.KeyRead before range key := by
  unfold readStructuralObjectKey at h
  split at h
  · contradiction
  next head next hhead =>
    obtain ⟨hbytes, hdepth, hitems, initial, hinitial, rfl⟩ := itemHead_eq_ok.mp hhead
    have hmask : initial.toNat &&& 31 = initial.toNat % 32 :=
      Nat.and_two_pow_sub_one_eq_mod _ 5
    dsimp only at h
    split at h
    · contradiction
    next hmajor =>
      rw [not_not] at hmajor
      split at h
      · contradiction
      next count start hcount =>
        obtain ⟨hbound, hargument, hstart⟩ := (sizeArgument_eq_ok (by omega)).mp hcount
        split at h
        · contradiction
        next hroom =>
          split at h
          · contradiction
          · split at h
            · contradiction
            next hvalid =>
              cases h
              rw [not_not, Text.validUtf8_iff, ← rest_of_second hsecond] at hvalid
              obtain ⟨hpayload, hlength⟩ := reads_payload.mpr ⟨Nat.le_of_not_lt hroom, rfl, rfl⟩
              have hlead : initial = initialByte 3 (headAdditional count) :=
                (initialByte_fields (by decide) (by omega)).mpr ⟨hmajor, hargument.symm⟩
              refine ⟨(reader.rest start).take count, ⟨hlength.trans_lt hbound, hvalid⟩,
                ⟨?_, hdepth, ?_⟩, rfl, ?_⟩
              · rw [textBytes, headBytes, hlength, ← hlead]
                exact (hinitial.trans hstart).trans hpayload
              · rw [hstart.items_eq, hinitial.items_eq]
                exact hitems
              · rw [rest_of_second hsecond]
                rfl

theorem structuralKey_complete (hsecond : reader.input.second = [])
    (hbytes : reader.input.size ≤ reader.limits.maxBytes) {key : Bytes}
    (hkey : key.length < 2 ^ 64 ∧ Text.WellFormed key)
    (h : reader.Consumes depth before (textBytes key) 1 0 after) :
    ∃ range, reader.readStructuralObjectKey depth before = .ok (range, after) ∧
      reader.KeyRead before range key := by
  have hreads := h.reads
  have hinside : after.offset ≤ reader.input.size := by
    refine hreads.offset_le ?_
    have htaken := hreads.taken_length_le
    rw [textBytes, headBytes, List.cons_append, List.length_cons] at htaken
    omega
  obtain ⟨head, middle, start, hhead, hfield, hsize, hpayload⟩ :=
    container_parts hbytes [] (by decide : 3 < 8) hkey.1
      (show reader.Consumes depth before (headBytes 3 key.length ++ key) (1 + 0) 0 after from h)
  obtain ⟨hfits, htaken, hafter⟩ := reads_payload.mp ⟨hpayload.reads, rfl⟩
  rw [rest_of_second hsecond] at htaken
  have hstart := congrArg Cursor.offset hafter
  dsimp only at hstart
  refine ⟨⟨before.offset, start.offset, key.length⟩, ?_, rfl, htaken.symm⟩
  rw [readStructuralObjectKey, hhead]
  dsimp only
  rw [hfield, if_neg (by decide), hsize]
  dsimp only
  rw [if_neg (by omega), if_neg (by omega), ← htaken, if_neg, hafter]
  rw [not_not, Text.validUtf8_iff]
  exact hkey.2

/-- A key that was read once is read again at its offset. -/
theorem structuralKey_again (hsecond : reader.input.second = [])
    (hbytes : reader.input.size ≤ reader.limits.maxBytes) {key : Bytes}
    (hkey : key.length < 2 ^ 64 ∧ Text.WellFormed key)
    (h : reader.Consumes depth before (textBytes key) 1 0 after) :
    ∃ range last, reader.readStructuralObjectKey 0 ⟨before.offset, 0⟩ = .ok (range, last) ∧
      reader.keyBytes range = key := by
  obtain ⟨hreads, -, hitems⟩ := h
  rw [hreads.items_eq] at hitems
  have hagain : reader.Consumes 0 ⟨before.offset, 0⟩ (textBytes key) 1 0 ⟨after.offset, 1⟩ :=
    ⟨⟨hreads.rest_eq, hreads.offset_eq, rfl⟩, Nat.zero_le _, by
      rw [← Nat.zero_add 1]
      exact (Nat.add_le_add_right (Nat.zero_le _) 1).trans hitems⟩
  obtain ⟨range, hrange, hread⟩ := structuralKey_complete hsecond hbytes hkey hagain
  exact ⟨range, _, hrange, hread.bytes⟩

end

end Reader

namespace StructuralReader

/-- The input is one segment that the entries of the table can point into. -/
structure Ready (reader : StructuralReader) : Prop where
  single : reader.input.second = []
  bytes_le : reader.input.size ≤ reader.limits.maxBytes
  short : reader.input.size < 2 ^ 32 - 1

/-- The key that a slot of the table at `start` points to. -/
def storedKey (reader : StructuralReader) (keyOffsets : Nat → Nat) (start size slot : Nat) :
    Option Bytes :=
  if size ≤ slot ∨ keyOffsets (start + slot) = 0 then none
  else
    match reader.readStructuralObjectKey 0 ⟨keyOffsets (start + slot) - 1, 0⟩ with
    | .error _ => none
    | .ok (key, _) => some (reader.keyBytes key)

def homeSlot (reader : StructuralReader) (start : Nat) (key : Bytes) : Nat :=
  (structuralKeyHash key (reader.salt start)).toNat

/-- The table at `start` has these keys. -/
structure Table (reader : StructuralReader) (start size : Nat) (keyOffsets : Nat → Nat)
    (keys : List Bytes) : Prop where
  readable : ∀ slot < size, keyOffsets (start + slot) ≠ 0 → ∃ range last,
    reader.readStructuralObjectKey 0 ⟨keyOffsets (start + slot) - 1, 0⟩ = .ok (range, last)
  chained : Chained size (reader.homeSlot start) (reader.storedKey keyOffsets start size)
  occupied : (occupied size (reader.storedKey keyOffsets start size)).card ≤ keys.length
  keys : ∀ key, key ∈ keys ↔ ∃ slot < size, reader.storedKey keyOffsets start size slot = some key

section

variable {reader : StructuralReader} {start size depth : Nat} {keyOffsets others : Nat → Nat}
  {keys : List Bytes} {cursor before after : Cursor} {key : Bytes} {range : TextRange}

theorem Table.frame (h : reader.Table start size keyOffsets keys)
    (hsame : ∀ entry < start + size, others entry = keyOffsets entry) :
    reader.Table start size others keys := by
  have hstored : reader.storedKey others start size = reader.storedKey keyOffsets start size := by
    funext slot
    rw [storedKey, storedKey]
    rcases Nat.lt_or_ge slot size with hslot | hslot
    · rw [hsame _ (Nat.add_lt_add_left hslot _)]
    · rw [if_pos (.inl hslot), if_pos (.inl hslot)]
  refine ⟨fun slot hslot hfull => ?_, hstored ▸ h.chained, hstored ▸ h.occupied, ?_⟩
  · rw [hsame _ (Nat.add_lt_add_left hslot _)] at hfull ⊢
    exact h.readable slot hslot hfull
  · rw [hstored]
    exact h.keys

theorem table_cleared (reader : StructuralReader) (keyOffsets : Nat → Nat) (start size : Nat) :
    reader.Table start size (clearTable keyOffsets start size) [] := by
  have hzero : ∀ slot < size, clearTable keyOffsets start size (start + slot) = 0 :=
    fun slot hslot => if_pos ⟨Nat.le_add_right _ _, Nat.add_lt_add_left hslot _⟩
  have hstored : reader.storedKey (clearTable keyOffsets start size) start size =
      fun _ => none := by
    funext slot
    refine if_pos ?_
    rcases Nat.lt_or_ge slot size with hslot | hslot
    · exact .inr (hzero slot hslot)
    · exact .inl hslot
  refine ⟨fun slot hslot hfull => absurd (hzero slot hslot) hfull, hstored ▸ chained_empty, ?_,
    fun key => ?_⟩
  · rw [hstored, Foundation.occupied]
    simp
  · rw [hstored]
    simp

theorem storedKey_read (h : reader.Table start size keyOffsets keys) {slot : Nat}
    (hslot : slot < size)
    (hfull : keyOffsets (start + slot) ≠ 0) :
    ∃ range last, reader.readStructuralObjectKey 0 ⟨keyOffsets (start + slot) - 1, 0⟩ =
        .ok (range, last) ∧
      reader.storedKey keyOffsets start size slot = some (reader.keyBytes range) := by
  obtain ⟨range, last, hread⟩ := h.readable slot hslot hfull
  refine ⟨range, last, hread, ?_⟩
  rw [storedKey, if_neg (not_or.mpr ⟨Nat.not_le_of_lt hslot, hfull⟩), hread]

/-- The loop over the slots ends where the search for the key does. -/
theorem probeKeys_eq (h : reader.Table start size keyOffsets keys) {slot : Nat}
    (hslot : slot < size) (probes : Nat) :
    reader.probeKeys cursor range start size keyOffsets probes slot =
      match probe size (reader.storedKey keyOffsets start size) (reader.keyBytes range) probes
        slot with
      | none => .error (Reader.error [] cursor .limitExceeded)
      | some found =>
          if reader.storedKey keyOffsets start size found = none then
            .ok (Function.update keyOffsets (start + found) (range.itemOffset + 1))
          else .error (Reader.error [] cursor .duplicateKey) := by
  induction probes generalizing slot with
  | zero => rfl
  | succ probes ih =>
      rw [probeKeys, probe]
      split
      next hzero =>
        have hnone : reader.storedKey keyOffsets start size slot = none := if_pos (.inr hzero)
        rw [hnone]
        dsimp only
        rw [if_pos hnone]
      next hfull =>
        obtain ⟨previous, last, hread, hstored⟩ := storedKey_read h hslot hfull
        rw [hread, hstored]
        dsimp only
        by_cases hsame : reader.keyBytes range = reader.keyBytes previous
        · rw [if_pos hsame, if_pos hsame.symm]
          dsimp only
          rw [if_neg (by rw [hstored]; exact Option.some_ne_none _)]
        · rw [if_neg hsame, if_neg (Ne.symm hsame)]
          have hnext : (if slot + 1 = size then 0 else slot + 1) = (slot + 1) % size := by
            split
            next hend => rw [hend, Nat.mod_self]
            next hend => exact (Nat.mod_eq_of_lt (by omega)).symm
          rw [hnext, ih (Nat.mod_lt _ (Nat.zero_lt_of_lt hslot))]

/-- A key is put into the table unless it is there already. -/
theorem insertStructuralObjectKey_spec (hready : reader.Ready)
    (h : reader.Table start size keyOffsets keys) (hroom : keys.length < size)
    (hkey : key.length < 2 ^ 64 ∧ Text.WellFormed key)
    (hread : reader.Consumes depth before (textBytes key) 1 0 after)
    (hrange : reader.KeyRead before range key) :
    (key ∈ keys → ∃ failure,
      reader.insertStructuralObjectKey cursor range start size keyOffsets = .error failure) ∧
    (key ∉ keys → ∃ others,
      reader.insertStructuralObjectKey cursor range start size keyOffsets = .ok others ∧
        reader.Table start size others (key :: keys) ∧
        ∀ entry, entry < start ∨ start + size ≤ entry → others entry = keyOffsets entry) := by
  have hsize : 0 < size := Nat.zero_lt_of_lt hroom
  have hoffset : range.itemOffset < 2 ^ 32 - 1 := by
    have htaken := hread.reads.taken_length_le
    rw [textBytes, headBytes, List.cons_append, List.length_cons] at htaken
    have hshort := hready.short
    rw [hrange.item]
    omega
  obtain ⟨slot, hslot, hprobe, hends⟩ := probe_ends
    (exists_free (h.occupied.trans_lt hroom)) h.chained key
  have hinsert := @probeKeys_eq reader start size keyOffsets keys cursor range h
    (reader.homeSlot start key % size) (Nat.mod_lt _ hsize) size
  rw [hrange.bytes, hprobe] at hinsert
  rw [insertStructuralObjectKey, if_neg (not_or.mpr ⟨hsize.ne', Nat.not_le_of_lt hoffset⟩),
    hrange.bytes, show (structuralKeyHash key (reader.salt start)).toNat = reader.homeSlot start key
      from rfl, hinsert]
  dsimp only
  constructor
  · intro hmem
    obtain ⟨other, hother, hstored⟩ := (h.keys key).mp hmem
    rcases hends with hfound | ⟨-, hnone, -⟩
    · rw [hfound]
      exact ⟨_, rfl⟩
    · exact absurd hstored (hnone other hother)
  · intro hfresh
    rcases hends with hfound | ⟨hfree, -, hchained⟩
    · exact absurd ((h.keys key).mpr ⟨slot, hslot, hfound⟩) hfresh
    · rw [if_pos hfree]
      obtain ⟨again, last, hagain, hbytes⟩ :=
        Reader.structuralKey_again hready.single hready.bytes_le hkey hread
      have hstored : reader.storedKey
          (Function.update keyOffsets (start + slot) (range.itemOffset + 1)) start size =
            Function.update (reader.storedKey keyOffsets start size) slot (some key) := by
        funext other
        rcases eq_or_ne other slot with rfl | hne
        · rw [Function.update_self, storedKey, Function.update_self,
            if_neg (by omega), Nat.add_sub_cancel, hrange.item, hagain]
          exact congrArg some hbytes
        · rw [Function.update_of_ne hne, storedKey, storedKey, Function.update_of_ne (by omega)]
      refine ⟨_, rfl, ⟨fun other hother hfull => ?_, hstored ▸ hchained, ?_, fun other => ?_⟩,
        fun entry hentry => Function.update_of_ne (by omega) _ _⟩
      · rcases eq_or_ne other slot with rfl | hne
        · rw [Function.update_self, Nat.add_sub_cancel, hrange.item]
          exact ⟨again, last, hagain⟩
        · rw [Function.update_of_ne (by omega)] at hfull ⊢
          exact h.readable other hother hfull
      · rw [hstored]
        exact (occupied_update_le slot).trans (Nat.add_le_add_right h.occupied 1)
      · rw [hstored, List.mem_cons, h.keys]
        constructor
        · rintro (rfl | ⟨place, hplace, hat⟩)
          · exact ⟨slot, hslot, Function.update_self ..⟩
          · refine ⟨place, hplace, ?_⟩
            rw [Function.update_of_ne, hat]
            rintro rfl
            rw [hfree] at hat
            cases hat
        · rintro ⟨place, hplace, hat⟩
          rcases eq_or_ne place slot with rfl | hne
          · rw [Function.update_self] at hat
            exact .inl (Option.some.inj hat).symm
          · rw [Function.update_of_ne hne] at hat
            exact .inr ⟨place, hplace, hat⟩

/-- What is left alone below `bound` by a read that gives its table back. -/
structure Returns (before after : StructuralCursor) (bound : Nat) : Prop where
  scratchCursor : after.scratchCursor = before.scratchCursor
  keyOffsets : ∀ entry < bound, after.keyOffsets entry = before.keyOffsets entry

theorem Returns.trans {first second third : StructuralCursor} {bound : Nat}
    (h : Returns first second bound) (hlater : Returns second third bound) :
    Returns first third bound where
  scratchCursor := hlater.scratchCursor.trans h.scratchCursor
  keyOffsets entry hentry := (hlater.keyOffsets entry hentry).trans (h.keyOffsets entry hentry)

/-- What is promised of each item that is skipped. -/
def SkipSound (reader : StructuralReader) (depth : Nat)
    (skip : StructuralCursor → Except Error StructuralCursor) : Prop :=
  ∀ before after, skip before = .ok after → ∃ item : Item, item.Canonical ∧
    reader.Consumes depth before.cursor item.encoding item.count item.height after.cursor ∧
    Returns before after before.scratchCursor

theorem skipElements_sound {skip : StructuralCursor → Except Error StructuralCursor}
    (hskip : reader.SkipSound (depth + 1) skip) {count : Nat} {before after : StructuralCursor}
    (hdepth : depth ≤ reader.limits.maxDepth)
    (hitems : before.cursor.items ≤ reader.limits.maxItems)
    (h : skipElements skip count before = .ok after) :
    ∃ items : List Item, items.length = count ∧
      Item.WellFormedItems CanonicalFloatEncoding.Canonical items ∧
      reader.Consumes depth before.cursor (Item.encodingItems items) (Item.countItems items)
        (Item.heightItems items) after.cursor ∧ Returns before after before.scratchCursor := by
  induction count generalizing before with
  | zero =>
      obtain rfl := Except.ok.inj h
      exact ⟨[], rfl, trivial, ⟨.refl _ _, hdepth, hitems⟩, rfl, fun _ _ => rfl⟩
  | succ count ih =>
      rw [skipElements] at h
      split at h
      · cases h
      next middle hfirst =>
        obtain ⟨item, hitem, hread, hback⟩ := hskip _ _ hfirst
        obtain ⟨items, rfl, hrest, hlater, hreturns⟩ := ih hread.items_le h
        rw [hback.scratchCursor] at hreturns
        refine ⟨item :: items, rfl, ⟨hitem, hrest⟩,
          ⟨hread.reads.trans hlater.reads, ?_, hlater.items_le⟩, hback.trans hreturns⟩
        have hown := hread.depth_le
        have hothers := hlater.depth_le
        rw [Item.heightItems]
        omega

theorem skipMembers_sound (hready : reader.Ready)
    {skip : StructuralCursor → Except Error StructuralCursor}
    (hskip : reader.SkipSound (depth + 1) skip) {count : Nat} {before after : StructuralCursor}
    (hdepth : depth ≤ reader.limits.maxDepth)
    (hitems : before.cursor.items ≤ reader.limits.maxItems)
    (htable : reader.Table start size before.keyOffsets keys) (hroom : keys.length + count ≤ size)
    (hplace : start + size ≤ before.scratchCursor)
    (h : reader.skipMembers (depth + 1) start size skip count before = .ok after) :
    ∃ members : List (Bytes × Item), members.length = count ∧
      (members.map Prod.fst).Nodup ∧ (∀ key ∈ keys, key ∉ members.map Prod.fst) ∧
      Item.WellFormedMembers CanonicalFloatEncoding.Canonical members ∧
      reader.Consumes depth before.cursor (Item.encodingMembers members)
        (Item.countMembers members) (Item.heightMembers members) after.cursor ∧
      Returns before after start := by
  induction count generalizing before keys with
  | zero =>
      obtain rfl := Except.ok.inj h
      exact ⟨[], rfl, List.nodup_nil, fun _ _ => List.not_mem_nil, trivial,
        ⟨.refl _ _, hdepth, hitems⟩, rfl, fun _ _ => rfl⟩
  | succ count ih =>
      rw [skipMembers] at h
      split at h
      · cases h
      next range afterKey hrange =>
        obtain ⟨key, hkey, hkeyRead, hat⟩ := Reader.structuralKey_sound hready.single hrange
        obtain ⟨htaken, hfree⟩ := @insertStructuralObjectKey_spec reader start size _ _ keys
          afterKey _ _ key range hready htable (by omega) hkey hkeyRead hat
        split at h
        · cases h
        next others hinsert =>
          have hfresh : key ∉ keys := fun hmem => by
            obtain ⟨failure, hfailure⟩ := htaken hmem
            rw [hfailure] at hinsert
            cases hinsert
          obtain ⟨found, hfound, hextended, hframe⟩ := hfree hfresh
          rw [hfound] at hinsert
          obtain rfl := Except.ok.inj hinsert
          split at h
          · cases h
          next middle hvalue =>
            obtain ⟨item, hitem, hread, hback⟩ := hskip _ _ hvalue
            dsimp only at hread hback
            have hkept : reader.Table start size middle.keyOffsets (key :: keys) :=
              hextended.frame fun entry hentry =>
                hback.keyOffsets entry (hentry.trans_le hplace)
            obtain ⟨members, rfl, hnodup, hothers, hrest, hlater, hreturns⟩ :=
              ih hread.items_le hkept (by rw [List.length_cons]; omega)
                (hplace.trans_eq hback.scratchCursor.symm) h
            refine ⟨(key, item) :: members, rfl, ?_, fun other hother hmember => ?_,
              ⟨hkey, hitem, hrest⟩,
              ⟨hkeyRead.reads.trans (hread.reads.trans hlater.reads), ?_, hlater.items_le⟩,
              ⟨hreturns.scratchCursor.trans hback.scratchCursor, fun entry hentry => ?_⟩⟩
            · rw [List.map_cons, List.nodup_cons]
              exact ⟨hothers key List.mem_cons_self, hnodup⟩
            · rcases List.mem_cons.mp hmember with rfl | hmember
              · exact hfresh hother
              · exact hothers other (List.mem_cons_of_mem _ hother) hmember
            · have hown := hread.depth_le
              have hbelow := hlater.depth_le
              rw [Item.heightMembers]
              omega
            · exact ((hreturns.keyOffsets entry hentry).trans
                (hback.keyOffsets entry (by omega))).trans (hframe entry (.inl hentry))

theorem skipItem_sound (hready : reader.Ready) (levels depth : Nat) :
    reader.SkipSound depth (reader.skipItem levels depth) := by
  induction levels generalizing depth with
  | zero =>
      intro before after h
      rw [skipItem] at h
      split at h <;> cases h
  | succ levels ih =>
      intro before after h
      rw [skipItem] at h
      split at h
      · cases h
      next head middle hhead =>
        obtain ⟨hbytes, hdepth, hitems, initial, hinitial, rfl⟩ := Reader.itemHead_eq_ok.mp hhead
        have hmask : initial.toNat &&& 31 = initial.toNat % 32 :=
          Nat.and_two_pow_sub_one_eq_mod _ 5
        have hadditional : initial.toNat &&& 31 < 32 := by omega
        dsimp only at h
        split at h
        · split at h
          · cases h
          next last hskipped =>
            obtain rfl := Except.ok.inj h
            obtain ⟨value, hread⟩ := (Reader.skipFlatScalar_eq_ok hready.single).mp hskipped
            obtain ⟨item, tail, hitem, htail, -⟩ := Reader.readFlatScalar_sound hbytes hread
            have hsizes : item.count = 1 ∧ item.height = 0 := by
              have hscalar := hitem.scalar
              cases item <;> first | exact ⟨rfl, rfl⟩ | contradiction
            refine ⟨item, hitem.wellFormed, ⟨?_, ?_, ?_⟩, rfl, fun _ _ => rfl⟩
            · rw [hitem.encoding_eq, hsizes.1]
              exact hinitial.trans htail
            · rw [hsizes.2]
              exact hdepth
            · rw [htail.items_eq, hinitial.items_eq]
              exact hitems
        next hmajor =>
          split at h
          · cases h
          next count begun hcount =>
            obtain ⟨hbound, hargument, hstart⟩ :=
              (Reader.sizeArgument_eq_ok hadditional).mp hcount
            have hbudget : begun.items ≤ reader.limits.maxItems := by
              rw [hstart.items_eq, hinitial.items_eq]
              exact hitems
            have hlead : ∀ {major : Nat}, initial.toNat >>> 5 = major → major < 8 →
                reader.Reads before.cursor (headBytes major count) 1 begun := by
              intro major hequal hlt
              have hinitialByte : initial = initialByte major (headAdditional count) :=
                (Reader.initialByte_fields hlt (by rw [hargument]; exact hadditional)).mpr
                  ⟨hequal, hargument.symm⟩
              rw [headBytes, ← hinitialByte]
              exact hinitial.trans hstart
            split at h
            next harray =>
              split at h
              · cases h
              · obtain ⟨items, rfl, hwellFormed, hconsumes, hreturns⟩ :=
                  skipElements_sound (ih (depth + 1)) hdepth hbudget h
                exact ⟨.array items, ⟨hbound, hwellFormed⟩,
                  ⟨(hlead harray (by decide)).trans hconsumes.reads, hconsumes.depth_le,
                    hconsumes.items_le⟩, hreturns.scratchCursor, hreturns.keyOffsets⟩
            next harray =>
              have hobject : initial.toNat >>> 5 = 5 := by omega
              split at h
              · cases h
              · split at h
                · cases h
                · split at h
                  · cases h
                  · split at h
                    · cases h
                    next last hmembers =>
                      obtain rfl := Except.ok.inj h
                      obtain ⟨members, rfl, hnodup, -, hwellFormed, hconsumes, hreturns⟩ :=
                        skipMembers_sound hready (ih (depth + 1)) hdepth hbudget
                          (table_cleared reader _ _ _) (by rw [List.length_nil]; omega)
                          (Nat.le_refl _) hmembers
                      refine ⟨.object members, ⟨hbound, hnodup, hwellFormed⟩,
                        ⟨(hlead hobject (by decide)).trans hconsumes.reads, hconsumes.depth_le,
                          hconsumes.items_le⟩, rfl, fun entry hentry => ?_⟩
                      exact (hreturns.keyOffsets entry hentry).trans
                        (if_neg fun hinside => Nat.not_le_of_lt hentry hinside.1)

/-! Completeness: the table of each open map fits, since its map counts two for each entry. -/

theorem count_le_countItems {items : List Item} {item : Item} (hmem : item ∈ items) :
    item.count ≤ Item.countItems items := by
  induction items with
  | nil => cases hmem
  | cons first rest ih =>
      rw [Item.countItems]
      rcases List.mem_cons.mp hmem with rfl | hlater
      · exact Nat.le_add_right _ _
      · exact (ih hlater).trans (Nat.le_add_left _ _)

theorem count_le_countMembers {members : List (Bytes × Item)} {member : Bytes × Item}
    (hmem : member ∈ members) :
    2 * members.length + member.2.count ≤ Item.countMembers members + 1 := by
  induction members with
  | nil => cases hmem
  | cons first rest ih =>
      obtain ⟨key, item⟩ := first
      rw [Item.countMembers, List.length_cons]
      rcases List.mem_cons.mp hmem with rfl | hlater
      · have hrest := Reader.two_mul_length_le_countMembers rest
        dsimp only
        omega
      · have hrest := ih hlater
        have hone : 1 ≤ item.count := by
          cases item <;> simp only [Item.count] <;> omega
        omega

/-- What is promised of a skip that has room for its tables. -/
def Skipped (skip : StructuralCursor → Except Error StructuralCursor)
    (before : StructuralCursor) (last : Cursor) (bound : Nat) : Prop :=
  ∃ after, skip before = .ok after ∧ after.cursor = last ∧ Returns before after bound

theorem skipItem_scalar (hready : reader.Ready) {levels : Nat} {item : Item}
    {before : StructuralCursor} {last : Cursor} (hscalar : item.isScalar = true)
    (hlevels : depth + levels = reader.limits.maxDepth + 1) (hcanonical : item.Canonical)
    (h : reader.Consumes depth before.cursor item.encoding 1 0 last) :
    Skipped (reader.skipItem levels depth) before last before.scratchCursor := by
  cases levels with
  | zero =>
      have hdepth := h.depth_le
      omega
  | succ levels =>
      obtain ⟨head, middle, hhead, hmajor, hbody⟩ :=
        Reader.scalar_parts hready.bytes_le false nofun [] hscalar hcanonical h
      have hskip := (Reader.skipFlatScalar_eq_ok hready.single).mpr ⟨_, hbody⟩
      refine ⟨{ before with cursor := last }, ?_, rfl, rfl, fun _ _ => rfl⟩
      rw [skipItem, hhead]
      dsimp only
      rw [if_pos hmajor, hskip]

mutual

theorem skipItem_complete (hready : reader.Ready) :
    ∀ (item : Item) {levels depth : Nat} {before : StructuralCursor} {last : Cursor},
      depth + levels = reader.limits.maxDepth + 1 → item.Canonical →
      reader.Consumes depth before.cursor item.encoding item.count item.height last →
      before.scratchCursor + item.count ≤ reader.scratchSize →
      Skipped (reader.skipItem levels depth) before last before.scratchCursor
  | .array items, levels, depth, before, last, hlevels, hcanonical, hconsumes, hroom => by
      cases levels with
      | zero => have := hconsumes.depth_le; omega
      | succ levels =>
          obtain ⟨hlength, hitems⟩ := hcanonical
          obtain ⟨head, middle, start, hhead, hmajor, hsize, hpayload⟩ :=
            Reader.container_parts hready.bytes_le [] (by decide : 4 < 8) hlength hconsumes
          have hfits : fitsRemaining items.length start.items reader.limits.maxItems = true := by
            have hleast := Reader.length_le_countItems items
            have hmost := hpayload.items_le
            have hcount := hpayload.reads.items_eq
            simp only [fitsRemaining, Bool.and_eq_true, decide_eq_true_eq]
            omega
          rw [Item.count] at hroom
          obtain ⟨after, hafter, hlast, hreturns⟩ := skipElements_complete hready items
            (by omega : depth + levels = reader.limits.maxDepth) hitems
            (show reader.Consumes depth (StructuralCursor.cursor { before with cursor := start })
              _ _ _ last from hpayload) (by dsimp only; omega)
          refine ⟨after, ?_, hlast, hreturns.scratchCursor, hreturns.keyOffsets⟩
          rw [skipItem, hhead]
          dsimp only
          rw [hmajor, if_neg (by decide), hsize]
          dsimp only
          rw [if_pos rfl, hfits]
          exact hafter
  | .object members, levels, depth, before, last, hlevels, hcanonical, hconsumes, hroom => by
      cases levels with
      | zero => have := hconsumes.depth_le; omega
      | succ levels =>
          obtain ⟨hlength, hnodup, hmembers⟩ := hcanonical
          obtain ⟨head, middle, start, hhead, hmajor, hsize, hpayload⟩ :=
            Reader.container_parts hready.bytes_le [] (by decide : 5 < 8) hlength hconsumes
          have hleast := Reader.two_mul_length_le_countMembers members
          have hmost := hpayload.items_le
          have hcount := hpayload.reads.items_eq
          rw [Item.count] at hroom
          obtain ⟨after, hafter, hlast, hreturns⟩ := @skipMembers_complete hready members
            levels depth before.scratchCursor (members.length * 2) []
            ⟨start, clearTable before.keyOffsets before.scratchCursor (members.length * 2),
              before.scratchCursor + members.length * 2⟩ last (by omega) hnodup
            (fun _ hmem => absurd hmem List.not_mem_nil) hmembers hpayload
            (table_cleared reader _ _ _) (by rw [List.length_nil]; omega) (Nat.le_refl _)
            (fun member hmember => by
              have hown := count_le_countMembers hmember
              dsimp only
              omega)
          refine ⟨{ after with scratchCursor := before.scratchCursor }, ?_, hlast, rfl,
            fun entry hentry => ?_⟩
          · rw [skipItem, hhead]
            dsimp only
            rw [hmajor, if_neg (by decide), hsize]
            dsimp only
            rw [if_neg (by decide), if_neg (by omega), if_neg (by omega), if_neg (by omega), hafter]
          · exact (hreturns.keyOffsets entry hentry).trans
              (if_neg fun hinside => Nat.not_le_of_lt hentry hinside.1)
  | .null, _, _, _, _, hlevels, hcanonical, hconsumes, _ =>
      skipItem_scalar hready rfl hlevels hcanonical hconsumes
  | .bool _, _, _, _, _, hlevels, hcanonical, hconsumes, _ =>
      skipItem_scalar hready rfl hlevels hcanonical hconsumes
  | .unsigned _, _, _, _, _, hlevels, hcanonical, hconsumes, _ =>
      skipItem_scalar hready rfl hlevels hcanonical hconsumes
  | .negative _, _, _, _, _, hlevels, hcanonical, hconsumes, _ =>
      skipItem_scalar hready rfl hlevels hcanonical hconsumes
  | .float _, _, _, _, _, hlevels, hcanonical, hconsumes, _ =>
      skipItem_scalar hready rfl hlevels hcanonical hconsumes
  | .bytes _, _, _, _, _, hlevels, hcanonical, hconsumes, _ =>
      skipItem_scalar hready rfl hlevels hcanonical hconsumes
  | .text _, _, _, _, _, hlevels, hcanonical, hconsumes, _ =>
      skipItem_scalar hready rfl hlevels hcanonical hconsumes

theorem skipElements_complete (hready : reader.Ready) :
    ∀ (items : List Item) {levels depth : Nat} {before : StructuralCursor} {last : Cursor},
      depth + levels = reader.limits.maxDepth →
      Item.WellFormedItems CanonicalFloatEncoding.Canonical items →
      reader.Consumes depth before.cursor (Item.encodingItems items) (Item.countItems items)
        (Item.heightItems items) last →
      before.scratchCursor + Item.countItems items ≤ reader.scratchSize →
      Skipped (skipElements (reader.skipItem levels (depth + 1)) items.length) before last
        before.scratchCursor
  | [], levels, depth, before, last, hlevels, hitems, hconsumes, hroom => by
      refine ⟨before, rfl, ?_, rfl, fun _ _ => rfl⟩
      rw [hconsumes.reads.after_eq]
      rfl
  | item :: rest, levels, depth, before, last, hlevels, hitems, hconsumes, hroom => by
      obtain ⟨hreads, hdepth, hbudget⟩ := hconsumes
      rw [Item.heightItems] at hdepth
      rw [Item.countItems] at hroom
      obtain ⟨middle, hfirst, hlater⟩ := Reader.Reads.split
        (show reader.Reads before.cursor (item.encoding ++ Item.encodingItems rest)
          (item.count + Item.countItems rest) last from hreads)
      have hmiddle : middle.items ≤ reader.limits.maxItems := by
        have hcount := hlater.items_eq
        omega
      obtain ⟨next, hnext, hat, hback⟩ := @skipItem_complete hready item levels (depth + 1)
        before middle (by omega) hitems.1 ⟨hfirst, by omega, hmiddle⟩ (by omega)
      have hscratch := hback.scratchCursor
      obtain ⟨after, hafter, hlast, hreturns⟩ := @skipElements_complete hready rest levels depth
        next last hlevels hitems.2 ⟨by rw [hat]; exact hlater, by omega, hbudget⟩ (by omega)
      rw [hscratch] at hreturns
      refine ⟨after, ?_, hlast, hback.trans hreturns⟩
      rw [List.length_cons, skipElements, hnext]
      exact hafter

theorem skipMembers_complete (hready : reader.Ready) :
    ∀ (members : List (Bytes × Item)) {levels depth start size : Nat} {keys : List Bytes}
      {before : StructuralCursor} {last : Cursor},
      depth + levels = reader.limits.maxDepth →
      (members.map Prod.fst).Nodup → (∀ key ∈ keys, key ∉ members.map Prod.fst) →
      Item.WellFormedMembers CanonicalFloatEncoding.Canonical members →
      reader.Consumes depth before.cursor (Item.encodingMembers members)
        (Item.countMembers members) (Item.heightMembers members) last →
      reader.Table start size before.keyOffsets keys → keys.length + members.length ≤ size →
      start + size ≤ before.scratchCursor →
      (∀ member ∈ members, before.scratchCursor + member.2.count ≤ reader.scratchSize) →
      Skipped (reader.skipMembers (depth + 1) start size
        (reader.skipItem levels (depth + 1)) members.length) before last start
  | [], levels, depth, start, size, keys, before, last, _, _, _, _, hconsumes, _, _, _, _ => by
      refine ⟨before, rfl, ?_, rfl, fun _ _ => rfl⟩
      rw [hconsumes.reads.after_eq]
      rfl
  | (key, item) :: rest, levels, depth, start, size, keys, before, last, hlevels, hnodup, hothers,
      hmembers, hconsumes, htable, hspace, hplace, hroom => by
      obtain ⟨hreads, hdepth, hbudget⟩ := hconsumes
      obtain ⟨hkey, hitem, hrest⟩ := hmembers
      rw [Item.heightMembers] at hdepth
      rw [List.map_cons, List.nodup_cons] at hnodup
      rw [List.length_cons] at hspace
      obtain ⟨afterKey, hkeyReads, hafterKey⟩ := Reader.Reads.split
        (show reader.Reads before.cursor
          (textBytes key ++ (item.encoding ++ Item.encodingMembers rest))
          (1 + (item.count + Item.countMembers rest)) last from hreads)
      obtain ⟨afterItem, hitemReads, hlater⟩ := Reader.Reads.split hafterKey
      have hafterItem : afterItem.items ≤ reader.limits.maxItems := by
        have hcount := hlater.items_eq
        omega
      have hafterKeyItems : afterKey.items ≤ reader.limits.maxItems := by
        have hcount := hitemReads.items_eq
        omega
      have hkeyRead : reader.Consumes (depth + 1) before.cursor (textBytes key) 1 0 afterKey :=
        ⟨hkeyReads, by omega, hafterKeyItems⟩
      obtain ⟨range, hrange, hat⟩ :=
        Reader.structuralKey_complete hready.single hready.bytes_le hkey hkeyRead
      have hfresh : key ∉ keys := fun hmem => hothers key hmem List.mem_cons_self
      obtain ⟨others, hinsert, hextended, hframe⟩ := (@insertStructuralObjectKey_spec reader start
        size _ _ keys afterKey _ _ key range hready htable (by omega) hkey hkeyRead hat).2 hfresh
      obtain ⟨middle, hmiddle, hcursor, hback⟩ := @skipItem_complete hready item levels
        (depth + 1) { before with cursor := afterKey, keyOffsets := others } afterItem (by omega)
        hitem ⟨hitemReads, by omega, hafterItem⟩ (hroom _ List.mem_cons_self)
      have hscratch : middle.scratchCursor = before.scratchCursor := hback.scratchCursor
      have hkept : reader.Table start size middle.keyOffsets (key :: keys) :=
        hextended.frame fun entry hentry => hback.keyOffsets entry (hentry.trans_le hplace)
      obtain ⟨after, hafter, hlast, hreturns⟩ := @skipMembers_complete hready rest levels depth
        start size (key :: keys) middle last hlevels hnodup.2
        (fun other hother hmember => by
          rcases List.mem_cons.mp hother with rfl | hold
          · exact hnodup.1 hmember
          · exact hothers other hold (List.mem_cons_of_mem _ hmember))
        hrest ⟨by rw [hcursor]; exact hlater, by omega, hbudget⟩ hkept
        (by rw [List.length_cons]; omega) (hplace.trans_eq hscratch.symm)
        (fun member hmember => by
          rw [hscratch]
          exact hroom member (List.mem_cons_of_mem _ hmember))
      refine ⟨after, ?_, hlast, hreturns.scratchCursor.trans hscratch, fun entry hentry => ?_⟩
      · rw [List.length_cons, skipMembers, hrange]
        dsimp only
        rw [hinsert]
        dsimp only
        rw [hmiddle]
        exact hafter
      · exact ((hreturns.keyOffsets entry hentry).trans
          (hback.keyOffsets entry (by dsimp only; omega))).trans (hframe entry (.inl hentry))

end

end

end StructuralReader

/-- The structure of an input is admitted exactly if it spells an item within its limits. -/
theorem validateRawItemStructural_eq_ok {bytes : Bytes} {address : UInt64} {limits : Limits}
    {scratch : StructuralValidationScratch} (hshort : bytes.length < 2 ^ 32 - 1)
    (hscratch : limits.maxItems ≤ scratch.size) :
    validateRawItemStructural bytes address limits scratch = .ok () ↔
      ∃ item : Item, item.Canonical ∧ item.Fits limits ∧ item.encoding = bytes := by
  rw [validateRawItemStructural]
  generalize hreader : StructuralReader.mk ⟨⟨bytes, []⟩, limits⟩ scratch.size address
    scratch.address = reader
  have hinput : reader.input = ⟨bytes, []⟩ := by rw [← hreader]
  have hlimits : reader.limits = limits := by rw [← hreader]
  have hsize : reader.input.size = bytes.length := by
    rw [hinput]
    rfl
  have hroom : reader.limits.maxItems ≤ reader.scratchSize := by
    rw [← hreader]
    exact hscratch
  have hrest : ∀ cursor : Cursor, reader.rest cursor = bytes.drop cursor.offset := fun cursor =>
    (Reader.rest_of_second (by rw [hinput]) cursor).trans (by rw [hinput])
  rw [StructuralReader.validateStructural, if_neg (by rw [hinput, not_not])]
  constructor
  · intro h
    split at h
    · cases h
    next hbytes =>
      split at h
      · cases h
      · split at h
        · cases h
        next after hskip =>
          have hready : reader.Ready := ⟨by rw [hinput], by omega, by omega⟩
          obtain ⟨item, hcanonical, ⟨hreads, hdepth, hitems⟩, -⟩ :=
            StructuralReader.skipItem_sound hready _ _ _ _ hskip
          have hend : after.cursor.offset = reader.input.size := by
            rw [Reader.finish] at h
            split at h
            · cases h
            next hend => exact not_not.mp hend
          have hbytesEq := hreads.rest_eq
          rw [hrest, hrest, hend, hsize, List.drop_zero, List.drop_length, List.append_nil]
            at hbytesEq
          have hcount := hreads.items_eq
          dsimp only at hcount
          rw [hlimits] at hdepth hitems hbytes
          refine ⟨item, hcanonical, ⟨?_, by omega, by omega⟩, hbytesEq.symm⟩
          rw [← hbytesEq]
          omega
  · rintro ⟨item, hcanonical, hfits, hencoding⟩
    have hlength := hfits.bytes_le
    have hitems := hfits.items_le
    rw [hencoding, ← hlimits] at hlength
    rw [← hlimits] at hitems
    have hready : reader.Ready := ⟨by rw [hinput], by omega, by omega⟩
    have hconsumes : reader.Consumes 0 ⟨0, 0⟩ item.encoding item.count item.height
        ⟨bytes.length, item.count⟩ := by
      refine ⟨⟨?_, ?_, (Nat.zero_add _).symm⟩, ?_, hitems⟩
      · rw [hrest, hrest, List.drop_zero, List.drop_length, List.append_nil, hencoding]
      · rw [hencoding, Nat.zero_add]
      · rw [Nat.zero_add, hlimits]
        exact hfits.depth_le
    obtain ⟨after, hafter, hlast, -⟩ := @StructuralReader.skipItem_complete reader hready item
      (reader.limits.maxDepth + 1) 0 ⟨⟨0, 0⟩, scratch.keyOffsets, 0⟩ _ (Nat.zero_add _) hcanonical
      hconsumes (by dsimp only; omega)
    rw [if_neg (by omega), if_neg (by omega), hafter]
    dsimp only
    rw [Reader.finish, if_neg]
    rw [not_not, hlast, hsize]

/-- The structural validation admits what is decoded when no allocation is refused. -/
theorem validateRawItemStructural_iff {segments : ByteSegments} {address : UInt64}
    {limits : Limits} {scratch : StructuralValidationScratch}
    (hshort : segments.size < 2 ^ 32 - 1) (hscratch : limits.maxItems ≤ scratch.size) :
    validateRawItemStructural segments.bytes address limits scratch = .ok () ↔
      validateRawItem segments { limits with allocationPolicy := none } = .ok () := by
  rw [validateRawItemStructural_eq_ok (by rwa [ByteSegments.length_bytes]) hscratch,
    validateRawItem]
  constructor
  · rintro ⟨item, hcanonical, hfits, hencoding⟩
    have hdecoded : decode segments { limits with allocationPolicy := none } = .ok item.value :=
      decode_complete rfl hcanonical ⟨hfits.bytes_le, hfits.items_le, hfits.depth_le⟩ hencoding
    rw [hdecoded]
  · intro h
    split at h
    · cases h
    next value hdecoded =>
      obtain ⟨item, hcanonical, hfits, -, hencoding⟩ := decode_sound hdecoded
      exact ⟨item, hcanonical, ⟨hfits.bytes_le, hfits.items_le, hfits.depth_le⟩, hencoding⟩

/-- A map with one entry. -/
theorem validateRawItem_map :
    validateRawItem ⟨[0xa1, 0x61, 0x61], [0xf6]⟩ (fourItems none) = .ok () :=
  (@validateRawItemStructural_iff ⟨[0xa1, 0x61, 0x61], [0xf6]⟩ 64 (fourItems none)
    ⟨fun _ => 7, 4, 128⟩ (by decide) (by decide)).mp rfl

/-- A refused allocation is refused only where the value is built. -/
theorem validateRawItemStructural_refused :
    validateRawItemStructural [0x40] 64 (fourItems (some fun _ => false)) ⟨fun _ => 0, 4, 128⟩ =
      .ok () ∧
    validateRawItem ⟨[0x40], []⟩ (fourItems (some fun _ => false)) =
      .error ⟨.limitExceeded, 1, []⟩ :=
  ⟨rfl, rfl⟩

end Mmltk.Wire
