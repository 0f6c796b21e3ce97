import Mmltk.Frontend.HalfFloat
import Mmltk.Wire.WriterLanguage

namespace Mmltk.Frontend

open Mmltk.Foundation
open Mmltk.Wire (Item CanonicalFloatEncoding CanonicalFloatWidth headBytes headTail
  headAdditional headSize initialByte floatLead floatBytes textBytes)

/-! What each decoder primitive consumes. -/

/-- Between two cursors the decoder consumed exactly `taken`. -/
structure Advances (bytes : Bytes) (before : Nat) (taken : Bytes) (after : Nat) : Prop where
  rest_eq : bytes.drop before = taken ++ bytes.drop after
  after_eq : after = before + taken.length
  after_le : after ≤ bytes.length

theorem Advances.refl {bytes : Bytes} {cursor : Nat} (h : cursor ≤ bytes.length) :
    Advances bytes cursor [] cursor :=
  ⟨rfl, rfl, h⟩

theorem Advances.trans {bytes : Bytes} {first second third : Nat} {left right : Bytes}
    (hleft : Advances bytes first left second) (hright : Advances bytes second right third) :
    Advances bytes first (left ++ right) third where
  rest_eq := by rw [hleft.rest_eq, hright.rest_eq, List.append_assoc]
  after_eq := by rw [hright.after_eq, hleft.after_eq, List.length_append, Nat.add_assoc]
  after_le := hright.after_le

theorem Advances.split {bytes : Bytes} {first third : Nat} {left right : Bytes}
    (h : Advances bytes first (left ++ right) third) :
    ∃ second, Advances bytes first left second ∧ Advances bytes second right third := by
  have hthird := h.after_eq
  have hbound := h.after_le
  rw [List.length_append] at hthird
  have hrest : bytes.drop (first + left.length) = right ++ bytes.drop third := by
    rw [← List.drop_drop, h.rest_eq, List.append_assoc, List.drop_left]
  refine ⟨first + left.length, ⟨?_, rfl, by omega⟩, ⟨hrest, by omega, hbound⟩⟩
  rw [hrest, h.rest_eq, List.append_assoc]

theorem Advances.length_le {bytes : Bytes} {before after : Nat} {taken : Bytes}
    (h : Advances bytes before taken after) : taken.length ≤ bytes.length - before := by
  have := h.after_eq
  have := h.after_le
  omega

theorem take_eq_ok {bytes : Bytes} (hsize : bytes.length ≤ usizeMax) {cursor count after : Nat}
    {raw : Bytes} :
    take bytes cursor count = .ok (raw, after) ↔
      raw.length = count ∧ Advances bytes cursor raw after := by
  unfold take
  constructor
  · intro h
    split at h
    · contradiction
    · split at h
      · contradiction
      · split at h
        · contradiction
        · next hbound =>
          rw [Except.ok.injEq, Prod.mk.injEq] at h
          obtain ⟨rfl, rfl⟩ := h
          have hlength : ((bytes.drop cursor).take count).length = count := by
            rw [List.length_take, List.length_drop]
            omega
          refine ⟨hlength, ?_, by rw [hlength], by omega⟩
          rw [← List.drop_drop, List.take_append_drop]
  · rintro ⟨rfl, hrest, rfl, hbound⟩
    rw [if_neg (by omega), if_neg (by omega), if_neg (by omega), hrest, List.take_left]

theorem lengthWidth_cases {additional width : Nat} (h : lengthWidth additional = some width) :
    (additional = 24 ∧ width = 1) ∨ (additional = 25 ∧ width = 2) ∨
      (additional = 26 ∧ width = 4) ∨ (additional = 27 ∧ width = 8) := by
  unfold lengthWidth at h
  split at h <;> simp_all

theorem length_eq_ok {bytes : Bytes} (hsize : bytes.length ≤ usizeMax)
    {additional cursor value after : Nat} (hcursor : cursor ≤ bytes.length) :
    length additional bytes cursor = .ok (value, after) ↔
      value < 2 ^ 64 ∧ headAdditional value = additional ∧
        Advances bytes cursor (headTail value) after := by
  unfold length
  constructor
  · intro h
    split at h
    · next hsmall =>
      rw [Except.ok.injEq, Prod.mk.injEq] at h
      obtain ⟨rfl, rfl⟩ := h
      have hhead : headSize additional = 1 := by
        rw [headSize, if_pos (by omega)]
      refine ⟨by omega, by rw [headAdditional, if_pos (by omega)], ?_⟩
      rw [headTail, hhead]
      exact Advances.refl hcursor
    · split at h
      · contradiction
      · next width hwidth =>
        split at h
        · contradiction
        · next raw middle hraw =>
          dsimp only at h
          split at h
          · contradiction
          · next hminimal =>
            rw [Except.ok.injEq, Prod.mk.injEq] at h
            obtain ⟨rfl, rfl⟩ := h
            obtain ⟨hlength, hadvances⟩ := (take_eq_ok hsize).mp hraw
            have hbound := bigEndianValue_lt raw
            have hbytes := bigEndianBytes_bigEndianValue raw
            rw [hlength] at hbound hbytes
            have htail : headSize (bigEndianValue 0 raw) = width + 1 ∧
                headAdditional (bigEndianValue 0 raw) = additional := by
              unfold headSize headAdditional
              rcases lengthWidth_cases hwidth with
                ⟨rfl, rfl⟩ | ⟨rfl, rfl⟩ | ⟨rfl, rfl⟩ | ⟨rfl, rfl⟩ <;>
              · generalize bigEndianValue 0 raw = value at hminimal hbound ⊢
                split_ifs <;> omega
            refine ⟨?_, htail.2, ?_⟩
            · rcases lengthWidth_cases hwidth with
                ⟨-, rfl⟩ | ⟨-, rfl⟩ | ⟨-, rfl⟩ | ⟨-, rfl⟩ <;> omega
            · rw [headTail, htail.1, Nat.add_sub_cancel, hbytes]
              exact hadvances
  · rintro ⟨hvalue, rfl, hadvances⟩
    have hread : ∀ width, headSize value = width + 1 → value < 256 ^ width →
        take bytes cursor width = .ok (headTail value, after) ∧
          bigEndianValue 0 (headTail value) = value := by
      intro width hhead hbound
      rw [headTail, hhead, Nat.add_sub_cancel] at hadvances ⊢
      rw [bigEndianValue_bigEndianBytes, Nat.mod_eq_of_lt hbound]
      exact ⟨(take_eq_ok hsize).mpr ⟨length_bigEndianBytes _ _, hadvances⟩, rfl⟩
    by_cases h1 : value < 24
    · have hhead : headSize value = 1 := by rw [headSize, if_pos h1]
      rw [headTail, hhead] at hadvances
      have hafter : after = cursor := hadvances.after_eq
      rw [headAdditional, if_pos h1, if_pos (by omega), hafter]
    · by_cases h2 : value ≤ 0xff
      · obtain ⟨htake, hround⟩ := hread 1 (by simp [headSize, h1, h2]) (by omega)
        simp only [headAdditional, h1, h2, if_true, if_false, lengthWidth, htake, hround]
        rw [if_neg (by decide), if_neg (by simp)]
      · by_cases h3 : value ≤ 0xffff
        · obtain ⟨htake, hround⟩ := hread 2 (by simp [headSize, h1, h2, h3]) (by omega)
          simp only [headAdditional, h1, h2, h3, if_true, if_false, lengthWidth, htake, hround]
          rw [if_neg (by decide), if_neg (by simp)]
        · by_cases h4 : value ≤ 0xffffffff
          · obtain ⟨htake, hround⟩ := hread 4 (by simp [headSize, h1, h2, h3, h4]) (by omega)
            simp only [headAdditional, h1, h2, h3, h4, if_true, if_false, lengthWidth, htake,
              hround]
            rw [if_neg (by decide), if_neg (by simp)]
          · obtain ⟨htake, hround⟩ := hread 8 (by simp [headSize, h1, h2, h3, h4]) (by omega)
            simp only [headAdditional, h1, h2, h3, h4, if_false, lengthWidth, htake, hround]
            rw [if_neg (by decide), if_neg (by simp)]

/-! Text -/

theorem fromUtf8_eq_some {bytes : Bytes} {text : String} :
    fromUtf8 bytes = some text ↔ asBytes text = bytes := by
  unfold fromUtf8 String.fromUTF8? asBytes
  constructor
  · intro h
    split at h
    · rw [Option.some.injEq] at h
      subst h
      exact List.toList_data_toByteArray
    · contradiction
  · rintro rfl
    have hbytes : (text.toByteArray.data.toList).toByteArray = text.toByteArray := by
      apply ByteArray.ext
      rw [List.data_toByteArray, Array.toArray_toList]
    rw [hbytes, dif_pos text.isValidUTF8]
    rfl

theorem wellFormed_iff {bytes : Bytes} :
    Text.WellFormed bytes ↔ ∃ text, asBytes text = bytes := by
  constructor
  · rintro ⟨scalars, rfl⟩
    exact ⟨String.ofList scalars, List.toList_data_toByteArray⟩
  · rintro ⟨text, rfl⟩
    obtain ⟨scalars, hscalars⟩ := text.isValidUTF8
    refine ⟨scalars, ?_⟩
    rw [asBytes, hscalars]
    exact List.toList_data_toByteArray

theorem asBytes_injective {left right : String} (h : asBytes left = asBytes right) :
    left = right :=
  Option.some.inj ((fromUtf8_eq_some.mpr h).symm.trans (fromUtf8_eq_some.mpr rfl))

/-! Floats -/

/-- The encodings the decoder accepts as a float. -/
def Accepted (encoding : CanonicalFloatEncoding) : Prop :=
  match encoding.width with
  | .half => encoding.bits < 2 ^ 16 ∧ encoding.bits / 2 ^ 10 % 2 ^ 5 ≠ 31
  | .single => encoding.bits < 2 ^ 32 ∧ FloatFormat.binary32.isFinite encoding.bits = true ∧
      halfExact encoding.bits = false
  | .double => encoding.bits < 2 ^ 64 ∧ FloatFormat.binary64.isFinite encoding.bits = true ∧
      singleExact encoding.bits = false

/-- A single-precision spelling of a half subnormal above the smallest. -/
def WideSubnormal (encoding : CanonicalFloatEncoding) : Prop :=
  encoding.width = .single ∧ HalfSubnormal encoding.bits

theorem HalfSubnormal.finite {bits : Nat} (h : HalfSubnormal bits) :
    bits < 2 ^ 32 ∧ FloatFormat.binary32.isFinite bits = true ∧
      Wire.halfRepresents bits = true := by
  obtain ⟨sign, fraction, hsign, -, hfraction, rfl⟩ := h
  obtain ⟨hlt, hexponent⟩ := packHalf_finite hsign hfraction
  obtain ⟨hbits, hfinite⟩ := Wire.halfToFloat_finite hlt hexponent
  exact ⟨hbits, hfinite, Wire.halfRepresents_halfToFloat hlt hexponent⟩

theorem WideSubnormal.not_canonical {encoding : CanonicalFloatEncoding}
    (h : WideSubnormal encoding) : ¬ encoding.Canonical := by
  obtain ⟨width, bits⟩ := encoding
  obtain ⟨rfl, hsubnormal⟩ := h
  intro hcanonical
  have hnarrow := hsubnormal.finite.2.2
  rw [hcanonical.2.2] at hnarrow
  contradiction

theorem accepted_iff {encoding : CanonicalFloatEncoding} :
    Accepted encoding ↔ encoding.Canonical ∨ WideSubnormal encoding := by
  obtain ⟨width, bits⟩ := encoding
  cases width with
  | half => simp [Accepted, CanonicalFloatEncoding.Canonical, WideSubnormal]
  | double =>
      simp only [Accepted, CanonicalFloatEncoding.Canonical, WideSubnormal]
      constructor
      · exact Or.inl
      · rintro (h | h)
        · exact h
        · exact absurd h.1 (by decide)
  | single =>
      simp only [Accepted, CanonicalFloatEncoding.Canonical, WideSubnormal, true_and]
      constructor
      · rintro ⟨hbits, hfinite, hexact⟩
        by_cases hsubnormal : HalfSubnormal bits
        · exact .inr hsubnormal
        · refine .inl ⟨hbits, hfinite, ?_⟩
          rw [← Bool.not_eq_true]
          intro hnarrow
          have := (halfExact_iff hbits hfinite).mpr ⟨hnarrow, hsubnormal⟩
          rw [hexact] at this
          contradiction
      · rintro (⟨hbits, hfinite, hnarrow⟩ | hsubnormal)
        · refine ⟨hbits, hfinite, ?_⟩
          rw [← Bool.not_eq_true, halfExact_iff hbits hfinite, hnarrow]
          exact fun h => Bool.false_ne_true h.1
        · obtain ⟨hbits, hfinite, -⟩ := hsubnormal.finite
          refine ⟨hbits, hfinite, ?_⟩
          rw [← Bool.not_eq_true, halfExact_iff hbits hfinite]
          exact fun h => h.2 hsubnormal

theorem accepted_bits_lt {encoding : CanonicalFloatEncoding} (h : Accepted encoding) :
    encoding.bits < 256 ^ encoding.width.bytes := by
  obtain ⟨width, bits⟩ := encoding
  cases width <;> exact h.1

/-- The decoder's arm for one float width. -/
def finishFloat : CanonicalFloatWidth → Nat → Except ProtocolError Value
  | .half => finishHalf
  | .single => finishSingle
  | .double => finishDouble

theorem float_eq_ok {bits : Nat} {value : Value} :
    float bits = .ok value ↔
      FloatFormat.binary64.isFinite bits = true ∧ value = .float (UInt64.ofNat bits) := by
  unfold float
  split
  · next hfinite => simp [hfinite, eq_comm]
  · next hinfinite => simp [hinfinite]

theorem finishFloat_eq_ok {width : CanonicalFloatWidth} {bits : Nat} {value : Value}
    (hbits : bits < 256 ^ width.bytes) :
    finishFloat width bits = .ok value ↔
      Accepted ⟨width, bits⟩ ∧
        value = .float (UInt64.ofNat (CanonicalFloatEncoding.value ⟨width, bits⟩)) := by
  cases width with
  | half =>
      have hhalf : bits < 2 ^ 16 := hbits
      have hfinite : FloatFormat.binary64.isFinite (f64From (halfToF32 bits)) = true ↔
          bits / 2 ^ 10 % 2 ^ 5 ≠ 31 := by
        rw [halfToF32_eq, f64From]
        refine Wire.isFinite_floatToDouble.trans ⟨fun h hexponent => ?_, fun h => ?_⟩
        · exact Wire.not_isFinite_halfToFloat hexponent h
        · exact (Wire.halfToFloat_finite hhalf h).2
      rw [finishFloat, finishHalf, float_eq_ok, hfinite, halfToF32_eq]
      simp only [Accepted, CanonicalFloatEncoding.value, hhalf, true_and]
      exact Iff.rfl
  | single =>
      have hsingle : bits < 2 ^ 32 := hbits
      have hfinite : FloatFormat.binary64.isFinite (f64From bits) = true ↔
          FloatFormat.binary32.isFinite bits = true := Wire.isFinite_floatToDouble
      rw [finishFloat, finishSingle]
      simp only [Accepted, CanonicalFloatEncoding.value, hsingle, true_and]
      cases halfExact bits with
      | true => simp
      | false =>
          simp only [Bool.false_eq_true, if_false, and_true]
          rw [float_eq_ok, hfinite]
          exact Iff.rfl
  | double =>
      have hdouble : bits < 2 ^ 64 := hbits
      rw [finishFloat, finishDouble]
      simp only [Accepted, CanonicalFloatEncoding.value, hdouble, true_and]
      cases singleExact bits with
      | true => simp
      | false =>
          simp only [Bool.false_eq_true, if_false, and_true]
          exact float_eq_ok

theorem floatItem_eq_ok {bytes : Bytes} (hsize : bytes.length ≤ usizeMax)
    {cursor width after : Nat} {finish : Nat → Except ProtocolError Value} {value : Value} :
    floatItem bytes cursor width finish = .ok (value, after) ↔
      ∃ bits, bits < 256 ^ width ∧ Advances bytes cursor (bigEndianBytes width bits) after ∧
        finish bits = .ok value := by
  unfold floatItem
  constructor
  · intro h
    split at h
    · contradiction
    · next raw middle hraw =>
      obtain ⟨hlength, hadvances⟩ := (take_eq_ok hsize).mp hraw
      split at h
      · contradiction
      · next result hfinish =>
        rw [Except.ok.injEq, Prod.mk.injEq] at h
        obtain ⟨rfl, rfl⟩ := h
        have hbound := bigEndianValue_lt raw
        have hbytes := bigEndianBytes_bigEndianValue raw
        rw [hlength] at hbound hbytes
        exact ⟨_, hbound, by rwa [hbytes], hfinish⟩
  · rintro ⟨bits, hbound, hadvances, hfinish⟩
    rw [(take_eq_ok hsize).mpr ⟨length_bigEndianBytes _ _, hadvances⟩]
    dsimp only
    rw [bigEndianValue_bigEndianBytes, Nat.mod_eq_of_lt hbound, hfinish]

end Mmltk.Frontend
