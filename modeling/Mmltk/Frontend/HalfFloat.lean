import Mmltk.Frontend.Codec
import Mmltk.Wire.CanonicalFloat

namespace Mmltk.Frontend

open Mmltk.Foundation
open Mmltk.Wire (floatToHalf halfToFloat packFloat packHalf subnormalFraction halfRepresents
  normalizeHalf CanonicalFloatEncoding)

/-! The frontend's half conversions against the wire's.  Widening agrees; narrowing
shifts a subnormal once too often. -/

theorem normalizeSubnormal_eq {fuel fraction normalizedExponent : Nat}
    (h : fuel ≤ normalizedExponent) :
    normalizeSubnormal fuel fraction ((normalizedExponent : Int) - 127) =
      ((normalizeHalf fuel fraction normalizedExponent).1,
        ((normalizeHalf fuel fraction normalizedExponent).2 : Int) - 127) := by
  induction fuel generalizing fraction normalizedExponent with
  | zero => rfl
  | succ fuel ih =>
      rw [normalizeSubnormal, normalizeHalf]
      by_cases hclear : fraction &&& 0x400 = 0
      · have hexponent : (normalizedExponent : Int) - 127 - 1 =
            ((normalizedExponent - 1 : Nat) : Int) - 127 := by omega
        rw [if_pos hclear, if_pos hclear, hexponent, ih (by omega)]
      · rw [if_neg hclear, if_neg hclear]

theorem halfToF32_eq (bits : Nat) : halfToF32 bits = halfToFloat bits := by
  have hloop : normalizeSubnormal 10 (bits &&& 0x03ff) (-14) =
      ((normalizeHalf 10 (bits &&& 0x03ff) 113).1,
        ((normalizeHalf 10 (bits &&& 0x03ff) 113).2 : Int) - 127) :=
    @normalizeSubnormal_eq 10 _ 113 (by decide)
  unfold halfToF32 halfToFloat
  dsimp only
  rw [hloop]
  by_cases hexponent : (bits >>> 10) &&& 0x1f = 0
  · by_cases hfraction : bits &&& 0x03ff = 0
    · rw [if_pos ⟨hexponent, hfraction⟩, if_pos hexponent, if_pos hfraction]
    · rw [if_neg (fun h => hfraction h.2), if_pos hexponent, if_pos hexponent,
        if_neg hfraction]
      have hback : ((normalizeHalf 10 (bits &&& 0x03ff) 113).2 : Int) - 127 + 127 =
          ((normalizeHalf 10 (bits &&& 0x03ff) 113).2 : Int) := by omega
      dsimp only
      rw [hback, Int.toNat_natCast]
  · rw [if_neg (fun h => hexponent h.1), if_neg hexponent, if_neg hexponent]
    split
    · rw [Nat.or_assoc]
    · rfl

theorem f32ToHalf_zero {sign : Nat} (hsign : sign ≤ 1) :
    f32ToHalf (packFloat sign 0 0) = packHalf sign 0 0 := by
  obtain ⟨hsignField, hexponentField, hfractionField⟩ :=
    Wire.floatToHalf_packFloat 0 0 hsign (by decide) (by decide)
  simp only [f32ToHalf, Wire.floatToHalf_sign, Wire.floatToHalf_exponent,
    Wire.floatToHalf_fraction, hsignField, hexponentField, hfractionField]
  rw [if_pos (by omega), if_pos (by omega)]
  simp [packHalf]

theorem f32ToHalf_normal {sign exponent fraction : Nat} (hsign : sign ≤ 1)
    (hone : 1 ≤ exponent) (hexponent : exponent ≤ 30) (hfraction : fraction < 2 ^ 10) :
    f32ToHalf (packFloat sign (exponent + 112) (fraction * 2 ^ 13)) =
      packHalf sign exponent fraction := by
  obtain ⟨hsignField, hexponentField, hfractionField⟩ :=
    Wire.floatToHalf_packFloat (exponent + 112) (fraction * 2 ^ 13) hsign (by omega)
      (by omega)
  simp only [f32ToHalf, Wire.floatToHalf_sign, Wire.floatToHalf_exponent,
    Wire.floatToHalf_fraction, hsignField, hexponentField, hfractionField]
  rw [if_neg (by omega), if_neg (by omega),
    show (((exponent + 112 : Nat) : Int) - 127 + 15).toNat = exponent by omega,
    Nat.shiftRight_eq_div_pow,
    show (fraction * 2 ^ 13 + 0x1000) / 2 ^ 13 = fraction by omega]
  exact Wire.or_packHalf (by omega) hfraction

/-- The shift by `14 - exponent` already leaves the subnormal's own fraction, and the
rounding shift then halves it. -/
theorem f32ToHalf_subnormal {sign bit fraction : Nat} (hsign : sign ≤ 1)
    (hbit : bit < 10) (hlow : 2 ^ bit ≤ fraction) (hhigh : fraction < 2 ^ (bit + 1)) :
    f32ToHalf (packFloat sign (103 + bit) (subnormalFraction fraction bit)) =
      packHalf sign 0 ((fraction + 1) / 2) := by
  obtain ⟨hscaledLow, hscaledHigh⟩ := Wire.scaled_fraction_bounds hbit hlow hhigh
  have hten : fraction < 2 ^ 10 :=
    hhigh.trans_le (Nat.pow_le_pow_right (by decide) hbit)
  have hbelow : subnormalFraction fraction bit < 2 ^ 23 := by
    unfold subnormalFraction; omega
  obtain ⟨hsignField, hexponentField, hfractionField⟩ :=
    Wire.floatToHalf_packFloat (103 + bit) _ hsign (by omega) hbelow
  have hsplit : 2 ^ (10 - bit) * 2 ^ 13 = 2 ^ (23 - bit) := by
    rw [← Nat.pow_add, show 10 - bit + 13 = 23 - bit by omega]
  have hleading : subnormalFraction fraction bit ||| 0x800000 =
      fraction * 2 ^ (23 - bit) := by
    have hor := Wire.mul_two_pow_or 1 hbelow
    rw [Nat.one_mul] at hor
    calc
      subnormalFraction fraction bit ||| 0x800000
          = 2 ^ 23 ||| subnormalFraction fraction bit := Nat.or_comm _ _
      _ = 2 ^ 23 + subnormalFraction fraction bit := hor
      _ = fraction * 2 ^ (10 - bit) * 2 ^ 13 := by
        unfold subnormalFraction
        omega
      _ = fraction * 2 ^ (23 - bit) := by rw [Nat.mul_assoc, hsplit]
  have hshift : (14 - (((103 + bit : Nat) : Int) - 127 + 15)).toNat = 23 - bit := by omega
  simp only [f32ToHalf, Wire.floatToHalf_sign, Wire.floatToHalf_exponent,
    Wire.floatToHalf_fraction, hsignField, hexponentField, hfractionField, hleading, hshift]
  rw [if_pos (by omega), if_neg (by omega),
    Nat.shiftRight_eq_div_pow (fraction * 2 ^ (23 - bit)),
    Nat.mul_div_cancel _ (Nat.pow_pos (by decide)), Nat.shiftRight_eq_div_pow,
    Wire.mul_two_pow_or sign (by omega), packHalf, Nat.zero_mul, Nat.pow_one,
    Nat.add_zero (sign * 2 ^ 15)]

/-- A single that is a half-precision subnormal other than the smallest. -/
def HalfSubnormal (bits : Nat) : Prop :=
  ∃ sign fraction, sign ≤ 1 ∧ 2 ≤ fraction ∧ fraction < 2 ^ 10 ∧
    bits = halfToFloat (packHalf sign 0 fraction)

theorem packHalf_finite {sign fraction : Nat} (hsign : sign ≤ 1)
    (hfraction : fraction < 2 ^ 10) :
    packHalf sign 0 fraction < 2 ^ 16 ∧ packHalf sign 0 fraction / 2 ^ 10 % 2 ^ 5 ≠ 31 := by
  rw [packHalf, Nat.zero_mul, Nat.add_zero]
  constructor <;> omega

theorem f32ToHalf_halfSubnormal {sign fraction : Nat} (hsign : sign ≤ 1)
    (hone : 1 ≤ fraction) (hfraction : fraction < 2 ^ 10) :
    f32ToHalf (halfToFloat (packHalf sign 0 fraction)) =
      packHalf sign 0 ((fraction + 1) / 2) := by
  have hne : fraction ≠ 0 := by omega
  have hbit : Nat.log2 fraction < 10 := (Nat.log2_lt hne).mpr hfraction
  have hlow := Nat.log2_self_le hne
  have hhigh : fraction < 2 ^ (Nat.log2 fraction + 1) := Nat.lt_log2_self
  rw [Wire.halfToFloat_subnormal hsign hbit hlow hhigh,
    f32ToHalf_subnormal hsign hbit hlow hhigh]

/-- A half whose widening compares equal to a finite single is that single. -/
theorem exists_half_of_equal {half bits : Nat} (hbits : bits < 2 ^ 32) (hhalf : half < 2 ^ 16)
    (hfinite : FloatFormat.binary32.isFinite bits)
    (h : FloatFormat.binary32.equal (halfToFloat half) bits = true) :
    ∃ same, same < 2 ^ 16 ∧ same / 2 ^ 10 % 2 ^ 5 ≠ 31 ∧ halfToFloat same = bits := by
  have hequal := h
  simp only [FloatFormat.equal, Bool.and_eq_true, Bool.or_eq_true, beq_iff_eq] at h
  rcases h.2 with hsame | ⟨_, hzero⟩
  · refine ⟨half, hhalf, fun hexponent => ?_, hsame⟩
    have hinfinite := Wire.not_isFinite_halfToFloat hexponent
    rw [hsame] at hinfinite
    exact hinfinite hfinite
  · obtain ⟨sign, hsign, rfl⟩ := Wire.packFloat_of_magnitude_eq_zero hbits hzero
    obtain ⟨hlt, hexponent⟩ := packHalf_finite hsign (show 0 < 2 ^ 10 by decide)
    exact ⟨packHalf sign 0 0, hlt, hexponent, Wire.halfToFloat_zero hsign⟩

theorem f32ToHalf_lt (bits : Nat) : f32ToHalf bits < 2 ^ 16 := by
  have hsign : bits / 2 ^ 31 % 2 * 2 ^ 15 < 2 ^ 16 := by omega
  have hfraction : bits % 2 ^ 23 < 2 ^ 23 := Nat.mod_lt _ (by omega)
  simp only [f32ToHalf, Wire.floatToHalf_sign, Wire.floatToHalf_exponent,
    Wire.floatToHalf_fraction]
  generalize bits / 2 ^ 23 % 2 ^ 8 = exponent
  generalize bits % 2 ^ 23 = fraction at hfraction ⊢
  generalize bits / 2 ^ 31 % 2 * 2 ^ 15 = sign at hsign ⊢
  split_ifs with hsmall htiny hlarge
  · exact hsign
  · apply Nat.or_lt_two_pow hsign
    have hshift : 2 ^ 14 ≤ 2 ^ (14 - ((exponent : Int) - 127 + 15)).toNat :=
      Nat.pow_le_pow_right (by decide) (by omega)
    have hleading : fraction ||| 0x800000 < 2 ^ 24 :=
      Nat.or_lt_two_pow (by omega) (by omega)
    have hquotient : (fraction ||| 0x800000) / 2 ^ (14 - ((exponent : Int) - 127 + 15)).toNat
        ≤ (fraction ||| 0x800000) / 2 ^ 14 := Nat.div_le_div_left hshift (by decide)
    rw [Nat.shiftRight_eq_div_pow, Nat.shiftRight_eq_div_pow]
    omega
  · exact Nat.or_lt_two_pow hsign (by decide)
  · apply Nat.or_lt_two_pow (Nat.or_lt_two_pow hsign ?_) ?_
    · rw [Nat.shiftLeft_eq]
      omega
    · rw [Nat.shiftRight_eq_div_pow]
      omega

/-- Away from the subnormals above the smallest, both codecs narrow alike. -/
theorem f32ToHalf_eq {bits : Nat} (hbits : bits < 2 ^ 32)
    (hfinite : FloatFormat.binary32.isFinite bits) (hrepresents : halfRepresents bits = true)
    (hsubnormal : ¬ HalfSubnormal bits) : f32ToHalf bits = floatToHalf bits := by
  have hround := Wire.halfToFloat_floatToHalf hbits hrepresents
  have hexponent : floatToHalf bits / 2 ^ 10 % 2 ^ 5 ≠ 31 := by
    intro hexponent
    have hinfinite := Wire.not_isFinite_halfToFloat hexponent
    rw [hround] at hinfinite
    exact hinfinite hfinite
  rcases Wire.finite_half_cases (Wire.floatToHalf_lt bits) hexponent with
    ⟨sign, hsign, hhalf⟩ | ⟨sign, bit, fraction, hsign, hbit, hlow, hhigh, hhalf⟩ |
    ⟨sign, exponent, fraction, hsign, hone, hthirty, hfraction, hhalf⟩
  · rw [hhalf, Wire.halfToFloat_zero hsign] at hround
    rw [hhalf, ← hround, f32ToHalf_zero hsign]
  · have hten : fraction < 2 ^ 10 :=
      hhigh.trans_le (Nat.pow_le_pow_right (by decide) hbit)
    have hpositive : 0 < 2 ^ bit := Nat.pow_pos (by decide)
    have hsmallest : fraction = 1 := by
      by_contra hne
      exact hsubnormal ⟨sign, fraction, hsign, by omega, hten, by rw [← hhalf, hround]⟩
    subst hsmallest
    rw [hhalf] at hround
    rw [hhalf, ← hround, f32ToHalf_halfSubnormal hsign (by decide) hten]
  · rw [hhalf, Wire.halfToFloat_normal hsign hone hthirty hfraction] at hround
    rw [hhalf, ← hround, f32ToHalf_normal hsign hone hthirty hfraction]

/-- The frontend narrows every half-representable single except the subnormals above
the smallest. -/
theorem halfExact_iff {bits : Nat} (hbits : bits < 2 ^ 32)
    (hfinite : FloatFormat.binary32.isFinite bits) :
    halfExact bits = true ↔ halfRepresents bits = true ∧ ¬ HalfSubnormal bits := by
  rw [halfExact, halfToF32_eq]
  constructor
  · intro h
    obtain ⟨half, hhalf, hexponent, rfl⟩ :=
      exists_half_of_equal hbits (f32ToHalf_lt bits) hfinite h
    refine ⟨Wire.halfRepresents_halfToFloat hhalf hexponent, ?_⟩
    rintro ⟨sign, fraction, hsign, htwo, hfraction, hsubnormal⟩
    rw [hsubnormal, f32ToHalf_halfSubnormal hsign (by omega) hfraction] at h
    have hrounded : (fraction + 1) / 2 < 2 ^ 10 := by omega
    obtain ⟨hroundedLt, hroundedExponent⟩ := packHalf_finite hsign hrounded
    obtain ⟨hlt, hfractionExponent⟩ := packHalf_finite hsign hfraction
    simp only [FloatFormat.equal, Bool.and_eq_true, Bool.or_eq_true, beq_iff_eq] at h
    rcases h.2 with hsame | ⟨_, hzero⟩
    · have hround := congrArg floatToHalf hsame
      rw [Wire.floatToHalf_halfToFloat hroundedLt hroundedExponent,
        Wire.floatToHalf_halfToFloat hlt hfractionExponent] at hround
      unfold packHalf at hround
      omega
    · obtain ⟨other, hother, hpack⟩ := Wire.packFloat_of_magnitude_eq_zero
        (Wire.halfToFloat_finite hlt hfractionExponent).1 hzero
      have hround := congrArg floatToHalf hpack
      rw [Wire.floatToHalf_halfToFloat hlt hfractionExponent,
        Wire.floatToHalf_zero hother] at hround
      unfold packHalf at hround
      omega
  · rintro ⟨hrepresents, hsubnormal⟩
    rw [f32ToHalf_eq hbits hfinite hrepresents hsubnormal,
      Wire.halfToFloat_floatToHalf hbits hrepresents]
    exact FloatFormat.equal_self hfinite

end Mmltk.Frontend
