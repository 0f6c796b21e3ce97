import Mmltk.Foundation.FloatFormat
import Mmltk.Wire.Value

namespace Mmltk.Wire

open Mmltk.Foundation

/-! Shortest-form float encoding.  Floats are their bit patterns, as
`std::bit_cast` gives them. -/

def floatToHalf (bits : Nat) : Nat :=
  let sign := (bits >>> 16) &&& 0x8000
  let exponent := (bits >>> 23) &&& 0xff
  let fraction := bits &&& 0x7fffff
  if exponent = 0xff then
    sign ||| 0x7c00 ||| (if fraction = 0 then 0 else 0x0200)
  else
    let halfExponent : Int := (exponent : Int) - 127 + 15
    if 31 ≤ halfExponent then sign ||| 0x7c00
    else if halfExponent ≤ 0 then
      if halfExponent < -10 then sign
      else
        let fraction := (fraction ||| 0x800000) >>> (1 - halfExponent).toNat
        sign ||| ((fraction + 0x1000) >>> 13)
    else sign ||| (halfExponent.toNat <<< 10) ||| ((fraction + 0x1000) >>> 13)

/-- `while ((fraction & 0x400U) == 0U) { fraction <<= 1U; --normalized_exponent; }`,
unrolled `fuel` times; ten rounds suffice for a nonzero ten-bit fraction. -/
def normalizeHalf : (fuel fraction normalizedExponent : Nat) → Nat × Nat
  | 0, fraction, normalizedExponent => (fraction, normalizedExponent)
  | fuel + 1, fraction, normalizedExponent =>
      if fraction &&& 0x400 = 0 then
        normalizeHalf fuel (fraction <<< 1) (normalizedExponent - 1)
      else (fraction, normalizedExponent)

def halfToFloat (half : Nat) : Nat :=
  let sign := (half &&& 0x8000) <<< 16
  let exponent := (half >>> 10) &&& 0x1f
  let fraction := half &&& 0x03ff
  if exponent = 0 then
    if fraction = 0 then sign
    else
      let (fraction, normalizedExponent) := normalizeHalf 10 fraction 113
      sign ||| (normalizedExponent <<< 23) ||| ((fraction &&& 0x3ff) <<< 13)
  else if exponent = 31 then sign ||| (0x7f800000 ||| (fraction <<< 13))
  else sign ||| ((exponent + 112) <<< 23) ||| (fraction <<< 13)

/-- `static_cast<double>` of a float. -/
def floatToDouble (bits : Nat) : Nat :=
  FloatFormat.binary32.convert .binary64 bits

/-- `static_cast<float>` of a double. -/
def doubleToFloat (bits : Nat) : Nat :=
  FloatFormat.binary64.convert .binary32 bits

inductive CanonicalFloatWidth where
  | half
  | single
  | double
  deriving DecidableEq, Repr

/-- The enumerator's value: the payload width in bytes. -/
def CanonicalFloatWidth.bytes : CanonicalFloatWidth → Nat
  | .half => 2
  | .single => 4
  | .double => 8

structure CanonicalFloatEncoding where
  width : CanonicalFloatWidth
  bits : Nat
  deriving DecidableEq, Repr

def canonicalFloatEncoding (value : Nat) : Except ErrorCode CanonicalFloatEncoding :=
  if !FloatFormat.binary64.isFinite value then .error .invalidFloat
  else
    let narrowed := doubleToFloat value
    if !FloatFormat.binary64.equal (floatToDouble narrowed) value then
      .ok ⟨.double, value⟩
    else
      let half := floatToHalf narrowed
      if FloatFormat.binary32.equal (halfToFloat half) narrowed then .ok ⟨.half, half⟩
      else .ok ⟨.single, narrowed⟩

/-! The bit tricks read as arithmetic on the three fields. -/

theorem and_two_pow (value bit : Nat) :
    value &&& 2 ^ bit = value / 2 ^ bit % 2 * 2 ^ bit := by
  apply Nat.eq_of_testBit_eq
  intro position
  rw [Nat.testBit_and, Nat.testBit_two_pow, Nat.testBit_mul_two_pow]
  by_cases hposition : bit = position
  · subst hposition
    simp [Nat.testBit_eq_decide_div_mod_eq]
  · by_cases hbelow : position < bit
    · simp [hposition, Nat.not_le.mpr hbelow]
    · have habove : 0 < position - bit := by omega
      have hbit : (value / 2 ^ bit % 2).testBit (position - bit) = false := by
        apply Nat.testBit_lt_two_pow
        have htwo : 2 ^ 1 ≤ 2 ^ (position - bit) :=
          Nat.pow_le_pow_right (by decide) habove
        omega
      simp [hposition, hbit]

/-- Or-ing fields that occupy disjoint bits adds them. -/
theorem mul_two_pow_or {low bits : Nat} (high : Nat) (h : low < 2 ^ bits) :
    high * 2 ^ bits ||| low = high * 2 ^ bits + low := by
  rw [Nat.mul_comm, Nat.two_pow_add_eq_or_of_lt h]

theorem floatToHalf_sign (bits : Nat) :
    (bits >>> 16) &&& 0x8000 = bits / 2 ^ 31 % 2 * 2 ^ 15 := by
  have h := and_two_pow (bits >>> 16) 15
  rw [Nat.shiftRight_eq_div_pow, Nat.div_div_eq_div_mul, ← Nat.pow_add] at h
  simpa [Nat.shiftRight_eq_div_pow] using h

theorem floatToHalf_exponent (bits : Nat) :
    (bits >>> 23) &&& 0xff = bits / 2 ^ 23 % 2 ^ 8 := by
  rw [Nat.shiftRight_eq_div_pow]
  exact Nat.and_two_pow_sub_one_eq_mod _ 8

theorem floatToHalf_fraction (bits : Nat) : bits &&& 0x7fffff = bits % 2 ^ 23 :=
  Nat.and_two_pow_sub_one_eq_mod _ 23

theorem halfToFloat_sign (half : Nat) :
    (half &&& 0x8000) <<< 16 = half / 2 ^ 15 % 2 * 2 ^ 31 := by
  have h : half &&& 0x8000 = half / 2 ^ 15 % 2 * 2 ^ 15 := and_two_pow half 15
  rw [h, Nat.shiftLeft_eq]
  omega

theorem halfToFloat_exponent (half : Nat) :
    (half >>> 10) &&& 0x1f = half / 2 ^ 10 % 2 ^ 5 := by
  rw [Nat.shiftRight_eq_div_pow]
  exact Nat.and_two_pow_sub_one_eq_mod _ 5

theorem halfToFloat_fraction (half : Nat) : half &&& 0x03ff = half % 2 ^ 10 :=
  Nat.and_two_pow_sub_one_eq_mod _ 10

/-- A float assembled from its three fields. -/
def packFloat (sign exponent fraction : Nat) : Nat :=
  sign * 2 ^ 31 + exponent * 2 ^ 23 + fraction

/-- A half assembled from its three fields. -/
def packHalf (sign exponent fraction : Nat) : Nat :=
  sign * 2 ^ 15 + exponent * 2 ^ 10 + fraction

theorem or_packFloat {sign exponent fraction : Nat} (hexponent : exponent < 2 ^ 8)
    (hfraction : fraction < 2 ^ 23) :
    sign * 2 ^ 31 ||| exponent <<< 23 ||| fraction = packFloat sign exponent fraction := by
  rw [Nat.shiftLeft_eq, mul_two_pow_or sign (by omega),
    show sign * 2 ^ 31 + exponent * 2 ^ 23 = (sign * 2 ^ 8 + exponent) * 2 ^ 23 by omega,
    mul_two_pow_or _ hfraction]
  unfold packFloat
  omega

theorem or_packHalf {sign exponent fraction : Nat} (hexponent : exponent < 2 ^ 5)
    (hfraction : fraction < 2 ^ 10) :
    sign * 2 ^ 15 ||| exponent <<< 10 ||| fraction = packHalf sign exponent fraction := by
  rw [Nat.shiftLeft_eq, mul_two_pow_or sign (by omega),
    show sign * 2 ^ 15 + exponent * 2 ^ 10 = (sign * 2 ^ 5 + exponent) * 2 ^ 10 by omega,
    mul_two_pow_or _ hfraction]
  unfold packHalf
  omega

theorem normalizeHalf_eq {bit fuel fraction : Nat} (normalizedExponent : Nat)
    (hbit : bit ≤ 10) (hfuel : 10 - bit ≤ fuel) (hlow : 2 ^ bit ≤ fraction)
    (hhigh : fraction < 2 ^ (bit + 1)) :
    normalizeHalf fuel fraction normalizedExponent =
      (fraction * 2 ^ (10 - bit), normalizedExponent - (10 - bit)) := by
  have hmask : ∀ value : Nat, value &&& 0x400 = value / 2 ^ 10 % 2 * 2 ^ 10 :=
    fun value => and_two_pow value 10
  induction fuel generalizing bit fraction normalizedExponent with
  | zero =>
      have htop : bit = 10 := by omega
      subst htop
      simp [normalizeHalf]
  | succ fuel ih =>
      rcases Nat.lt_or_ge bit 10 with hbelow | htop
      · have hsmall : fraction < 2 ^ 10 :=
          hhigh.trans_le (Nat.pow_le_pow_right (by decide) hbelow)
        have hclear : fraction &&& 0x400 = 0 := by
          rw [hmask, Nat.div_eq_of_lt hsmall, Nat.zero_mod, Nat.zero_mul]
        rw [normalizeHalf, if_pos hclear, Nat.shiftLeft_eq,
          ih (normalizedExponent - 1) (show bit + 1 ≤ 10 by omega) (by omega)
            (by rw [Nat.pow_succ]; omega) (by rw [Nat.pow_succ]; omega)]
        rw [Nat.mul_assoc, ← Nat.pow_add, show 1 + (10 - (bit + 1)) = 10 - bit by omega,
          show normalizedExponent - 1 - (10 - (bit + 1)) =
            normalizedExponent - (10 - bit) by omega]
      · have hten : bit = 10 := by omega
        subst hten
        have hset : ¬ fraction &&& 0x400 = 0 := by
          rw [hmask]
          omega
        rw [normalizeHalf, if_neg hset]
        simp

/-- The float denoted by a subnormal half whose leading bit is `bit`. -/
def subnormalFraction (fraction bit : Nat) : Nat :=
  (fraction * 2 ^ (10 - bit) - 2 ^ 10) * 2 ^ 13

theorem scaled_fraction_bounds {bit fraction : Nat} (hbit : bit < 10)
    (hlow : 2 ^ bit ≤ fraction) (hhigh : fraction < 2 ^ (bit + 1)) :
    2 ^ 10 ≤ fraction * 2 ^ (10 - bit) ∧ fraction * 2 ^ (10 - bit) < 2 ^ 11 := by
  have hten : 2 ^ bit * 2 ^ (10 - bit) = 2 ^ 10 := by
    rw [← Nat.pow_add, show bit + (10 - bit) = 10 by omega]
  have heleven : 2 ^ (bit + 1) * 2 ^ (10 - bit) = 2 ^ 11 := by
    rw [← Nat.pow_add, show bit + 1 + (10 - bit) = 11 by omega]
  constructor
  · rw [← hten]
    exact Nat.mul_le_mul_right _ hlow
  · rw [← heleven]
    exact Nat.mul_lt_mul_of_pos_right hhigh (Nat.pow_pos (by decide))

theorem halfToFloat_zero {sign : Nat} (hsign : sign ≤ 1) :
    halfToFloat (packHalf sign 0 0) = packFloat sign 0 0 := by
  have hexponent : packHalf sign 0 0 / 2 ^ 10 % 2 ^ 5 = 0 := by unfold packHalf; omega
  have hfraction : packHalf sign 0 0 % 2 ^ 10 = 0 := by unfold packHalf; omega
  simp only [halfToFloat, halfToFloat_sign, halfToFloat_exponent, halfToFloat_fraction,
    hexponent, hfraction, if_true]
  unfold packHalf packFloat
  omega

theorem halfToFloat_normal {sign exponent fraction : Nat} (hsign : sign ≤ 1)
    (hone : 1 ≤ exponent) (hexponent : exponent ≤ 30) (hfraction : fraction < 2 ^ 10) :
    halfToFloat (packHalf sign exponent fraction) =
      packFloat sign (exponent + 112) (fraction * 2 ^ 13) := by
  have hexponentField : packHalf sign exponent fraction / 2 ^ 10 % 2 ^ 5 = exponent := by
    unfold packHalf; omega
  have hfractionField : packHalf sign exponent fraction % 2 ^ 10 = fraction := by
    unfold packHalf; omega
  have hsignField : packHalf sign exponent fraction / 2 ^ 15 % 2 = sign := by
    unfold packHalf; omega
  simp only [halfToFloat, halfToFloat_sign, halfToFloat_exponent, halfToFloat_fraction,
    hexponentField, hfractionField, hsignField]
  rw [if_neg (by omega), if_neg (by omega), Nat.shiftLeft_eq fraction]
  exact or_packFloat (by omega) (by omega)

theorem halfToFloat_subnormal {sign bit fraction : Nat} (hsign : sign ≤ 1)
    (hbit : bit < 10) (hlow : 2 ^ bit ≤ fraction) (hhigh : fraction < 2 ^ (bit + 1)) :
    halfToFloat (packHalf sign 0 fraction) =
      packFloat sign (103 + bit) (subnormalFraction fraction bit) := by
  have hten : fraction < 2 ^ 10 :=
    hhigh.trans_le (Nat.pow_le_pow_right (by decide) hbit)
  have hpositive : 0 < 2 ^ bit := Nat.pow_pos (by decide)
  have hexponentField : packHalf sign 0 fraction / 2 ^ 10 % 2 ^ 5 = 0 := by
    unfold packHalf; omega
  have hfractionField : packHalf sign 0 fraction % 2 ^ 10 = fraction := by
    unfold packHalf; omega
  have hsignField : packHalf sign 0 fraction / 2 ^ 15 % 2 = sign := by
    unfold packHalf; omega
  obtain ⟨hscaledLow, hscaledHigh⟩ := scaled_fraction_bounds hbit hlow hhigh
  have hnormalize : normalizeHalf 10 fraction 113 =
      (fraction * 2 ^ (10 - bit), 113 - (10 - bit)) :=
    normalizeHalf_eq 113 (by omega) (by omega) hlow hhigh
  simp only [halfToFloat, halfToFloat_sign, halfToFloat_exponent, halfToFloat_fraction,
    hexponentField, hfractionField, hsignField, if_true, hnormalize]
  rw [if_neg (by omega), Nat.shiftLeft_eq (fraction * 2 ^ (10 - bit) % 2 ^ 10),
    show fraction * 2 ^ (10 - bit) % 2 ^ 10 = fraction * 2 ^ (10 - bit) - 2 ^ 10 by omega,
    show 113 - (10 - bit) = 103 + bit by omega]
  exact or_packFloat (by omega) (by omega)

theorem floatToHalf_packFloat {sign : Nat} (exponent fraction : Nat) (hsign : sign ≤ 1)
    (hexponent : exponent < 2 ^ 8) (hfraction : fraction < 2 ^ 23) :
    packFloat sign exponent fraction / 2 ^ 31 % 2 = sign ∧
      packFloat sign exponent fraction / 2 ^ 23 % 2 ^ 8 = exponent ∧
      packFloat sign exponent fraction % 2 ^ 23 = fraction := by
  unfold packFloat
  omega

theorem floatToHalf_zero {sign : Nat} (hsign : sign ≤ 1) :
    floatToHalf (packFloat sign 0 0) = packHalf sign 0 0 := by
  obtain ⟨hsignField, hexponentField, hfractionField⟩ :=
    floatToHalf_packFloat 0 0 hsign (by decide) (by decide)
  simp only [floatToHalf, floatToHalf_sign, floatToHalf_exponent, floatToHalf_fraction,
    hsignField, hexponentField, hfractionField]
  rw [if_neg (by omega), if_neg (by omega), if_pos (by omega), if_pos (by omega)]
  simp [packHalf]

theorem floatToHalf_normal {sign exponent fraction : Nat} (hsign : sign ≤ 1)
    (hone : 1 ≤ exponent) (hexponent : exponent ≤ 30) (hfraction : fraction < 2 ^ 10) :
    floatToHalf (packFloat sign (exponent + 112) (fraction * 2 ^ 13)) =
      packHalf sign exponent fraction := by
  obtain ⟨hsignField, hexponentField, hfractionField⟩ :=
    floatToHalf_packFloat (exponent + 112) (fraction * 2 ^ 13) hsign (by omega)
      (by omega)
  simp only [floatToHalf, floatToHalf_sign, floatToHalf_exponent, floatToHalf_fraction,
    hsignField, hexponentField, hfractionField]
  rw [if_neg (by omega), if_neg (by omega), if_neg (by omega),
    show (((exponent + 112 : Nat) : Int) - 127 + 15).toNat = exponent by omega,
    Nat.shiftRight_eq_div_pow,
    show (fraction * 2 ^ 13 + 0x1000) / 2 ^ 13 = fraction by omega]
  exact or_packHalf (by omega) hfraction

theorem floatToHalf_subnormal {sign bit fraction : Nat} (hsign : sign ≤ 1)
    (hbit : bit < 10) (hlow : 2 ^ bit ≤ fraction) (hhigh : fraction < 2 ^ (bit + 1)) :
    floatToHalf (packFloat sign (103 + bit) (subnormalFraction fraction bit)) =
      packHalf sign 0 fraction := by
  obtain ⟨hscaledLow, hscaledHigh⟩ := scaled_fraction_bounds hbit hlow hhigh
  have hten : fraction < 2 ^ 10 :=
    hhigh.trans_le (Nat.pow_le_pow_right (by decide) hbit)
  have hbelow : subnormalFraction fraction bit < 2 ^ 23 := by
    unfold subnormalFraction; omega
  obtain ⟨hsignField, hexponentField, hfractionField⟩ :=
    floatToHalf_packFloat (103 + bit) _ hsign (by omega) hbelow
  have hleading : subnormalFraction fraction bit ||| 0x800000 =
      fraction * 2 ^ 13 * 2 ^ (10 - bit) := by
    have hor := mul_two_pow_or 1 hbelow
    rw [Nat.one_mul] at hor
    calc
      subnormalFraction fraction bit ||| 0x800000
          = 2 ^ 23 ||| subnormalFraction fraction bit := Nat.or_comm _ _
      _ = 2 ^ 23 + subnormalFraction fraction bit := hor
      _ = fraction * 2 ^ (10 - bit) * 2 ^ 13 := by
        unfold subnormalFraction
        omega
      _ = fraction * 2 ^ 13 * 2 ^ (10 - bit) := Nat.mul_right_comm _ _ _
  have hshift : (1 - (((103 + bit : Nat) : Int) - 127 + 15)).toNat = 10 - bit := by omega
  simp only [floatToHalf, floatToHalf_sign, floatToHalf_exponent, floatToHalf_fraction,
    hsignField, hexponentField, hfractionField, hleading, hshift]
  rw [if_neg (by omega), if_neg (by omega), if_pos (by omega), if_neg (by omega),
    Nat.shiftRight_eq_div_pow (fraction * 2 ^ 13 * 2 ^ (10 - bit)),
    Nat.mul_div_cancel _ (Nat.pow_pos (by decide)), Nat.shiftRight_eq_div_pow,
    show (fraction * 2 ^ 13 + 0x1000) / 2 ^ 13 = fraction by omega,
    mul_two_pow_or sign (by omega)]
  unfold packHalf
  omega

/-- The three shapes of a finite half. -/
theorem finite_half_cases {half : Nat} (hhalf : half < 2 ^ 16)
    (hfinite : half / 2 ^ 10 % 2 ^ 5 ≠ 31) :
    (∃ sign, sign ≤ 1 ∧ half = packHalf sign 0 0) ∨
    (∃ sign bit fraction, sign ≤ 1 ∧ bit < 10 ∧ 2 ^ bit ≤ fraction ∧
      fraction < 2 ^ (bit + 1) ∧ half = packHalf sign 0 fraction) ∨
    (∃ sign exponent fraction, sign ≤ 1 ∧ 1 ≤ exponent ∧ exponent ≤ 30 ∧
      fraction < 2 ^ 10 ∧ half = packHalf sign exponent fraction) := by
  have hpack : half = packHalf (half / 2 ^ 15) (half / 2 ^ 10 % 2 ^ 5) (half % 2 ^ 10) := by
    unfold packHalf; omega
  rcases Nat.eq_zero_or_pos (half / 2 ^ 10 % 2 ^ 5) with hexponent | hexponent
  · rw [hexponent] at hpack
    rcases Nat.eq_zero_or_pos (half % 2 ^ 10) with hfraction | hfraction
    · rw [hfraction] at hpack
      exact .inl ⟨_, by omega, hpack⟩
    · refine .inr (.inl ⟨_, Nat.log2 (half % 2 ^ 10), _, by omega, ?_,
        Nat.log2_self_le hfraction.ne', Nat.lt_log2_self, hpack⟩)
      exact (Nat.log2_lt hfraction.ne').mpr (Nat.mod_lt _ (by decide))
  · exact .inr (.inr ⟨_, _, _, by omega, hexponent, by omega, by omega, hpack⟩)

theorem floatToHalf_halfToFloat {half : Nat} (hhalf : half < 2 ^ 16)
    (hfinite : half / 2 ^ 10 % 2 ^ 5 ≠ 31) : floatToHalf (halfToFloat half) = half := by
  rcases finite_half_cases hhalf hfinite with
    ⟨sign, hsign, rfl⟩ | ⟨sign, bit, fraction, hsign, hbit, hlow, hhigh, rfl⟩ |
    ⟨sign, exponent, fraction, hsign, hone, hexponent, hfraction, rfl⟩
  · rw [halfToFloat_zero hsign, floatToHalf_zero hsign]
  · rw [halfToFloat_subnormal hsign hbit hlow hhigh,
      floatToHalf_subnormal hsign hbit hlow hhigh]
  · rw [halfToFloat_normal hsign hone hexponent hfraction,
      floatToHalf_normal hsign hone hexponent hfraction]

/-! Which floats the narrower widths represent. -/

/-- `half_to_float(float_to_half(narrowed)) == narrowed` -/
def halfRepresents (narrowed : Nat) : Bool :=
  FloatFormat.binary32.equal (halfToFloat (floatToHalf narrowed)) narrowed

/-- `static_cast<double>(static_cast<float>(value)) == value` -/
def singleRepresents (value : Nat) : Bool :=
  FloatFormat.binary64.equal (floatToDouble (doubleToFloat value)) value

theorem packFloat_lt {sign exponent fraction : Nat} (hsign : sign ≤ 1)
    (hexponent : exponent < 2 ^ 8) (hfraction : fraction < 2 ^ 23) :
    packFloat sign exponent fraction < 2 ^ 32 := by
  unfold packFloat
  omega

theorem isFinite_packFloat {sign exponent fraction : Nat} (hexponent : exponent < 255)
    (hfraction : fraction < 2 ^ 23) :
    FloatFormat.binary32.isFinite (packFloat sign exponent fraction) := by
  have hmagnitude : FloatFormat.binary32.magnitude (packFloat sign exponent fraction) =
      exponent * 2 ^ 23 + fraction := by
    change packFloat sign exponent fraction % 2 ^ 31 = _
    unfold packFloat
    omega
  have hinfinity : FloatFormat.binary32.infinity = 255 * 2 ^ 23 := rfl
  rw [FloatFormat.isFinite, hmagnitude, hinfinity, decide_eq_true_eq]
  omega

theorem halfToFloat_finite {half : Nat} (hhalf : half < 2 ^ 16)
    (hfinite : half / 2 ^ 10 % 2 ^ 5 ≠ 31) :
    halfToFloat half < 2 ^ 32 ∧ FloatFormat.binary32.isFinite (halfToFloat half) := by
  rcases finite_half_cases hhalf hfinite with
    ⟨sign, hsign, rfl⟩ | ⟨sign, bit, fraction, hsign, hbit, hlow, hhigh, rfl⟩ |
    ⟨sign, exponent, fraction, hsign, hone, hexponent, hfraction, rfl⟩
  · rw [halfToFloat_zero hsign]
    exact ⟨packFloat_lt hsign (by decide) (by decide),
      isFinite_packFloat (by decide) (by decide)⟩
  · obtain ⟨hscaledLow, hscaledHigh⟩ := scaled_fraction_bounds hbit hlow hhigh
    have hbelow : subnormalFraction fraction bit < 2 ^ 23 := by
      unfold subnormalFraction; omega
    rw [halfToFloat_subnormal hsign hbit hlow hhigh]
    exact ⟨packFloat_lt hsign (by omega) hbelow, isFinite_packFloat (by omega) hbelow⟩
  · rw [halfToFloat_normal hsign hone hexponent hfraction]
    exact ⟨packFloat_lt hsign (by omega) (by omega),
      isFinite_packFloat (by omega) (by omega)⟩

/-- The all-ones exponent is infinity or NaN, never a finite float. -/
theorem not_isFinite_halfToFloat {half : Nat} (h : half / 2 ^ 10 % 2 ^ 5 = 31) :
    ¬ FloatFormat.binary32.isFinite (halfToFloat half) := by
  have hfraction : half % 2 ^ 10 < 2 ^ 10 := Nat.mod_lt _ (by decide)
  have hscaled : half % 2 ^ 10 * 2 ^ 13 < 2 ^ 23 := by omega
  have hbits : halfToFloat half =
      packFloat (half / 2 ^ 15 % 2) 255 (half % 2 ^ 10 * 2 ^ 13) := by
    simp only [halfToFloat, halfToFloat_sign, halfToFloat_exponent, halfToFloat_fraction, h]
    rw [if_neg (by decide), if_pos trivial, Nat.shiftLeft_eq (half % 2 ^ 10), ← Nat.or_assoc,
      show (0x7f800000 : Nat) = 255 <<< 23 by decide]
    exact or_packFloat (by decide) hscaled
  have hmagnitude : FloatFormat.binary32.magnitude (halfToFloat half) =
      255 * 2 ^ 23 + half % 2 ^ 10 * 2 ^ 13 := by
    rw [hbits]
    change packFloat _ _ _ % 2 ^ 31 = _
    unfold packFloat
    omega
  have hinfinity : FloatFormat.binary32.infinity = 255 * 2 ^ 23 := rfl
  rw [FloatFormat.isFinite, hmagnitude, hinfinity, decide_eq_true_eq]
  omega

theorem roundedFraction_lt {fraction : Nat} (shift : Nat) (h : fraction < 2 ^ 23) :
    ((fraction ||| 0x800000) >>> shift + 0x1000) >>> 13 < 2 ^ 16 := by
  have hleading : fraction ||| 0x800000 < 2 ^ 24 := Nat.or_lt_two_pow (by omega) (by omega)
  have hquotient := Nat.div_le_self (fraction ||| 0x800000) (2 ^ shift)
  rw [Nat.shiftRight_eq_div_pow, Nat.shiftRight_eq_div_pow]
  omega

theorem floatToHalf_lt (bits : Nat) : floatToHalf bits < 2 ^ 16 := by
  have hsign : bits / 2 ^ 31 % 2 * 2 ^ 15 < 2 ^ 16 := by omega
  have hinfinity : bits / 2 ^ 31 % 2 * 2 ^ 15 ||| 0x7c00 < 2 ^ 16 :=
    Nat.or_lt_two_pow hsign (by decide)
  have hfraction : bits % 2 ^ 23 < 2 ^ 23 := Nat.mod_lt _ (by omega)
  simp only [floatToHalf, floatToHalf_sign, floatToHalf_exponent, floatToHalf_fraction]
  generalize bits / 2 ^ 23 % 2 ^ 8 = exponent
  generalize bits % 2 ^ 23 = fraction at hfraction ⊢
  generalize bits / 2 ^ 31 % 2 * 2 ^ 15 = sign at hsign hinfinity ⊢
  split_ifs
  · exact Nat.or_lt_two_pow hinfinity (by decide)
  · exact Nat.or_lt_two_pow hinfinity (by decide)
  · exact hinfinity
  · exact hsign
  · exact Nat.or_lt_two_pow hsign (roundedFraction_lt _ hfraction)
  · apply Nat.or_lt_two_pow (Nat.or_lt_two_pow hsign ?_) ?_
    · rw [Nat.shiftLeft_eq]
      omega
    · rw [Nat.shiftRight_eq_div_pow]
      omega

theorem packFloat_of_magnitude_eq_zero {bits : Nat} (hbits : bits < 2 ^ 32)
    (h : FloatFormat.binary32.magnitude bits = 0) :
    ∃ sign, sign ≤ 1 ∧ bits = packFloat sign 0 0 := by
  change bits % 2 ^ 31 = 0 at h
  refine ⟨bits / 2 ^ 31, by omega, ?_⟩
  unfold packFloat
  omega

theorem halfToFloat_floatToHalf {narrowed : Nat} (hbits : narrowed < 2 ^ 32)
    (h : halfRepresents narrowed) : halfToFloat (floatToHalf narrowed) = narrowed := by
  simp only [halfRepresents, FloatFormat.equal, Bool.and_eq_true, Bool.or_eq_true,
    beq_iff_eq] at h
  rcases h.2 with hequal | ⟨_, hzero⟩
  · exact hequal
  · obtain ⟨sign, hsign, rfl⟩ := packFloat_of_magnitude_eq_zero hbits hzero
    rw [floatToHalf_zero hsign, halfToFloat_zero hsign]

theorem halfRepresents_halfToFloat {half : Nat} (hhalf : half < 2 ^ 16)
    (hfinite : half / 2 ^ 10 % 2 ^ 5 ≠ 31) : halfRepresents (halfToFloat half) := by
  rw [halfRepresents, floatToHalf_halfToFloat hhalf hfinite]
  exact FloatFormat.equal_self (halfToFloat_finite hhalf hfinite).2

theorem doubleToFloat_floatToDouble {bits : Nat} (h : FloatFormat.binary32.isFinite bits) :
    doubleToFloat (floatToDouble bits) = bits :=
  FloatFormat.convert_convert FloatFormat.binary32_embeds_binary64 h

theorem floatToDouble_doubleToFloat {value : Nat} (h : singleRepresents value) :
    floatToDouble (doubleToFloat value) = value :=
  FloatFormat.convert_convert_of_equal h

theorem isFinite_floatToDouble {bits : Nat} :
    FloatFormat.binary64.isFinite (floatToDouble bits) = true ↔
      FloatFormat.binary32.isFinite bits = true :=
  ⟨FloatFormat.isFinite_of_isFinite_convert (by decide),
    FloatFormat.isFinite_convert FloatFormat.binary32_embeds_binary64⟩

theorem floatToDouble_lt {bits : Nat} (h : bits < 2 ^ 32) : floatToDouble bits < 2 ^ 64 :=
  FloatFormat.convert_lt .binary32 .binary64 (by decide) h

theorem doubleToFloat_lt {value : Nat} (h : value < 2 ^ 64) : doubleToFloat value < 2 ^ 32 :=
  FloatFormat.convert_lt .binary64 .binary32 (by decide) h

theorem singleRepresents_floatToDouble {bits : Nat}
    (h : FloatFormat.binary32.isFinite bits) : singleRepresents (floatToDouble bits) := by
  rw [singleRepresents, doubleToFloat_floatToDouble h]
  exact FloatFormat.equal_self (isFinite_floatToDouble.mpr h)

namespace CanonicalFloatEncoding

/-- The double an encoding denotes. -/
def value (encoding : CanonicalFloatEncoding) : Nat :=
  match encoding.width with
  | .half => floatToDouble (halfToFloat encoding.bits)
  | .single => floatToDouble encoding.bits
  | .double => encoding.bits

/-- A finite payload that no narrower width represents. -/
def Canonical (encoding : CanonicalFloatEncoding) : Prop :=
  match encoding.width with
  | .half => encoding.bits < 2 ^ 16 ∧ encoding.bits / 2 ^ 10 % 2 ^ 5 ≠ 31
  | .single => encoding.bits < 2 ^ 32 ∧ FloatFormat.binary32.isFinite encoding.bits = true ∧
      halfRepresents encoding.bits = false
  | .double => encoding.bits < 2 ^ 64 ∧ FloatFormat.binary64.isFinite encoding.bits = true ∧
      singleRepresents encoding.bits = false

theorem value_lt {encoding : CanonicalFloatEncoding} (h : encoding.Canonical) :
    encoding.value < 2 ^ 64 := by
  obtain ⟨width, bits⟩ := encoding
  cases width with
  | half => exact floatToDouble_lt (halfToFloat_finite h.1 h.2).1
  | single => exact floatToDouble_lt h.1
  | double => exact h.1

end CanonicalFloatEncoding

theorem canonicalFloatEncoding_eq (value : Nat) :
    canonicalFloatEncoding value =
      if !FloatFormat.binary64.isFinite value then .error .invalidFloat
      else if !singleRepresents value then .ok ⟨.double, value⟩
      else if halfRepresents (doubleToFloat value) then
        .ok ⟨.half, floatToHalf (doubleToFloat value)⟩
      else .ok ⟨.single, doubleToFloat value⟩ := rfl

theorem canonicalFloatEncoding_sound {value : Nat} (hvalue : value < 2 ^ 64)
    {encoding : CanonicalFloatEncoding}
    (h : canonicalFloatEncoding value = .ok encoding) :
    encoding.Canonical ∧ encoding.value = value := by
  rw [canonicalFloatEncoding_eq] at h
  split at h
  · contradiction
  · next hfinite =>
    rw [Bool.not_eq_true, Bool.not_eq_false'] at hfinite
    split at h
    · next hdouble =>
      cases h
      exact ⟨⟨hvalue, hfinite, by simpa using hdouble⟩, rfl⟩
    · next hsingle =>
      rw [Bool.not_eq_true, Bool.not_eq_false'] at hsingle
      have hwiden := floatToDouble_doubleToFloat hsingle
      have hnarrow : FloatFormat.binary32.isFinite (doubleToFloat value) := by
        rw [← isFinite_floatToDouble, hwiden]
        exact hfinite
      have hbits := doubleToFloat_lt hvalue
      split at h
      · next hhalf =>
        cases h
        have hround := halfToFloat_floatToHalf hbits hhalf
        refine ⟨⟨floatToHalf_lt _, fun hexponent => ?_⟩, ?_⟩
        · have hinfinite := not_isFinite_halfToFloat hexponent
          rw [hround] at hinfinite
          exact hinfinite hnarrow
        · change floatToDouble (halfToFloat (floatToHalf (doubleToFloat value))) = value
          rw [hround, hwiden]
      · next hhalf =>
        cases h
        exact ⟨⟨hbits, hnarrow, by simpa using hhalf⟩, hwiden⟩

theorem canonicalFloatEncoding_complete {encoding : CanonicalFloatEncoding}
    (h : encoding.Canonical) : canonicalFloatEncoding encoding.value = .ok encoding := by
  obtain ⟨width, bits⟩ := encoding
  cases width with
  | half =>
      obtain ⟨hbits, hexponent⟩ := h
      obtain ⟨_, hfinite⟩ := halfToFloat_finite hbits hexponent
      have hsingle := singleRepresents_floatToDouble hfinite
      have hhalf := halfRepresents_halfToFloat hbits hexponent
      change canonicalFloatEncoding (floatToDouble (halfToFloat bits)) = _
      dsimp only at hbits hexponent hfinite hsingle hhalf
      rw [canonicalFloatEncoding_eq, isFinite_floatToDouble.mpr hfinite, hsingle,
        doubleToFloat_floatToDouble hfinite, hhalf, floatToHalf_halfToFloat hbits hexponent]
      rfl
  | single =>
      obtain ⟨hbits, hfinite, hhalf⟩ := h
      have hsingle := singleRepresents_floatToDouble hfinite
      change canonicalFloatEncoding (floatToDouble bits) = _
      dsimp only at hbits hfinite hhalf hsingle
      rw [canonicalFloatEncoding_eq, isFinite_floatToDouble.mpr hfinite, hsingle,
        doubleToFloat_floatToDouble hfinite, hhalf]
      rfl
  | double =>
      obtain ⟨hbits, hfinite, hsingle⟩ := h
      change canonicalFloatEncoding bits = _
      dsimp only at hbits hfinite hsingle
      rw [canonicalFloatEncoding_eq, hfinite, hsingle]
      rfl

end Mmltk.Wire
