import Mathlib.Data.Nat.Log
import Mathlib.Tactic.Ring

namespace Mmltk.Foundation

/-! Binary interchange formats.  A format is a pair of field widths; a finite
magnitude denotes `significand * 2 ^ scale`, and conversion between formats
rounds to nearest with ties to even. -/

structure FloatFormat where
  exponentBits : Nat
  fractionBits : Nat
  exponentBits_pos : 0 < exponentBits

namespace FloatFormat

def binary32 : FloatFormat := ⟨8, 23, by decide⟩

def binary64 : FloatFormat := ⟨11, 52, by decide⟩

def bias (format : FloatFormat) : Nat := 2 ^ (format.exponentBits - 1) - 1

def signBit (format : FloatFormat) : Nat :=
  2 ^ (format.exponentBits + format.fractionBits)

/-- Bit pattern of positive infinity; every finite magnitude lies below it. -/
def infinity (format : FloatFormat) : Nat :=
  (2 ^ format.exponentBits - 1) * 2 ^ format.fractionBits

/-- Scale of the last fraction bit of a subnormal. -/
def minScale (format : FloatFormat) : Int :=
  1 - (format.bias : Int) - format.fractionBits

def magnitude (format : FloatFormat) (bits : Nat) : Nat :=
  bits % format.signBit

def isFinite (format : FloatFormat) (bits : Nat) : Bool :=
  format.magnitude bits < format.infinity

def isNan (format : FloatFormat) (bits : Nat) : Bool :=
  format.infinity < format.magnitude bits

/-- Numeric equality of two encodings: zeros of either sign agree and a NaN
equals nothing. -/
def equal (format : FloatFormat) (left right : Nat) : Bool :=
  !format.isNan left && !format.isNan right &&
    (left == right || (format.magnitude left == 0 && format.magnitude right == 0))

/-- Where an encoding that is no NaN stands among the others. -/
def rank (format : FloatFormat) (bits : Nat) : Int :=
  if bits < format.signBit then bits else -(format.magnitude bits : Int)

/-- Numeric order of two encodings: nothing is below a NaN, or above it. -/
def less (format : FloatFormat) (left right : Nat) : Bool :=
  !format.isNan left && !format.isNan right && decide (format.rank left < format.rank right)

def significand (format : FloatFormat) (magnitude : Nat) : Nat :=
  if magnitude < 2 ^ format.fractionBits then magnitude
  else 2 ^ format.fractionBits + magnitude % 2 ^ format.fractionBits

def scale (format : FloatFormat) (magnitude : Nat) : Int :=
  format.minScale + ((magnitude / 2 ^ format.fractionBits - 1 : Nat) : Int)

/-- Shift right by `shift`, rounding to nearest with ties to even. -/
def roundShift (shift value : Nat) : Nat :=
  let quotient := value / 2 ^ shift
  let remainder := value % 2 ^ shift
  if 2 ^ shift < 2 * remainder ∨ (2 * remainder = 2 ^ shift ∧ quotient % 2 = 1) then
    quotient + 1
  else quotient

/-- Scale of the last place kept when `significand * 2 ^ exponent` is rounded. -/
def targetScale (format : FloatFormat) (significand : Nat) (exponent : Int) : Int :=
  max (exponent + (Nat.log2 significand : Int) - format.fractionBits) format.minScale

/-- Magnitude nearest to `significand * 2 ^ exponent`.  The implicit leading bit
of a normal result carries into the exponent field. -/
def round (format : FloatFormat) (significand : Nat) (exponent : Int) : Nat :=
  if significand = 0 then 0
  else
    let target := format.targetScale significand exponent
    let mantissa :=
      if target ≤ exponent then significand * 2 ^ (exponent - target).toNat
      else roundShift (target - exponent).toNat significand
    min ((target - format.minScale).toNat * 2 ^ format.fractionBits + mantissa)
      format.infinity

/-- Conversion between formats.  Every NaN becomes the quiet NaN of the target. -/
def convert (source target : FloatFormat) (bits : Nat) : Nat :=
  let magnitude := source.magnitude bits
  let sign := bits / source.signBit * target.signBit
  if source.infinity < magnitude then
    sign + (target.infinity + 2 ^ (target.fractionBits - 1))
  else if magnitude = source.infinity then sign + target.infinity
  else sign + target.round (source.significand magnitude) (source.scale magnitude)

/-! Rounding a shifted significand agrees with rounding the original one. -/

theorem log2_mul_two_pow {value : Nat} (hvalue : value ≠ 0) (shift : Nat) :
    Nat.log2 (value * 2 ^ shift) = Nat.log2 value + shift := by
  have hproduct : value * 2 ^ shift ≠ 0 :=
    Nat.mul_ne_zero hvalue (Nat.pow_pos (by decide)).ne'
  rw [Nat.log2_eq_iff hproduct]
  constructor
  · rw [Nat.pow_add]
    exact Nat.mul_le_mul_right _ (Nat.log2_self_le hvalue)
  · rw [show Nat.log2 value + shift + 1 = (Nat.log2 value + 1) + shift by omega,
      Nat.pow_add]
    exact Nat.mul_lt_mul_of_pos_right Nat.lt_log2_self (Nat.pow_pos (by decide))

theorem roundShift_mul_two_pow (shift common value : Nat) :
    roundShift (shift + common) (value * 2 ^ common) = roundShift shift value := by
  have hpos : 0 < 2 ^ common := Nat.pow_pos (by decide)
  have hquotient : value * 2 ^ common / 2 ^ (shift + common) = value / 2 ^ shift := by
    rw [Nat.pow_add, Nat.mul_div_mul_right _ _ hpos]
  have hremainder : value * 2 ^ common % 2 ^ (shift + common) =
      value % 2 ^ shift * 2 ^ common := by
    rw [Nat.pow_add, Nat.mul_mod_mul_right]
  have hless : 2 ^ (shift + common) < 2 * (value % 2 ^ shift * 2 ^ common) ↔
      2 ^ shift < 2 * (value % 2 ^ shift) := by
    rw [Nat.pow_add, ← Nat.mul_assoc]
    exact Nat.mul_lt_mul_right hpos
  have htie : 2 * (value % 2 ^ shift * 2 ^ common) = 2 ^ (shift + common) ↔
      2 * (value % 2 ^ shift) = 2 ^ shift := by
    rw [Nat.pow_add, ← Nat.mul_assoc]
    exact Nat.mul_left_inj hpos.ne'
  simp only [roundShift, hquotient, hremainder, hless, htie]

theorem roundShift_zero (value : Nat) : roundShift 0 value = value := by
  simp [roundShift, Nat.mod_one]

theorem roundShift_exact (shift value : Nat) :
    roundShift shift (value * 2 ^ shift) = value := by
  have h := roundShift_mul_two_pow 0 shift value
  rwa [Nat.zero_add, roundShift_zero] at h

theorem targetScale_mul_two_pow (format : FloatFormat) {significand : Nat}
    (hsignificand : significand ≠ 0) (exponent : Int) (shift : Nat) :
    format.targetScale (significand * 2 ^ shift) (exponent - shift) =
      format.targetScale significand exponent := by
  simp only [targetScale, log2_mul_two_pow hsignificand]
  push_cast
  congr 2
  omega

theorem round_mul_two_pow (format : FloatFormat) (significand : Nat)
    (exponent : Int) (shift : Nat) :
    format.round (significand * 2 ^ shift) (exponent - shift) =
      format.round significand exponent := by
  by_cases hzero : significand = 0
  · simp [hzero, round]
  have hproduct : significand * 2 ^ shift ≠ 0 :=
    Nat.mul_ne_zero hzero (Nat.pow_pos (by decide)).ne'
  simp only [round, hzero, hproduct, if_false,
    targetScale_mul_two_pow format hzero]
  congr 2
  generalize format.targetScale significand exponent = target
  by_cases hexact : target ≤ exponent - shift
  · have hwide : target ≤ exponent := by omega
    rw [if_pos hexact, if_pos hwide, Nat.mul_assoc, ← Nat.pow_add]
    congr 2
    omega
  · rw [if_neg hexact]
    by_cases hwide : target ≤ exponent
    · -- the shift removes only zeros that the scaling put there
      rw [if_pos hwide]
      obtain ⟨left, hleft⟩ : ∃ left : Nat, (target - (exponent - shift)).toNat = left :=
        ⟨_, rfl⟩
      have hshift : shift = (exponent - target).toNat + left := by omega
      rw [hleft, hshift, Nat.pow_add, ← Nat.mul_assoc, roundShift_exact]
    · rw [if_neg hwide, show (target - (exponent - shift)).toNat =
          (target - exponent).toNat + shift by omega]
      exact roundShift_mul_two_pow _ _ _

/-! A finite magnitude rounds to itself. -/

theorem two_pow_fractionBits_pos (format : FloatFormat) :
    0 < 2 ^ format.fractionBits := Nat.pow_pos (by decide)

theorem significand_subnormal {format : FloatFormat} {magnitude : Nat}
    (h : magnitude < 2 ^ format.fractionBits) :
    format.significand magnitude = magnitude ∧ format.scale magnitude = format.minScale := by
  have hfield : magnitude / 2 ^ format.fractionBits = 0 := Nat.div_eq_of_lt h
  simp [significand, scale, h, hfield]

/-- Reassemble a normal magnitude from its exponent field and mantissa. -/
theorem significand_normal (format : FloatFormat) {mantissa : Nat} (steps : Nat)
    (hlow : 2 ^ format.fractionBits ≤ mantissa)
    (hhigh : mantissa < 2 ^ (format.fractionBits + 1)) :
    format.significand (steps * 2 ^ format.fractionBits + mantissa) = mantissa ∧
      format.scale (steps * 2 ^ format.fractionBits + mantissa) =
        format.minScale + steps := by
  have hpos := format.two_pow_fractionBits_pos
  rw [Nat.pow_succ] at hhigh
  obtain ⟨fraction, rfl⟩ := Nat.exists_eq_add_of_le hlow
  have hfraction : fraction < 2 ^ format.fractionBits := by omega
  have hsum : steps * 2 ^ format.fractionBits + (2 ^ format.fractionBits + fraction) =
      fraction + (steps + 1) * 2 ^ format.fractionBits := by ring
  have hfield : (fraction + (steps + 1) * 2 ^ format.fractionBits) /
      2 ^ format.fractionBits = steps + 1 := by
    rw [Nat.add_mul_div_right _ _ hpos, Nat.div_eq_of_lt hfraction, Nat.zero_add]
  have hlarge : ¬ fraction + (steps + 1) * 2 ^ format.fractionBits <
      2 ^ format.fractionBits := by
    rw [Nat.succ_mul]
    omega
  rw [hsum]
  constructor
  · rw [significand, if_neg hlarge, Nat.add_mul_mod_self_right,
      Nat.mod_eq_of_lt hfraction]
  · rw [scale, hfield, Nat.add_sub_cancel]

/-- Every magnitude is either subnormal or `steps` above the smallest normal. -/
theorem exists_normal {format : FloatFormat} {magnitude : Nat}
    (h : 2 ^ format.fractionBits ≤ magnitude) :
    ∃ steps mantissa, magnitude = steps * 2 ^ format.fractionBits + mantissa ∧
      2 ^ format.fractionBits ≤ mantissa ∧ mantissa < 2 ^ (format.fractionBits + 1) := by
  have hpos := format.two_pow_fractionBits_pos
  have hfield : 1 ≤ magnitude / 2 ^ format.fractionBits :=
    (Nat.one_le_div_iff hpos).mpr h
  have hdivision := Nat.div_add_mod magnitude (2 ^ format.fractionBits)
  have hmod := Nat.mod_lt magnitude hpos
  obtain ⟨steps, hsteps⟩ := Nat.exists_eq_add_of_le hfield
  refine ⟨steps, 2 ^ format.fractionBits + magnitude % 2 ^ format.fractionBits,
    ?_, Nat.le_add_right _ _, ?_⟩
  · rw [hsteps, Nat.mul_add, Nat.mul_one, Nat.mul_comm _ steps] at hdivision
    omega
  · rw [Nat.pow_succ]
    omega

theorem log2_mantissa {bits mantissa : Nat} (hlow : 2 ^ bits ≤ mantissa)
    (hhigh : mantissa < 2 ^ (bits + 1)) : Nat.log2 mantissa = bits := by
  have hpos : 0 < 2 ^ bits := Nat.pow_pos (by decide)
  exact (Nat.log2_eq_iff (by omega)).mpr ⟨hlow, hhigh⟩

theorem round_significand_scale (format : FloatFormat) {magnitude : Nat}
    (h : magnitude < format.infinity) :
    format.round (format.significand magnitude) (format.scale magnitude) = magnitude := by
  by_cases hsubnormal : magnitude < 2 ^ format.fractionBits
  · obtain ⟨hsignificand, hscale⟩ := significand_subnormal hsubnormal
    rw [hsignificand, hscale]
    by_cases hzero : magnitude = 0
    · simp [hzero, round]
    have hlog : Nat.log2 magnitude < format.fractionBits :=
      (Nat.log2_lt hzero).mpr hsubnormal
    have htarget : format.targetScale magnitude format.minScale = format.minScale := by
      unfold targetScale
      omega
    simp only [round, hzero, if_false, htarget]
    simp only [le_refl, if_true, sub_self, Int.toNat_zero, Nat.pow_zero, Nat.mul_one,
      Nat.zero_mul, Nat.zero_add]
    omega
  · obtain ⟨steps, mantissa, hmagnitude, hlow, hhigh⟩ :=
      exists_normal (Nat.le_of_not_lt hsubnormal)
    obtain ⟨hsignificand, hscale⟩ := significand_normal format steps hlow hhigh
    have hnonzero : mantissa ≠ 0 := by
      have := format.two_pow_fractionBits_pos
      omega
    have htarget : format.targetScale mantissa (format.minScale + steps) =
        format.minScale + steps := by
      unfold targetScale
      rw [log2_mantissa hlow hhigh]
      omega
    rw [hmagnitude] at h ⊢
    simp only [hsignificand, hscale, round, hnonzero, if_false, htarget]
    simp only [le_refl, if_true, sub_self, Int.toNat_zero, Nat.pow_zero, Nat.mul_one,
      show (format.minScale + (steps : Int) - format.minScale).toNat = steps by omega]
    omega

/-! Widening loses nothing, so narrowing a widened value restores it. -/

/-- Every finite value of `source` is a finite value of `target`. -/
structure Embeds (source target : FloatFormat) : Prop where
  fractionBits_le : source.fractionBits ≤ target.fractionBits
  minScale_le : target.minScale ≤ source.minScale
  maxExponent_le :
    source.minScale + source.fractionBits + (2 ^ source.exponentBits : Nat) ≤
      target.minScale + target.fractionBits + (2 ^ target.exponentBits : Nat)

theorem binary32_embeds_binary64 : Embeds binary32 binary64 where
  fractionBits_le := by decide
  minScale_le := by decide
  maxExponent_le := by decide

theorem two_le_two_pow_exponentBits (format : FloatFormat) :
    2 ≤ 2 ^ format.exponentBits := by
  calc
    2 = 2 ^ 1 := rfl
    _ ≤ 2 ^ format.exponentBits :=
      Nat.pow_le_pow_right (by decide) format.exponentBits_pos

theorem significand_eq_zero {format : FloatFormat} {magnitude : Nat} :
    format.significand magnitude = 0 ↔ magnitude = 0 := by
  have hpos := format.two_pow_fractionBits_pos
  unfold significand
  split <;> omega

theorem significand_lt (format : FloatFormat) (magnitude : Nat) :
    format.significand magnitude < 2 ^ (format.fractionBits + 1) := by
  have hpos := format.two_pow_fractionBits_pos
  have hmod := Nat.mod_lt magnitude hpos
  rw [Nat.pow_succ]
  unfold significand
  split <;> omega

/-- The leading bit of a finite magnitude stays below the format's overflow
threshold. -/
theorem scale_lt_of_finite {format : FloatFormat} {magnitude : Nat}
    (h : magnitude < format.infinity) :
    format.scale magnitude + 3 ≤ format.minScale + (2 ^ format.exponentBits : Nat) ∨
      magnitude < 2 ^ format.fractionBits := by
  by_cases hsubnormal : magnitude < 2 ^ format.fractionBits
  · exact .inr hsubnormal
  · left
    have hpos := format.two_pow_fractionBits_pos
    have hfield : magnitude / 2 ^ format.fractionBits < 2 ^ format.exponentBits - 1 :=
      (Nat.div_lt_iff_lt_mul hpos).mpr h
    have hone : 1 ≤ magnitude / 2 ^ format.fractionBits :=
      (Nat.one_le_div_iff hpos).mpr (Nat.le_of_not_lt hsubnormal)
    unfold scale
    omega

/-- A magnitude rounded without loss: the result denotes the same value. -/
theorem round_exact {format : FloatFormat} {significand : Nat} {exponent : Int}
    (hnonzero : significand ≠ 0)
    (hfits : format.targetScale significand exponent ≤ exponent)
    (hrange : exponent + (Nat.log2 significand : Int) + 3 ≤
      format.minScale + format.fractionBits + (2 ^ format.exponentBits : Nat)) :
    ∃ shift : Nat,
      format.round significand exponent < format.infinity ∧
      format.significand (format.round significand exponent) = significand * 2 ^ shift ∧
      format.scale (format.round significand exponent) = exponent - shift := by
  let target := format.targetScale significand exponent
  have htarget : format.targetScale significand exponent = target := rfl
  have hmin : format.minScale ≤ target := by
    rw [← htarget]
    exact le_max_right _ _
  obtain ⟨shift, hshift⟩ : ∃ shift : Nat, (exponent - target).toNat = shift := ⟨_, rfl⟩
  obtain ⟨steps, hsteps⟩ : ∃ steps : Nat, (target - format.minScale).toNat = steps :=
    ⟨_, rfl⟩
  let mantissa := significand * 2 ^ shift
  have hmantissa : mantissa ≠ 0 :=
    Nat.mul_ne_zero hnonzero (Nat.pow_pos (by decide)).ne'
  have hlog : Nat.log2 mantissa = Nat.log2 significand + shift :=
    log2_mul_two_pow hnonzero shift
  have hround : format.round significand exponent =
      min (steps * 2 ^ format.fractionBits + mantissa) format.infinity := by
    rw [htarget] at hfits
    simp only [round, hnonzero, if_false, htarget, if_pos hfits, hshift, hsteps, mantissa]
  have hexponent : 2 ^ format.exponentBits - 1 + 1 = 2 ^ format.exponentBits :=
    Nat.sub_add_cancel (Nat.pow_pos (by decide))
  have hwide := format.two_le_two_pow_exponentBits
  have hpos := format.two_pow_fractionBits_pos
  refine ⟨shift, ?_⟩
  by_cases hnormal : 2 ^ format.fractionBits ≤ mantissa
  · have hhigh : mantissa < 2 ^ (format.fractionBits + 1) := by
      rw [← Nat.log2_lt hmantissa, hlog]
      unfold targetScale at htarget
      omega
    have hlow : format.fractionBits ≤ Nat.log2 mantissa :=
      (Nat.le_log2 hmantissa).mpr hnormal
    have hfinite : steps * 2 ^ format.fractionBits + mantissa < format.infinity := by
      have hcarry : steps + 2 ≤ 2 ^ format.exponentBits - 1 := by
        unfold targetScale at htarget
        omega
      calc
        steps * 2 ^ format.fractionBits + mantissa
            < (steps + 2) * 2 ^ format.fractionBits := by
          rw [Nat.add_mul]
          rw [Nat.pow_succ] at hhigh
          omega
        _ ≤ format.infinity := Nat.mul_le_mul_right _ hcarry
    obtain ⟨hsignificand, hscale⟩ := significand_normal format steps hnormal hhigh
    rw [hround, Nat.min_eq_left hfinite.le]
    exact ⟨hfinite, hsignificand, by rw [hscale]; omega⟩
  · have hsubnormal : mantissa < 2 ^ format.fractionBits := Nat.lt_of_not_le hnormal
    have hsmall : Nat.log2 mantissa < format.fractionBits :=
      (Nat.log2_lt hmantissa).mpr hsubnormal
    have hzero : steps = 0 := by
      unfold targetScale at htarget
      omega
    have hfinite : mantissa < format.infinity := by
      calc
        mantissa < 1 * 2 ^ format.fractionBits := by rwa [Nat.one_mul]
        _ ≤ format.infinity := Nat.mul_le_mul_right _ (by omega)
    obtain ⟨hsignificand, hscale⟩ := significand_subnormal hsubnormal
    rw [hround, hzero, Nat.zero_mul, Nat.zero_add, Nat.min_eq_left hfinite.le]
    exact ⟨hfinite, hsignificand, by rw [hscale]; omega⟩

theorem round_widen {source target : FloatFormat} (h : Embeds source target)
    {magnitude : Nat} (hfinite : magnitude < source.infinity) :
    let widened := target.round (source.significand magnitude) (source.scale magnitude)
    widened < target.infinity ∧
      source.round (target.significand widened) (target.scale widened) = magnitude := by
  intro widened
  by_cases hzero : magnitude = 0
  · have hsignificand : source.significand magnitude = 0 := significand_eq_zero.mpr hzero
    have hwidened : widened = 0 := by simp [widened, round, hsignificand]
    have htarget : target.significand 0 = 0 := significand_eq_zero.mpr rfl
    rw [hwidened, htarget]
    refine ⟨?_, by simp [round, hzero]⟩
    exact Nat.mul_pos
      (Nat.sub_pos_of_lt (Nat.one_lt_two_pow target.exponentBits_pos.ne'))
      target.two_pow_fractionBits_pos
  · have hnonzero : source.significand magnitude ≠ 0 := by rwa [Ne, significand_eq_zero]
    have hlog : Nat.log2 (source.significand magnitude) ≤ source.fractionBits :=
      Nat.le_of_lt_succ ((Nat.log2_lt hnonzero).mpr (source.significand_lt magnitude))
    have hscale : source.minScale ≤ source.scale magnitude := by
      unfold scale
      omega
    obtain ⟨hfraction, hmin, hmax⟩ := h
    have hfits : target.targetScale (source.significand magnitude)
        (source.scale magnitude) ≤ source.scale magnitude := by
      unfold targetScale
      omega
    have hrange : source.scale magnitude +
        (Nat.log2 (source.significand magnitude) : Int) + 3 ≤
        target.minScale + target.fractionBits + (2 ^ target.exponentBits : Nat) := by
      rcases scale_lt_of_finite hfinite with hnormal | hsubnormal
      · omega
      · have htwo := source.two_le_two_pow_exponentBits
        obtain ⟨hsignificand, hleast⟩ := significand_subnormal hsubnormal
        have hlog : Nat.log2 (source.significand magnitude) < source.fractionBits := by
          rw [hsignificand]
          exact (Nat.log2_lt hzero).mpr hsubnormal
        rw [hleast]
        omega
    obtain ⟨shift, hbelow, hsignificand, hnewScale⟩ := round_exact hnonzero hfits hrange
    refine ⟨hbelow, ?_⟩
    change source.round (target.significand (target.round _ _))
      (target.scale (target.round _ _)) = magnitude
    rw [hsignificand, hnewScale, round_mul_two_pow, round_significand_scale source hfinite]

theorem signBit_pos (format : FloatFormat) : 0 < format.signBit :=
  Nat.pow_pos (by decide)

theorem infinity_lt_signBit (format : FloatFormat) : format.infinity < format.signBit := by
  rw [infinity, signBit, Nat.pow_add]
  exact Nat.mul_lt_mul_of_pos_right
    (Nat.sub_lt (Nat.pow_pos (by decide)) (by decide)) format.two_pow_fractionBits_pos

theorem round_le_infinity (format : FloatFormat) (significand : Nat) (exponent : Int) :
    format.round significand exponent ≤ format.infinity := by
  unfold round
  split
  · exact Nat.zero_le _
  · exact Nat.min_le_right _ _

/-- Sign and magnitude fields of a reassembled bit pattern. -/
theorem sign_magnitude (format : FloatFormat) (sign : Nat) {magnitude : Nat}
    (h : magnitude < format.signBit) :
    (sign * format.signBit + magnitude) / format.signBit = sign ∧
      format.magnitude (sign * format.signBit + magnitude) = magnitude := by
  constructor
  · rw [Nat.add_comm, Nat.add_mul_div_right _ _ format.signBit_pos, Nat.div_eq_of_lt h,
      Nat.zero_add]
  · rw [FloatFormat.magnitude, Nat.mul_add_mod_of_lt h]

theorem convert_of_isFinite (source target : FloatFormat) {bits : Nat}
    (h : source.isFinite bits) :
    source.convert target bits = bits / source.signBit * target.signBit +
      target.round (source.significand (source.magnitude bits))
        (source.scale (source.magnitude bits)) := by
  have hfinite : source.magnitude bits < source.infinity := by simpa [isFinite] using h
  rw [convert, if_neg (by omega), if_neg (by omega)]

theorem isFinite_convert {source target : FloatFormat} (h : Embeds source target)
    {bits : Nat} (hfinite : source.isFinite bits) :
    target.isFinite (source.convert target bits) := by
  have hmagnitude : source.magnitude bits < source.infinity := by
    simpa [isFinite] using hfinite
  have hbelow := (round_widen h hmagnitude).1
  rw [convert_of_isFinite source target hfinite, isFinite,
    (target.sign_magnitude _ (hbelow.trans target.infinity_lt_signBit)).2]
  exact decide_eq_true hbelow

theorem convert_convert {source target : FloatFormat} (h : Embeds source target)
    {bits : Nat} (hfinite : source.isFinite bits) :
    target.convert source (source.convert target bits) = bits := by
  have hmagnitude : source.magnitude bits < source.infinity := by
    simpa [isFinite] using hfinite
  obtain ⟨hbelow, hround⟩ := round_widen h hmagnitude
  obtain ⟨hsign, hfield⟩ := target.sign_magnitude (bits / source.signBit)
    (hbelow.trans target.infinity_lt_signBit)
  rw [convert_of_isFinite target source (isFinite_convert h hfinite),
    convert_of_isFinite source target hfinite, hsign, hfield, hround]
  exact Nat.div_add_mod' bits source.signBit

/-- The quiet NaN pattern has a sign bit's worth of room above it. -/
theorem quietNan_lt_signBit (format : FloatFormat)
    (hfraction : 0 < format.fractionBits) :
    format.infinity + 2 ^ (format.fractionBits - 1) < format.signBit := by
  have hhalf : 2 ^ (format.fractionBits - 1) < 2 ^ format.fractionBits :=
    Nat.pow_lt_pow_right (by decide) (by omega)
  have hexponent : 2 ^ format.exponentBits - 1 + 1 = 2 ^ format.exponentBits :=
    Nat.sub_add_cancel (Nat.pow_pos (by decide))
  calc
    format.infinity + 2 ^ (format.fractionBits - 1)
        < (2 ^ format.exponentBits - 1) * 2 ^ format.fractionBits +
          2 ^ format.fractionBits := Nat.add_lt_add_left hhalf _
    _ = format.signBit := by
      rw [← Nat.succ_mul, Nat.succ_eq_add_one, hexponent, signBit, Nat.pow_add]

theorem isFinite_of_isFinite_convert {source target : FloatFormat} {bits : Nat}
    (hfraction : 0 < target.fractionBits)
    (h : target.isFinite (source.convert target bits)) : source.isFinite bits := by
  by_contra hinfinite
  have hlarge : source.infinity ≤ source.magnitude bits := by
    simpa [isFinite] using hinfinite
  have hfinite : target.magnitude (source.convert target bits) < target.infinity := by
    simpa [isFinite] using h
  rcases hlarge.lt_or_eq with hnan | hequal
  · rw [convert, if_pos hnan,
      (target.sign_magnitude _ (target.quietNan_lt_signBit hfraction)).2] at hfinite
    exact Nat.not_lt.mpr (Nat.le_add_right _ _) hfinite
  · rw [convert, if_neg (by omega), if_pos hequal.symm,
      (target.sign_magnitude _ target.infinity_lt_signBit).2] at hfinite
    omega

theorem equal_self {format : FloatFormat} {bits : Nat} (h : format.isFinite bits) :
    format.equal bits bits := by
  have hfinite : format.magnitude bits < format.infinity := by simpa [isFinite] using h
  have hnan : ¬ format.infinity < format.magnitude bits := by omega
  simp [equal, isNan, hnan]

/-- A sign-preserving zero survives conversion, whatever the two formats. -/
theorem convert_of_magnitude_eq_zero (source target : FloatFormat) {bits : Nat}
    (h : source.magnitude bits = 0) :
    source.convert target bits = bits / source.signBit * target.signBit := by
  have hpositive : 0 < source.infinity :=
    Nat.mul_pos (Nat.sub_pos_of_lt (Nat.one_lt_two_pow source.exponentBits_pos.ne'))
      source.two_pow_fractionBits_pos
  have hfinite : source.isFinite bits := by simpa [isFinite, h] using hpositive
  have hsignificand : source.significand 0 = 0 := significand_eq_zero.mpr rfl
  rw [convert_of_isFinite source target hfinite, h, hsignificand]
  simp [round]

/-- A value that compares equal to its own narrowing and widening comes back bit
for bit, zeros included. -/
theorem convert_convert_of_equal {source target : FloatFormat} {bits : Nat}
    (h : source.equal (target.convert source (source.convert target bits)) bits) :
    target.convert source (source.convert target bits) = bits := by
  simp only [equal, Bool.and_eq_true, Bool.or_eq_true, beq_iff_eq] at h
  rcases h.2 with hbits | ⟨_, hzero⟩
  · exact hbits
  · have hsign := target.sign_magnitude (bits / source.signBit) target.signBit_pos
    rw [convert_of_magnitude_eq_zero source target hzero]
    rw [Nat.add_zero] at hsign
    rw [convert_of_magnitude_eq_zero target source hsign.2, hsign.1]
    have hdivision := Nat.div_add_mod' bits source.signBit
    rw [← magnitude, hzero, Nat.add_zero] at hdivision
    exact hdivision

theorem convert_lt (source target : FloatFormat) (hfraction : 0 < target.fractionBits)
    {bits : Nat} (h : bits < 2 * source.signBit) :
    source.convert target bits < 2 * target.signBit := by
  have hsign : bits / source.signBit ≤ 1 :=
    Nat.le_of_lt_succ ((Nat.div_lt_iff_lt_mul source.signBit_pos).mpr h)
  have hproduct : bits / source.signBit * target.signBit ≤ 1 * target.signBit :=
    Nat.mul_le_mul_right _ hsign
  have hinfinity := target.infinity_lt_signBit
  have hquiet := target.quietNan_lt_signBit hfraction
  have hround := target.round_le_infinity (source.significand (source.magnitude bits))
    (source.scale (source.magnitude bits))
  unfold convert
  dsimp only
  split_ifs <;> omega

end FloatFormat

end Mmltk.Foundation
