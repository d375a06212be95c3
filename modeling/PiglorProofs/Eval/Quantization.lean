/-
Quantization of probabilities (`plugins/eval`, `metric_profile/quantization.rs`). A bit pattern is read as
an IEEE-754 binary64 and its exact value is rounded to micro-units in integers.
-/
import PiglorProofs.Lib.HalfEven

namespace Piglor.Eval

open HalfEven

inductive MetricErrorV1 where
  | invalidProbability
deriving DecidableEq

/-- The bit pattern of binary64 `1.0`. -/
def one : BitVec 64 := 0x3ff0000000000000

def sign : BitVec 64 := 1 <<< 63

def fractionMask : BitVec 64 := 1 <<< 52 - 1

def maxShift : ℕ := 100

def microsPerUnit : ℕ := 1000000

/-- The rounding of `mantissa / 2 ^ shift` in micro-units; the product has fewer than 74 bits. -/
def roundShifted (mantissa shift : ℕ) : ℕ :=
  let shift := min shift maxShift
  let scaled := mantissa * microsPerUnit
  let quotient := scaled >>> shift
  let remainder := scaled &&& (1 <<< shift - 1)
  let half := 1 <<< (shift - 1)
  quotient + if half < remainder ∨ remainder = half ∧ quotient &&& 1 = 1 then 1 else 0

def quantizeProbability (bits : BitVec 64) : Except MetricErrorV1 ℕ :=
  let magnitude := bits &&& ~~~sign
  if magnitude = 0 then .ok 0
  else if bits &&& sign ≠ 0 ∨ one < magnitude then .error .invalidProbability
  else
    let exponent := (magnitude >>> 52).toNat
    let fraction := (magnitude &&& fractionMask).toNat
    let rounded :=
      if exponent = 0 then roundShifted fraction 1074 else roundShifted (fraction + 1 <<< 52) (1075 - exponent)
    .ok (if rounded < 2 ^ 32 then rounded else 2 ^ 32 - 1)

/-! ## What a bit pattern stands for -/

namespace Binary64

def exponent (bits : BitVec 64) : ℕ := bits.toNat / 2 ^ 52 % 2 ^ 11

def fraction (bits : BitVec 64) : ℕ := bits.toNat % 2 ^ 52

def mantissa (bits : BitVec 64) : ℕ := if exponent bits = 0 then fraction bits else 2 ^ 52 + fraction bits

def scale (bits : BitVec 64) : ℤ := if exponent bits = 0 then -1074 else exponent bits - 1075

/-- Neither an infinity nor a NaN. -/
def IsFinite (bits : BitVec 64) : Prop := exponent bits ≠ 2047

def value (bits : BitVec 64) : ℚ := (if bits.msb then -1 else 1) * (mantissa bits * 2 ^ scale bits)

end Binary64

open Binary64

/-! ## The bit operations -/

section

variable (bits : BitVec 64)

theorem magnitude_toNat : (bits &&& ~~~sign).toNat = bits.toNat % 2 ^ 63 := by
  rw [BitVec.toNat_and, show (~~~sign).toNat = 2 ^ 63 - 1 by decide, Nat.and_two_pow_sub_one_eq_mod]

theorem and_sign_ne_zero_iff : bits &&& sign ≠ 0 ↔ bits.msb = true := by
  have hsign : sign = BitVec.twoPow 64 63 := by decide
  rw [hsign, BitVec.and_twoPow, BitVec.msb_eq_getLsbD_last]
  cases bits.getLsbD 63 <;> decide

/-- The clamped shift rounds like the true one: past it every product is below one half. -/
theorem roundShifted_eq {mantissa shift : ℕ} (hmantissa : mantissa < 2 ^ 53) (hshift : 0 < shift) :
    roundShifted mantissa shift = divide (mantissa * microsPerUnit) (2 ^ shift) := by
  have hround : roundShifted mantissa shift = divide (mantissa * microsPerUnit) (2 ^ min shift maxShift) := by
    obtain ⟨half, hhalf⟩ : ∃ half, min shift maxShift = half + 1 := ⟨min shift maxShift - 1, by grind [maxShift]⟩
    simp only [roundShifted, divide, hhalf, Nat.one_shiftLeft, Nat.shiftRight_eq_div_pow,
      Nat.and_two_pow_sub_one_eq_mod, Nat.and_one_is_mod, Nat.add_sub_cancel]
    refine congrArg _ (if_congr ?_ rfl rfl)
    omega
  rw [hround]
  rcases Nat.le_total shift maxShift with hle | hge
  · rw [Nat.min_eq_left hle]
  · have hpow : 2 ^ maxShift ≤ 2 ^ shift := Nat.pow_le_pow_right (by decide) hge
    have hsmall : 2 * (mantissa * microsPerUnit) < 2 ^ maxShift := by
      simp only [microsPerUnit, maxShift]
      omega
    rw [Nat.min_eq_right hge, divide_eq_zero hsmall, divide_eq_zero (hsmall.trans_le hpow)]

/-! ## Values -/

theorem fraction_lt : fraction bits < 2 ^ 52 := Nat.mod_lt _ (by decide)

theorem fields : bits.toNat % 2 ^ 63 = exponent bits * 2 ^ 52 + fraction bits := by
  unfold exponent fraction
  omega

theorem mantissa_lt : mantissa bits < 2 ^ 53 := by
  have hfraction := fraction_lt bits
  unfold mantissa
  split <;> omega

end

/-- The right shift of the mantissa, for exponents up to that of one. -/
def shift (bits : BitVec 64) : ℕ := if exponent bits = 0 then 1074 else 1075 - exponent bits

variable {bits : BitVec 64}

theorem abs_value_of_exponent_le (h : exponent bits ≤ 1023) :
    mantissa bits * (2 : ℚ) ^ scale bits = mantissa bits / 2 ^ shift bits := by
  have hscale : scale bits = -(shift bits : ℤ) := by
    unfold scale shift
    split <;> omega
  rw [hscale, zpow_neg, zpow_natCast, div_eq_mul_inv]

/-- A mantissa at most one unit is a pattern at most that of one. -/
theorem mantissa_le_iff (h : exponent bits ≤ 1023) :
    mantissa bits ≤ 2 ^ shift bits ↔ bits.toNat % 2 ^ 63 ≤ one.toNat := by
  have hone : one.toNat = 1023 * 2 ^ 52 := by decide
  have hfraction := fraction_lt bits
  rw [fields, hone]
  rcases h.lt_or_eq with hlt | heq
  · have hshift : 53 ≤ shift bits := by
      unfold shift
      split <;> omega
    have hpow : 2 ^ 53 ≤ 2 ^ shift bits := Nat.pow_le_pow_right (by decide) hshift
    have hmantissa := mantissa_lt bits
    constructor <;> intro <;> omega
  · simp only [mantissa, shift, heq]
    norm_num

theorem abs_value_le_one_iff (bits : BitVec 64) :
    mantissa bits * (2 : ℚ) ^ scale bits ≤ 1 ↔ bits.toNat % 2 ^ 63 ≤ one.toNat := by
  rcases Nat.lt_or_ge 1023 (exponent bits) with hlarge | hsmall
  · have hone : one.toNat = 1023 * 2 ^ 52 := by decide
    have hmantissa : (2 : ℚ) ^ 52 ≤ mantissa bits := by
      rw [mantissa, if_neg (by omega)]
      push_cast
      linarith [(fraction bits).cast_nonneg (α := ℚ)]
    have hscale : (2 : ℚ) ^ (-51 : ℤ) ≤ 2 ^ scale bits := by
      refine zpow_le_zpow_right₀ (by norm_num) ?_
      rw [scale, if_neg (by omega)]
      omega
    have hvalue : (2 : ℚ) ^ 52 * 2 ^ (-51 : ℤ) ≤ mantissa bits * 2 ^ scale bits := by gcongr
    rw [fields, hone]
    norm_num at hvalue
    constructor
    · intro hle
      linarith
    · omega
  · rw [abs_value_of_exponent_le hsmall, div_le_one (by positivity), ← mantissa_le_iff hsmall]
    exact_mod_cast Iff.rfl

theorem mantissa_eq_zero_iff (bits : BitVec 64) : mantissa bits = 0 ↔ bits.toNat % 2 ^ 63 = 0 := by
  rw [fields, mantissa]
  split <;> omega

/-- A finite pattern whose value is from 0 to 1. -/
def Probability (bits : BitVec 64) : Prop := IsFinite bits ∧ 0 ≤ value bits ∧ value bits ≤ 1

theorem probability_iff (bits : BitVec 64) :
    Probability bits ↔ bits.toNat % 2 ^ 63 ≤ one.toNat ∧ (bits.toNat % 2 ^ 63 = 0 ∨ bits.msb = false) := by
  have hone : one.toNat = 1023 * 2 ^ 52 := by decide
  have hfields := fields bits
  have hfinite : bits.toNat % 2 ^ 63 ≤ one.toNat → IsFinite bits := by
    intro hle
    unfold IsFinite
    omega
  have hpos : (0 : ℚ) < 2 ^ scale bits := zpow_pos (by norm_num) _
  have habs : 0 ≤ mantissa bits * (2 : ℚ) ^ scale bits := by positivity
  unfold Probability value
  rw [← mantissa_eq_zero_iff]
  cases bits.msb
  · simp only [Bool.false_eq_true, if_false, one_mul, abs_value_le_one_iff, or_true, and_true]
    exact ⟨fun h => h.2.2, fun h => ⟨hfinite h, habs, h⟩⟩
  · have hzero : 0 ≤ -1 * (mantissa bits * (2 : ℚ) ^ scale bits) ↔ mantissa bits = 0 := by
      rw [neg_one_mul, Left.nonneg_neg_iff, habs.ge_iff_eq, eq_comm, mul_eq_zero_iff_right hpos.ne', Nat.cast_eq_zero]
    simp only [if_true, Bool.true_eq_false, or_false, hzero]
    constructor
    · rintro ⟨-, hmantissa, -⟩
      have hmagnitude := (mantissa_eq_zero_iff bits).mp hmantissa
      exact ⟨by omega, hmantissa⟩
    · rintro ⟨hle, hmantissa⟩
      exact ⟨hfinite hle, hmantissa, by linarith⟩

section

variable (h : Probability bits)

include h

theorem Probability.exponent_le : exponent bits ≤ 1023 := by
  have hone : one.toNat = 1023 * 2 ^ 52 := by decide
  have hle := ((probability_iff bits).mp h).1
  rw [fields, hone] at hle
  omega

theorem Probability.value_eq : value bits = mantissa bits / 2 ^ shift bits := by
  rw [← abs_value_of_exponent_le h.exponent_le, value]
  rcases ((probability_iff bits).mp h).2 with hzero | hmsb
  · rw [(mantissa_eq_zero_iff bits).mpr hzero, Nat.cast_zero, zero_mul, mul_zero]
  · rw [hmsb, if_neg (by decide), one_mul]

/-- The nearest micro-unit count of a probability. -/
def micros (bits : BitVec 64) : ℕ := divide (mantissa bits * microsPerUnit) (2 ^ shift bits)

theorem Probability.nearest_micros : Nearest (1000000 * value bits) (micros bits) := by
  have hnearest := nearest_divide (mantissa bits * microsPerUnit) (Nat.two_pow_pos (shift bits))
  have hvalue : ((mantissa bits * microsPerUnit : ℕ) : ℚ) / (2 ^ shift bits : ℕ) = 1000000 * value bits := by
    rw [h.value_eq, microsPerUnit]
    push_cast
    ring
  rwa [hvalue] at hnearest

theorem Probability.micros_le : micros bits ≤ 1000000 := by
  have hle : 1000000 * value bits ≤ ((1000000 : ℤ) : ℚ) := by
    push_cast
    linarith [h.2.2]
  exact_mod_cast h.nearest_micros.mono (nearest_intCast 1000000) hle

end

/-! ## The function -/

section

variable (bits : BitVec 64)

theorem magnitude_eq_zero_iff : bits &&& ~~~sign = 0 ↔ bits.toNat % 2 ^ 63 = 0 := by
  rw [← magnitude_toNat, ← BitVec.toNat_inj]
  rfl

theorem one_lt_magnitude_iff : one < bits &&& ~~~sign ↔ one.toNat < bits.toNat % 2 ^ 63 := by
  rw [BitVec.lt_def, magnitude_toNat]

theorem exponent_eq : ((bits &&& ~~~sign) >>> 52).toNat = exponent bits := by
  rw [BitVec.toNat_ushiftRight, Nat.shiftRight_eq_div_pow, magnitude_toNat, exponent]
  omega

theorem fraction_eq : (bits &&& ~~~sign &&& fractionMask).toNat = fraction bits := by
  rw [BitVec.toNat_and, show fractionMask.toNat = 2 ^ 52 - 1 by decide, Nat.and_two_pow_sub_one_eq_mod, magnitude_toNat,
    fraction]
  omega

end

theorem rounded_eq (h : exponent bits ≤ 1023) : (if exponent bits = 0 then roundShifted (fraction bits) 1074
      else roundShifted (fraction bits + 1 <<< 52) (1075 - exponent bits)) = micros bits := by
  have hmantissa := mantissa_lt bits
  unfold micros
  unfold mantissa at hmantissa ⊢
  unfold shift
  split
  case isTrue hzero =>
    rw [if_pos hzero] at hmantissa
    rw [roundShifted_eq hmantissa (by decide)]
  case isFalse hnormal =>
    rw [if_neg hnormal] at hmantissa
    rw [Nat.one_shiftLeft, Nat.add_comm, roundShifted_eq hmantissa (by omega)]

theorem quantizeProbability_of_probability (h : Probability bits) : quantizeProbability bits = .ok (micros bits) := by
  obtain ⟨hle, hsign⟩ := (probability_iff bits).mp h
  simp only [quantizeProbability, magnitude_eq_zero_iff, and_sign_ne_zero_iff, one_lt_magnitude_iff, exponent_eq,
    fraction_eq, rounded_eq h.exponent_le]
  have hmicros := h.micros_le
  split
  case isTrue hzero =>
    have hmantissa := (mantissa_eq_zero_iff bits).mpr hzero
    rw [micros, hmantissa, Nat.zero_mul, divide_eq_zero (Nat.two_pow_pos _)]
  case isFalse hzero =>
    rw [if_neg (by simp_all), if_pos (by omega)]

theorem quantizeProbability_of_not_probability (h : ¬ Probability bits) :
    quantizeProbability bits = .error .invalidProbability := by
  rw [probability_iff, not_and_or, not_or] at h
  simp only [quantizeProbability, magnitude_eq_zero_iff, and_sign_ne_zero_iff, one_lt_magnitude_iff]
  rw [if_neg (by grind), if_pos (by grind)]

/-- The quantization is exact: it succeeds on the probabilities, with the nearest count, in order. -/
theorem quantizeProbability_exact :
    (∀ bits, (∃ q, quantizeProbability bits = .ok q) ↔ IsFinite bits ∧ 0 ≤ value bits ∧ value bits ≤ 1) ∧
      (∀ bits q, quantizeProbability bits = .ok q → Nearest (1000000 * value bits) q ∧ q ≤ 1000000) ∧
      ∀ v w p q, quantizeProbability v = .ok p → quantizeProbability w = .ok q → value v ≤ value w → p ≤ q := by
  have hok : ∀ bits q, quantizeProbability bits = .ok q → Probability bits ∧ q = micros bits := by
    intro bits q hq
    by_cases h : Probability bits
    · rw [quantizeProbability_of_probability h] at hq
      exact ⟨h, (Except.ok.inj hq).symm⟩
    · rw [quantizeProbability_of_not_probability h] at hq
      cases hq
  refine ⟨fun bits => ⟨?_, fun h => ⟨_, quantizeProbability_of_probability h⟩⟩, ?_, ?_⟩
  · rintro ⟨q, hq⟩
    exact (hok bits q hq).1
  · intro bits q hq
    obtain ⟨h, rfl⟩ := hok bits q hq
    exact ⟨h.nearest_micros, h.micros_le⟩
  · intro v w p q hp hq hle
    obtain ⟨hv, rfl⟩ := hok v p hp
    obtain ⟨hw, rfl⟩ := hok w q hq
    exact_mod_cast hv.nearest_micros.mono hw.nearest_micros (by linarith)

end Piglor.Eval
