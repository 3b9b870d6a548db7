import Fluxion.Proofs.Decimal.Binary64

/-!
# A binary64 number divided by one

Division makes the significand of the dividend longer before it divides, so that the quotient has
all the digits that a number can have, and rounds the quotient to these.  Dividing by one appends
zeros and nothing else.  Rounding drops them again (`roundWithAccuracy_zeros`), because a number
that is unpacked has the significand and the exponent that rounding aims at (`IsRounded`).  So the
quotient is the dividend, bit by bit, be it a number or not (`div_one`).
-/

set_option autoImplicit false

namespace Fluxion.Decimal

open Float.Model (Format UnpackedFloat totalExponent)
open Float.Model.UnpackedFloat

/-- A significand and an exponent that rounding leaves as they are: there are 53 digits at most, and
only numbers of the least exponent have fewer. -/
structure IsRounded (m : ℕ) (e : ℤ) : Prop where
  pos : 0 < m
  lt : m < 2 ^ 53
  least_le : -1074 ≤ e
  full : 2 ^ 52 ≤ m ∨ e = -1074

/-- A result of binary length `t` is rounded to 53 bits, but never below the unit of the subnormal
numbers. -/
theorem targetExponent_eq (t : ℤ) : Format.binary64.targetExponent t = max (t - 53) (-1074) := by
  rw [Format.targetExponent, mantissaBits_eq]
  rfl

/-- A rounded significand fits into 53 bits. -/
theorem IsRounded.log2_le {m : ℕ} {e : ℤ} (h : IsRounded m e) : m.log2 ≤ 52 :=
  Nat.le_of_lt_succ ((Nat.log2_lt h.pos.ne').mpr h.lt)

/-- Rounding a rounded significand again would drop nothing. -/
theorem IsRounded.targetExponent {m : ℕ} {e : ℤ} (h : IsRounded m e) :
    Format.binary64.targetExponent (totalExponent m e) = e := by
  have hle := h.log2_le
  have hleast := h.least_le
  rw [targetExponent_eq, totalExponent]
  obtain hfull | hleast := h.full
  · have hlog : 52 ≤ m.log2 := (Nat.le_log2 h.pos.ne').mpr hfull
    omega
  · omega

/-- The significand that a pattern stands for is rounded. -/
theorem isRounded_pattern {pattern : ℕ} (hpos : 0 < pattern) :
    IsRounded (patternSignificand pattern) (patternPlaces pattern - subnormalPlaces : ℤ) := by
  have hsubnormal : (subnormalPlaces : ℤ) = 1074 := rfl
  have hcases := patternSignificand_cases pattern
  constructor <;> omega

/-- Shifting a positive number to the left lengthens it by the shift. -/
theorem log2_mul_two_pow {m : ℕ} (h : m ≠ 0) (k : ℕ) : (m * 2 ^ k).log2 = m.log2 + k := by
  induction k with
  | zero => simp
  | succ k ih =>
    have hne : m * 2 ^ k ≠ 0 := Nat.mul_ne_zero h (Nat.two_pow_pos k).ne'
    have hmore : m * 2 ^ (k + 1) = 2 * (m * 2 ^ k) := by ring
    rw [hmore, Nat.log2_two_mul hne, ih, Nat.add_assoc]

/-- Dropping places that hold only zeros loses nothing. -/
theorem shiftRight_zeros (m k : ℕ) :
    (ExtendedMantissa.mk (m * 2 ^ k) false false) >>> k = ⟨m, false, false⟩ := by
  induction k generalizing m with
  | zero => simp [HShiftRight.hShiftRight, Nat.repeat]
  | succ k ih =>
    have hmore : m * 2 ^ (k + 1) = m * 2 * 2 ^ k := by ring
    show ((ExtendedMantissa.mk (m * 2 ^ (k + 1)) false false) >>> k).shiftRightOne = _
    rw [hmore, ih]
    simp [ExtendedMantissa.shiftRightOne]

/-- Zeros behind a significand do not change where rounding aims, and are dropped. -/
theorem shiftToTargetExponent_zeros {m : ℕ} {e : ℤ} (h : IsRounded m e) (k : ℕ) :
    shiftToTargetExponent .binary64 (m * 2 ^ k) (e - k) .exact = (⟨m, false, false⟩, e) := by
  have htotal : totalExponent (m * 2 ^ k) (e - k) = totalExponent m e := by
    rw [totalExponent, totalExponent, log2_mul_two_pow h.pos.ne']
    push_cast
    ring
  have hshift : (e - (e - k)).toNat = k := by omega
  rw [shiftToTargetExponent, htotal, h.targetExponent, shiftToExponent, hshift,
    ExtendedMantissa.ofMantissaAndAccuracy, shiftRight_zeros]
  simp

/-- A rounded significand with zeros appended is rounded to itself. -/
theorem roundWithAccuracy_zeros {m : ℕ} {e : ℤ} (h : IsRounded m e) (s : Sign) (k : ℕ) :
    roundWithAccuracy .binary64 s (m * 2 ^ k) (e - k) .exact = .finite s m e h.pos := by
  have hagain := shiftToTargetExponent_zeros h 0
  rw [pow_zero, mul_one, Nat.cast_zero, sub_zero] at hagain
  rw [roundWithAccuracy, shiftToTargetExponent_zeros h]
  dsimp only
  rw [ExtendedMantissa.roundedMantissa, ExtendedMantissa.accuracy, Accuracy.roundToNearestEven,
    hagain, dif_neg h.pos.ne']

/-- One is unpacked into the hidden bit alone. -/
theorem toModel_unpack_one :
    ((1 : ℕ) : Float).toModel.unpack = .finite .positive (2 ^ 52) (-52) (by decide) := by
  have hsign : isNegative ((1 : ℕ) : Float) = false := by decide +kernel
  have hpattern : magnitudePattern ((1 : ℕ) : Float) = 1023 * 2 ^ 52 := by decide +kernel
  rw [toModel_unpack, hsign, hpattern]
  rfl

/-- The quotient has zeros behind the significand of the dividend, and no remainder. -/
theorem divCore_one {m : ℕ} {e : ℤ} (h : IsRounded m e) :
    ∃ k : ℕ, divCore .binary64 m e (2 ^ 52) (-52) = (m * 2 ^ k, e - k, .exact) := by
  have hlog := h.log2_le
  have hleast := h.least_le
  have hone : totalExponent (2 ^ 52) (-52) = 1 := by
    rw [totalExponent, Nat.log2_two_pow]
    rfl
  obtain ⟨k, hk⟩ : ∃ k : ℕ, max (totalExponent m e - 1 - 53) (-1074) = e - k := by
    rw [totalExponent]
    exact ⟨(e - max (m.log2 + 1 + e - 1 - 53) (-1074)).toNat, by omega⟩
  have hmin : min (e - -52) (e - k) = e - k := by omega
  have hshift : (e - -52 - (e - k)).toNat = k + 52 := by omega
  have hlonger : m <<< (k + 52) = m * 2 ^ k * 2 ^ 52 := by
    rw [Nat.shiftLeft_eq, pow_add, mul_assoc]
  refine ⟨k, ?_⟩
  rw [divCore, hone, targetExponent_eq, hk, hmin, hshift, hlonger, Nat.mul_div_cancel _ (by decide),
    Nat.mul_mod_left]
  rfl

/-- Dividing by one gives back every unpacked number. -/
theorem div_unpacked_one (s : Sign) (pattern : ℕ) :
    UnpackedFloat.div .binary64 (unpacked s pattern)
        (.finite .positive (2 ^ 52) (-52) (by decide)) =
      unpacked s pattern := by
  have hsign : s / .positive = s := by cases s <;> rfl
  unfold unpacked
  split_ifs with hnan hinfinite hpos
  · rfl
  · rw [UnpackedFloat.div, hsign]
  · obtain ⟨k, hk⟩ := divCore_one (isRounded_pattern hpos)
    rw [UnpackedFloat.div, hk, hsign]
    exact roundWithAccuracy_zeros (isRounded_pattern hpos) s k
  · rw [UnpackedFloat.div, hsign]

/-- A number divided by one is the number. -/
theorem div_one (x : Float) : x / ((1 : ℕ) : Float) = x := by
  have hunpack : UnpackedFloat.div .binary64 x.toModel.unpack ((1 : ℕ) : Float).toModel.unpack =
      x.toModel.unpack := by
    rw [toModel_unpack_one, toModel_unpack, div_unpacked_one]
  show Float.ofModel (.pack (UnpackedFloat.div .binary64 _ _)) = x
  rw [hunpack]
  exact Float.ofBits_toBits x

end Fluxion.Decimal
