import Fluxion.Decimal
import Fluxion.Scalar
import Mathlib

/-!
# Binary64 numbers by their patterns

A binary64 number that is not the undefined one is a sign and a pattern up to that of infinity.
The facts of this module say what the operations on `Float` that the reader and the printer use
do to these two: a number is unpacked to its significand and its dropped places
(`toModel_unpack`), it is determined by its sign and its pattern (`eq_of_pattern`), reading a
pattern gives a number with this pattern (`pattern_ofPattern`), a change of sign touches nothing
but the sign (`pattern_neg`), and the tests for finiteness, for zero and for a negative number
are tests on the pattern.

All of it goes through the logical model of `Float`, in which every operation unpacks the bits,
works on the unpacked number and packs the result.
-/

set_option autoImplicit false

namespace Fluxion.Decimal

open Float.Model (Format UnpackedFloat)
open Float.Model.UnpackedFloat

/-- The sign of a number, given whether it is negative. -/
def signOf (negative : Bool) : Sign := if negative then .negative else .positive

/-- The part of the bits that a sign contributes. -/
def signBit (negative : Bool) : Nat := if negative then 2 ^ 63 else 0

/-- The bits of a number: its sign above the pattern of its magnitude. -/
def bitsOf (negative : Bool) (pattern : Nat) : Nat := signBit negative + pattern

/-- The exponent field of the infinities is full, and nothing stands behind it. -/
theorem infinityPattern_eq : infinityPattern = 2047 * 2 ^ 52 := rfl

/-- The places that a pattern drops are read off its exponent field; the subnormal numbers share the
field of the smallest normal ones. -/
theorem patternPlaces_eq (pattern : Nat) : patternPlaces pattern = pattern / 2 ^ 52 - 1 := rfl

/-- The significand of a pattern is what its dropped places leave, the hidden bit included. -/
theorem patternSignificand_eq (pattern : Nat) :
    patternSignificand pattern = pattern - patternPlaces pattern * 2 ^ 52 := rfl

/-- Below `2 ^ 52` the significand is the pattern itself, and above it has 53 binary digits. -/
theorem patternSignificand_cases (pattern : Nat) :
    (pattern < 2 ^ 52 ∧ patternPlaces pattern = 0 ∧ patternSignificand pattern = pattern) ∨
      (2 ^ 52 ≤ pattern ∧ patternPlaces pattern + 1 = pattern / 2 ^ 52 ∧
        patternSignificand pattern = 2 ^ 52 + pattern % 2 ^ 52) := by
  rw [patternSignificand_eq, patternPlaces_eq]
  omega

/-- Only the pattern of zero has the significand zero. -/
theorem patternSignificand_pos {pattern : Nat} (h : 0 < pattern) :
    0 < patternSignificand pattern := by
  obtain ⟨-, -, hs⟩ | ⟨-, -, hs⟩ := patternSignificand_cases pattern <;> omega

/-- The number with a sign and a pattern, unpacked. -/
def unpacked (s : Sign) (pattern : Nat) : UnpackedFloat :=
  if infinityPattern < pattern then .notANumber
  else if pattern = infinityPattern then .infinity s
  else if h : 0 < pattern then
    .finite s (patternSignificand pattern) (patternPlaces pattern - subnormalPlaces : Int)
      (patternSignificand_pos h)
  else .zero s

/-! ## The fields of the bits -/

/-- The exponent field of binary64 is biased by 1023. -/
theorem exponentBias_eq : (Format.binary64.exponentBias : Int) = 1023 := by decide

/-- A pattern of binary64 stores 52 bits of its significand. -/
theorem storedBits_eq : (Format.binary64.mantissaBitsWithoutImplicit : Int) = 52 := by decide

/-- A significand of binary64 has 53 bits, the hidden one included. -/
theorem mantissaBits_eq : Format.binary64.mantissaBits = 53 := by decide

/-- A pattern packed from its parts is their concatenation: sign, exponent field, stored
significand. -/
theorem toNat_packComponents (negative : Bool) (e : BitVec 11) (m : BitVec 52) :
    (packComponents Format.binary64 (signOf negative) e m).toNat =
      bitsOf negative (e.toNat * 2 ^ 52 + m.toNat) := by
  unfold packComponents
  have he := e.isLt
  have hm := m.isLt
  rw [BitVec.toNat_append, BitVec.toNat_append, ← Nat.shiftLeft_add_eq_or_of_lt hm,
    ← Nat.shiftLeft_add_eq_or_of_lt he]
  cases negative with
  | false => simp [bitsOf, signBit, signOf, Sign.toBitVec, Nat.shiftLeft_eq]
  | true =>
    simp [bitsOf, signBit, signOf, Sign.toBitVec, Nat.shiftLeft_eq]
    omega

/-- The stored significand is the low 52 bits of a pattern. -/
theorem toNat_unpackMantissa (b : BitVec Format.binary64.numBits) :
    (unpackMantissa b).toNat = b.toNat % 2 ^ 52 := by
  unfold unpackMantissa
  simp [BitVec.extractLsb]

/-- The exponent field is the eleven bits above the stored significand. -/
theorem toNat_unpackExponent (b : BitVec Format.binary64.numBits) :
    (unpackExponent b).toNat = b.toNat / 2 ^ 52 % 2 ^ 11 := by
  unfold unpackExponent
  simp [BitVec.extractLsb, Nat.shiftRight_eq_div_pow]

/-- The sign is the highest bit of a pattern. -/
theorem toNat_unpackSign (b : BitVec Format.binary64.numBits) :
    (unpackSign b).toNat = b.toNat / 2 ^ 63 := by
  unfold unpackSign
  have hb : b.toNat < 2 ^ 64 := b.isLt
  simp [BitVec.extractLsb, Nat.shiftRight_eq_div_pow]
  omega

/-- A pattern is that of a negative number if its highest bit is set. -/
theorem ofBitVec_unpackSign (b : BitVec Format.binary64.numBits) :
    Sign.ofBitVec (unpackSign b) = signOf (decide (2 ^ 63 ≤ b.toNat)) := by
  have hs := toNat_unpackSign b
  have hb : b.toNat < 2 ^ 64 := b.isLt
  unfold Sign.ofBitVec signOf
  by_cases h : 2 ^ 63 ≤ b.toNat
  · have hne : unpackSign b ≠ 0#1 := by
      intro h0
      rw [h0] at hs
      simp at hs
      omega
    rw [if_neg hne, if_pos (by simpa using h)]
  · have heq : unpackSign b = 0#1 := by
      refine BitVec.eq_of_toNat_eq ?_
      rw [hs]
      simp
      omega
    rw [if_pos heq, if_neg (by simpa using h)]

/-! ## Unpacking and packing -/

/-- What is unpacked from the bits depends on the sign and the pattern, in this way. -/
theorem unpack_eq (b : BitVec Format.binary64.numBits) :
    UnpackedFloat.unpack Format.binary64 b =
      unpacked (signOf (decide (2 ^ 63 ≤ b.toNat))) (b.toNat % 2 ^ 63) := by
  have hb : b.toNat < 2 ^ 64 := b.isLt
  have hm := toNat_unpackMantissa b
  have he := toNat_unpackExponent b
  have hcases := patternSignificand_cases (b.toNat % 2 ^ 63)
  have hinfinite : unpackExponent b = -1#11 ↔ (unpackExponent b).toNat = 2047 :=
    BitVec.toNat_inj.symm
  have hleast : unpackExponent b = 0#11 ↔ (unpackExponent b).toNat = 0 := BitVec.toNat_inj.symm
  have hempty : unpackMantissa b = 0#52 ↔ (unpackMantissa b).toNat = 0 := BitVec.toNat_inj.symm
  unfold UnpackedFloat.unpack unpacked
  rw [infinityPattern_eq, ← ofBitVec_unpackSign]
  dsimp only
  by_cases hexp : unpackExponent b = -1#11
  -- the greatest exponent is that of infinity and of what is no number
  · rw [if_pos hexp]
    have h2047 := hinfinite.mp hexp
    by_cases hmant : unpackMantissa b = 0#52
    · have hzero := hempty.mp hmant
      rw [if_pos hmant, if_neg (by omega), if_pos (by omega)]
    · have hpos := mt hempty.mpr hmant
      rw [if_neg hmant, if_pos (by omega)]
  · rw [if_neg hexp]
    have h2047 := mt hinfinite.mpr hexp
    have hbelow : b.toNat % 2 ^ 63 < 2047 * 2 ^ 52 := by omega
    rw [if_neg (Nat.lt_asymm hbelow), if_neg (Nat.ne_of_lt hbelow)]
    by_cases hexp0 : unpackExponent b = 0#11
    -- with the least exponent the leading digit is not implied
    · rw [if_pos hexp0]
      have h0 := hleast.mp hexp0
      by_cases hmant : unpackMantissa b = 0#52
      · have hzero := hempty.mp hmant
        rw [dif_pos hmant, dif_neg (by omega)]
      · have hpos := mt hempty.mpr hmant
        rw [dif_neg hmant, dif_pos (by omega)]
        congr 1
        · omega
        · rw [h0, exponentBias_eq, storedBits_eq]
          simp only [subnormalPlaces]
          omega
    · rw [if_neg hexp0]
      have h0 := mt hleast.mpr hexp0
      have hm52 := (unpackMantissa b).isLt
      have hmant : (1#1 ++ unpackMantissa b).toNat = 2 ^ 52 + (unpackMantissa b).toNat := by
        rw [BitVec.toNat_append, ← Nat.shiftLeft_add_eq_or_of_lt hm52]
        simp [Nat.shiftLeft_eq]
      rw [dif_pos (by omega)]
      congr 1
      · omega
      · rw [exponentBias_eq, storedBits_eq]
        simp only [subnormalPlaces]
        omega

/-- Packing gives the sign and the pattern back. -/
theorem toNat_pack_unpacked (negative : Bool) {pattern : Nat} (h : pattern ≤ infinityPattern) :
    (UnpackedFloat.pack Format.binary64 (unpacked (signOf negative) pattern)).toNat =
      bitsOf negative pattern := by
  rw [infinityPattern_eq] at h
  unfold unpacked
  rw [infinityPattern_eq, if_neg (by omega)]
  by_cases hinf : pattern = 2047 * 2 ^ 52
  · rw [if_pos hinf, UnpackedFloat.pack, packedInfinity, toNat_packComponents, hinf]
    rfl
  rw [if_neg hinf]
  by_cases hpos : 0 < pattern
  · rw [dif_pos hpos]
    simp only [UnpackedFloat.pack, mantissaBits_eq]
    have hcases := patternSignificand_cases pattern
    have hbiased : ((patternPlaces pattern - subnormalPlaces : Int) +
        (Format.binary64.exponentBias : Int) +
        (Format.binary64.mantissaBitsWithoutImplicit : Int)).toNat = patternPlaces pattern + 1 := by
      rw [exponentBias_eq, storedBits_eq]
      simp only [subnormalPlaces]
      omega
    rw [hbiased, if_neg (by simp; omega)]
    -- the packing tells the two cases apart by the length of the significand
    obtain ⟨hlt, hplaces, hsig⟩ | ⟨hle, hplaces, hsig⟩ := hcases
    · have hlog : pattern.log2 < 52 := (Nat.log2_lt (by omega)).mpr hlt
      rw [hsig, if_neg (by omega), toNat_packComponents]
      congr 1
      simp
      omega
    · have hlog : (patternSignificand pattern).log2 = 52 :=
        (Nat.log2_eq_iff (by omega)).mpr ⟨by omega, by omega⟩
      rw [hlog, if_pos rfl, toNat_packComponents]
      congr 1
      simp
      omega
  · have hzero : pattern = 0 := by omega
    rw [dif_neg hpos, hzero]
    exact toNat_packComponents negative 0#11 0#52

/-- Changing the sign of an unpacked number changes nothing else. -/
theorem neg_unpacked (negative : Bool) (pattern : Nat) :
    (unpacked (signOf negative) pattern).neg = unpacked (signOf !negative) pattern := by
  have hsign : -signOf negative = signOf !negative := by cases negative <;> rfl
  unfold unpacked
  rw [← hsign]
  split
  · rfl
  · split
    · rfl
    · split <;> rfl

/-- The patterns below that of infinity are those of the finite numbers. -/
theorem isFinite_unpacked (s : Sign) (pattern : Nat) :
    (unpacked s pattern).isFinite = decide (pattern < infinityPattern) := by
  unfold unpacked
  by_cases hnan : infinityPattern < pattern
  · rw [if_pos hnan]
    simp [UnpackedFloat.isFinite]
    omega
  rw [if_neg hnan]
  by_cases hinf : pattern = infinityPattern
  · rw [if_pos hinf]
    simp [UnpackedFloat.isFinite, hinf]
  rw [if_neg hinf]
  have hlt : pattern < infinityPattern := by omega
  split <;> simp [UnpackedFloat.isFinite, hlt]

/-- The patterns above that of infinity are those that stand for no number. -/
theorem isNaN_unpacked (s : Sign) (pattern : Nat) :
    (unpacked s pattern).isNaN = decide (infinityPattern < pattern) := by
  unfold unpacked
  by_cases hnan : infinityPattern < pattern
  · rw [if_pos hnan]
    simp [UnpackedFloat.isNaN, hnan]
  rw [if_neg hnan]
  split
  · simp [UnpackedFloat.isNaN, hnan]
  · split <;> simp [UnpackedFloat.isNaN, hnan]

/-- A number compared with zero: only its sign counts, unless it is zero. -/
theorem compare_unpacked_zero (negative : Bool) {pattern : Nat} (h : pattern ≤ infinityPattern) :
    (unpacked (signOf negative) pattern).compare (unpacked .positive 0) =
      some (if pattern = 0 then .eq else if negative then .lt else .gt) := by
  have hzero : unpacked .positive 0 = .zero .positive := by
    unfold unpacked
    rw [if_neg (by decide), if_neg (by decide), dif_neg (by decide)]
  rw [hzero]
  unfold unpacked
  rw [if_neg (Nat.not_lt.mpr h)]
  by_cases hinf : pattern = infinityPattern
  · rw [if_pos hinf, hinf]
    cases negative <;> rfl
  rw [if_neg hinf]
  by_cases hpos : 0 < pattern
  · rw [dif_pos hpos, if_neg (by omega)]
    cases negative <;> rfl
  · rw [dif_neg hpos, if_pos (by omega)]
    cases negative <;> rfl

/-! ## Numbers -/

/-- The bits of a number are its sign above the pattern of its magnitude. -/
theorem toNat_toBits (x : Float) :
    x.toBits.toNat = bitsOf (isNegative x) (magnitudePattern x) := by
  have hx : x.toBits.toNat < 2 ^ 64 := x.toBits.toBitVec.isLt
  have hpow : Nat.pow 2 63 = 2 ^ 63 := rfl
  unfold bitsOf signBit isNegative magnitudePattern
  rw [hpow]
  by_cases h : 2 ^ 63 ≤ x.toBits.toNat
  · rw [if_pos (by simpa using h)]
    omega
  · rw [if_neg (by simpa using h)]
    omega

/-- A number is its sign and its pattern. -/
theorem eq_of_pattern {x y : Float} (hs : isNegative x = isNegative y)
    (hp : magnitudePattern x = magnitudePattern y) : x = y := by
  have hbits : x.toBits = y.toBits := by
    refine UInt64.toNat_inj.mp ?_
    rw [toNat_toBits, toNat_toBits, hs, hp]
  obtain ⟨bits, hx⟩ := x
  obtain ⟨bits', hy⟩ := y
  obtain rfl : bits = bits' := hbits
  rfl

/-- A number is unpacked into its sign and the number of its magnitude pattern. -/
theorem toModel_unpack (x : Float) :
    x.toModel.unpack = unpacked (signOf (isNegative x)) (magnitudePattern x) :=
  unpack_eq x.toBits.toBitVec

/-- Packing an unpacked number gives back its sign and its pattern. -/
theorem pattern_of_pack {x : Float} {negative : Bool} {pattern : Nat}
    (hp : pattern ≤ infinityPattern)
    (hx : x = .ofModel (.pack (unpacked (signOf negative) pattern))) :
    isNegative x = negative ∧ magnitudePattern x = pattern := by
  have hbits : x.toBits.toNat = bitsOf negative pattern := by
    rw [hx]
    exact toNat_pack_unpacked negative hp
  have hlt : pattern < 2 ^ 63 := by
    rw [infinityPattern_eq] at hp
    omega
  have hpow : Nat.pow 2 63 = 2 ^ 63 := rfl
  unfold isNegative magnitudePattern
  rw [hbits, hpow]
  unfold bitsOf signBit
  cases negative with
  | false =>
    simp only [Bool.false_eq_true, if_false, Nat.zero_add, decide_eq_false_iff_not]
    omega
  | true =>
    simp only [if_true, decide_eq_true_eq]
    omega

/-- A number that is read from a pattern is not negative and has this pattern. -/
theorem pattern_ofPattern {pattern : Nat} (h : pattern ≤ infinityPattern) :
    isNegative (ofPattern pattern) = false ∧ magnitudePattern (ofPattern pattern) = pattern := by
  have hlt : pattern < 2 ^ 63 := by
    rw [infinityPattern_eq] at h
    omega
  have hword : (UInt64.ofNat pattern).toBitVec.toNat = pattern := by
    show (UInt64.ofNat pattern).toNat = pattern
    rw [UInt64.toNat_ofNat']
    omega
  refine pattern_of_pack h ?_
  have hunpack := unpack_eq (UInt64.ofNat pattern).toBitVec
  rw [hword, Nat.mod_eq_of_lt hlt, decide_eq_false (by omega)] at hunpack
  unfold ofPattern Float.ofBits Float.Model.ofBits
  rw [hunpack]

/-- A change of sign changes the sign and keeps the pattern. -/
theorem pattern_neg {x : Float} (h : magnitudePattern x ≤ infinityPattern) :
    isNegative (-x) = !isNegative x ∧ magnitudePattern (-x) = magnitudePattern x := by
  refine pattern_of_pack h ?_
  show Float.ofModel (Float.Model.pack x.toModel.unpack.neg) = _
  rw [toModel_unpack, neg_unpacked]

/-- A number is finite if its magnitude pattern lies below that of infinity. -/
theorem isFinite_eq (x : Float) :
    x.isFinite = decide (magnitudePattern x < infinityPattern) := by
  show x.toModel.unpack.isFinite = _
  rw [toModel_unpack, isFinite_unpacked]

/-- A result of an undefined operation has a magnitude pattern above that of infinity. -/
theorem isNaN_eq (x : Float) : x.isNaN = decide (infinityPattern < magnitudePattern x) := by
  show x.toModel.unpack.isNaN = _
  rw [toModel_unpack, isNaN_unpacked]

/-- Zero is unpacked into the pattern with no bit set. -/
theorem toModel_unpack_zero : (0.0 : Float).toModel.unpack = unpacked .positive 0 := by
  have hsign : isNegative 0.0 = false := by decide
  have hpattern : magnitudePattern 0.0 = 0 := by decide
  rw [toModel_unpack, hsign, hpattern]
  rfl

/-- A number equals zero if its pattern is zero, whatever its sign. -/
theorem beq_zero_eq {x : Float} (h : magnitudePattern x ≤ infinityPattern) :
    (x == 0.0) = decide (magnitudePattern x = 0) := by
  have hbeq : (x == 0.0) = x.toModel.unpack.beq (0.0 : Float).toModel.unpack := rfl
  rw [hbeq, toModel_unpack, toModel_unpack_zero, UnpackedFloat.beq, compare_unpacked_zero _ h]
  by_cases hzero : magnitudePattern x = 0
  · simp [hzero]
  · cases hs : isNegative x <;> simp [hzero]

/-- The negative zero is a sign and the pattern zero. -/
theorem eq_negZero_iff (x : Float) :
    x = -0.0 ↔ isNegative x = true ∧ magnitudePattern x = 0 := by
  have hsign : isNegative (-0.0) = true := by decide
  have hpattern : magnitudePattern (-0.0) = 0 := by decide
  constructor
  · rintro rfl
    exact ⟨hsign, hpattern⟩
  · rintro ⟨hs, hp⟩
    exact eq_of_pattern (hs.trans hsign.symm) (hp.trans hpattern.symm)

end Fluxion.Decimal
