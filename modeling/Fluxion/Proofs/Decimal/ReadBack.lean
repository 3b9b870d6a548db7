import Fluxion.Proofs.Decimal.Binary64

/-!
# Written numbers read back

The numeral that is selected for a binary64 number reads back to that number
(`shortest_pattern`).  A numeral taken from a grid was tested by reading it.  The exact
numeral, which is written when no grid answers, needs the argument that rounding a representable
value changes nothing; and taking trailing zeros off the digits only scales both sides of the
quotient that is rounded.
-/

set_option autoImplicit false

namespace Fluxion.Decimal

/-- A rounded quotient depends on the ratio only. -/
theorem divideToEven_scale (num den : Nat) {c : Nat} (hc : 0 < c) :
    divideToEven (num * c) (den * c) = divideToEven num den := by
  have hquotient : num * c / (den * c) = num / den := Nat.mul_div_mul_right num den hc
  have hremainder : num * c % (den * c) = num % den * c := Nat.mul_mod_mul_right c num den
  have hlt : 2 * (num % den * c) < den * c ↔ 2 * (num % den) < den := by
    rw [← Nat.mul_assoc]
    exact Nat.mul_lt_mul_right hc
  have heq : 2 * (num % den * c) = den * c ↔ 2 * (num % den) = den := by
    rw [← Nat.mul_assoc]
    exact Nat.mul_left_inj hc.ne'
  unfold divideToEven
  simp only [hquotient, hremainder, hlt, heq]

/-- A quotient that comes out even is not rounded. -/
theorem divideToEven_mul (q : Nat) {den : Nat} (h : 0 < den) :
    divideToEven (q * den) den = q := by
  unfold divideToEven
  simp [Nat.mul_div_cancel q h, h]

/-- The pattern depends on the quotient alone. -/
theorem nearestPattern_scale (num den : Nat) {c : Nat} (hc : 0 < c) :
    nearestPattern (num * c) (den * c) = nearestPattern num den := by
  unfold nearestPattern
  dsimp only
  have hscaled : num * c * Nat.pow 2 subnormalPlaces = num * Nat.pow 2 subnormalPlaces * c :=
    Nat.mul_right_comm _ _ _
  have hden (k : Nat) : den * c * k = den * k * c := Nat.mul_right_comm _ _ _
  rw [hscaled, Nat.mul_div_mul_right _ _ hc, hden, divideToEven_scale _ _ hc]

/-- A value of at most 53 binary digits, measured in units of the least number, has the pattern
that these digits and the dropped places make up. -/
theorem nearestPattern_units {units den significand places : Nat} (hden : 0 < den)
    (hunits : units * Nat.pow 2 subnormalPlaces = significand * Nat.pow 2 places * den)
    (hdropped : droppedPlaces (significand * Nat.pow 2 places) = places) :
    nearestPattern units den =
      min (places * Nat.pow 2 significandBits + significand) infinityPattern := by
  have hround : divideToEven (significand * Nat.pow 2 places * den)
      (den * Nat.pow 2 places) = significand := by
    have hpos : 0 < den * Nat.pow 2 places := Nat.mul_pos hden (Nat.pow_pos (by decide))
    rw [Nat.mul_assoc, Nat.mul_comm (Nat.pow 2 places) den]
    exact divideToEven_mul significand hpos
  unfold nearestPattern
  dsimp only
  rw [hunits, Nat.mul_div_cancel _ hden, hdropped, hround]

/-- The places that are dropped from a representable value are those of its pattern. -/
theorem droppedPlaces_significand (pattern : Nat) :
    droppedPlaces (patternSignificand pattern * Nat.pow 2 (patternPlaces pattern)) =
      patternPlaces pattern := by
  have hpow : Nat.pow 2 (patternPlaces pattern) = 2 ^ patternPlaces pattern := rfl
  have hbits : significandBits = 52 := rfl
  unfold droppedPlaces
  rw [hpow, hbits]
  obtain ⟨hlt, hplaces, hsig⟩ | ⟨hle, hplaces, hsig⟩ := patternSignificand_cases pattern
  · rw [hplaces, hsig, pow_zero, Nat.mul_one]
    by_cases hzero : pattern = 0
    · rw [hzero]
      rfl
    · have hlog : pattern.log2 < 52 := (Nat.log2_lt hzero).mpr hlt
      omega
  · have hlog : (patternSignificand pattern * 2 ^ patternPlaces pattern).log2 =
        52 + patternPlaces pattern := by
      have hpos : 0 < 2 ^ patternPlaces pattern := Nat.pow_pos (by decide)
      have hmod : pattern % 2 ^ 52 < 2 ^ 52 := Nat.mod_lt _ (by decide)
      refine (Nat.log2_eq_iff (Nat.mul_pos (by omega) hpos).ne').mpr ⟨?_, ?_⟩
      · rw [pow_add]
        exact Nat.mul_le_mul_right _ (by omega)
      · rw [show 52 + patternPlaces pattern + 1 = 53 + patternPlaces pattern by omega, pow_add]
        exact Nat.mul_lt_mul_of_pos_right (by omega) hpos
    omega

/-- The exact value of a number reads back to the number. -/
theorem exactNumeral_pattern {pattern : Nat} (h : pattern ≤ infinityPattern) :
    (exactNumeral pattern).pattern = pattern := by
  unfold Numeral.pattern
  have hden : 0 < (exactNumeral pattern).denominator := Nat.pow_pos (by decide)
  -- ten is five times two, so the powers of two cancel and those of five were multiplied in
  have hunits : (exactNumeral pattern).numerator * Nat.pow 2 subnormalPlaces =
      patternSignificand pattern * Nat.pow 2 (patternPlaces pattern) *
        (exactNumeral pattern).denominator := by
    have hten (k : Nat) : Nat.pow 10 k = Nat.pow 5 k * Nat.pow 2 k := Nat.mul_pow 5 2 k
    have hexponent : (-(-(subnormalPlaces : Int))).toNat = subnormalPlaces := by omega
    have hwhole : (-(subnormalPlaces : Int)).toNat = 0 := by omega
    unfold Numeral.numerator Numeral.denominator exactNumeral
    dsimp only
    rw [hexponent, hwhole, hten subnormalPlaces]
    simp only [Nat.pow_eq, pow_zero]
    ring
  rw [nearestPattern_units hden hunits (droppedPlaces_significand pattern)]
  have hpow : Nat.pow 2 significandBits = 2 ^ 52 := rfl
  rw [hpow]
  have hcases := patternSignificand_cases pattern
  omega

/-- Moving a trailing zero of the digits into the exponent keeps the pattern. -/
theorem pattern_shift (n : Nat) (e : Int) :
    Numeral.pattern ⟨n, e + 1⟩ = Numeral.pattern ⟨n * 10, e⟩ := by
  unfold Numeral.pattern Numeral.numerator Numeral.denominator
  dsimp only
  by_cases he : 0 ≤ e
  -- the ten goes to the numerator, or is taken from both sides of the quotient
  · have hnext : (e + 1).toNat = e.toNat + 1 := by omega
    have hden : (-(e + 1)).toNat = 0 := by omega
    have hden' : (-e).toNat = 0 := by omega
    rw [hnext, hden, hden']
    simp only [Nat.pow_eq, pow_succ]
    congr 1
    ring
  · have hnum : (e + 1).toNat = 0 := by omega
    have hnum' : e.toNat = 0 := by omega
    have hden : (-e).toNat = (-(e + 1)).toNat + 1 := by omega
    rw [hnum, hnum', hden]
    have hscale := nearestPattern_scale (n * Nat.pow 10 0) (Nat.pow 10 (-(e + 1)).toNat)
      (show 0 < 10 by decide)
    rw [← hscale]
    simp only [Nat.pow_eq, pow_succ, pow_zero, Nat.mul_one]

/-- Moving zeros from the digits into the exponent does not change what a numeral reads as. -/
theorem stripZeros_pattern (bound : Nat) (d : Numeral) :
    (stripZeros bound d).pattern = d.pattern := by
  induction bound generalizing d with
  | zero => rfl
  | succ bound ih =>
    unfold stripZeros
    split
    · rename_i hzero
      rw [ih, pattern_shift, Nat.div_mul_cancel (Nat.dvd_of_mod_eq_zero hzero.2)]
    · rfl

/-- A numeral that is chosen on a grid was tested by reading it. -/
theorem neighbourOnGrid_pattern {pattern : Nat} {exponent : Int} {d : Numeral}
    (h : neighbourOnGrid pattern exponent = some d) : d.pattern = pattern := by
  unfold neighbourOnGrid at h
  dsimp only at h
  split at h
  · rename_i hlower
    split at h
    · rename_i hupper
      obtain rfl := Option.some.inj h
      exact hupper.1
    · obtain rfl := Option.some.inj h
      exact hlower
  · split at h
    · rename_i hupper
      obtain rfl := Option.some.inj h
      exact hupper
    · cases h

/-- The numeral that is written for a number reads back to the number. -/
theorem shortest_pattern {pattern : Nat} (h : pattern ≤ infinityPattern) :
    (shortest pattern).pattern = pattern := by
  unfold shortest
  by_cases hzero : pattern = 0
  · rw [if_pos hzero, hzero]
    decide +kernel
  rw [if_neg hzero]
  dsimp only
  rw [Numeral.canonical, stripZeros_pattern]
  cases hfound : (List.range digitLimit).findSome? fun n =>
      neighbourOnGrid pattern (decimalPlaces pattern - (n + 1 : Nat)) with
  | none => exact exactNumeral_pattern h
  | some d =>
    obtain ⟨n, -, hn⟩ := List.exists_of_findSome?_eq_some hfound
    exact neighbourOnGrid_pattern hn

end Fluxion.Decimal
