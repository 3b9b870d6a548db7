import Fluxion.Scalar
import Mathlib

/-!
# Exact scalars

In a field the powers by repeated squaring are the powers, for every exponent (`powerLoop_eq`,
`signedPower_eq`).  The rational numbers are scalars all of which are finite, so a rational number
is admitted as a step exactly if it is above zero (`isPositive_iff`).
-/

set_option autoImplicit false

namespace Fluxion

section Field

variable {K : Type} [Field K]

/-- In a field the scalar zero is zero. -/
@[simp] theorem zero_eq : (zero : K) = 0 := Nat.cast_zero

/-- In a field the scalar one is one. -/
@[simp] theorem one_eq : (one : K) = 1 := Nat.cast_one

/-- In a field the scalar two is two. -/
@[simp] theorem two_eq : (two : K) = 2 := Nat.cast_ofNat

/-- The loop multiplies the powers taken so far by the power of the square on offer to the
exponent that is left. -/
theorem powerLoop_eq (acc square : K) (n : ℕ) : powerLoop acc square n = acc * square ^ n := by
  induction n using Nat.strongRecOn generalizing acc square with
  | ind n ih =>
    have hacc : (if n % 2 = 1 then acc * square else acc) = acc * square ^ (n % 2) := by
      obtain hmod | hmod := Nat.mod_two_eq_zero_or_one n
      · rw [hmod, if_neg (by decide), pow_zero, mul_one]
      · rw [hmod, if_pos rfl, pow_one]
    unfold powerLoop
    dsimp only
    rw [hacc]
    split
    · rename_i hhalf
      have hdigit : n % 2 = n := by omega
      rw [hdigit]
    · rename_i hhalf
      have hdigits : n % 2 + 2 * (n / 2) = n := Nat.mod_add_div n 2
      rw [ih (n / 2) (by omega), ← pow_two, ← pow_mul, mul_assoc, ← pow_add, hdigits]

/-- In a field repeated multiplication is the power. -/
theorem wholePower_eq (base : K) (n : ℕ) : wholePower base n = base ^ n := by
  rw [wholePower, powerLoop_eq, one_eq, one_mul]

/-- In a field the power to a signed exponent is the integer power. -/
theorem signedPower_eq (base : K) (n : ℤ) : signedPower base n = base ^ n := by
  unfold signedPower
  dsimp only
  rw [wholePower_eq, one_eq]
  split
  · rename_i hnegative
    have hsize : n = -(n.natAbs : ℤ) := by omega
    nth_rewrite 2 [hsize]
    rw [zpow_neg, zpow_natCast, one_div]
  · rename_i hnonnegative
    have hsize : n = (n.natAbs : ℤ) := by omega
    nth_rewrite 2 [hsize]
    rw [zpow_natCast]

end Field

/-- All rational numbers are finite. -/
instance rationalFiniteness : Finiteness ℚ := ⟨fun _ => true⟩

/-- Among the rationals the positive steps are the positive numbers, since all are finite. -/
theorem isPositive_iff {x : ℚ} : IsPositive x ↔ 0 < x := by
  unfold IsPositive
  rw [zero_eq]
  exact and_iff_left rfl

end Fluxion
