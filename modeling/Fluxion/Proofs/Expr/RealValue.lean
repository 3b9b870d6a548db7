import Fluxion.Expr.Derivative
import Fluxion.Proofs.Decimal.Binary64
import Fluxion.Proofs.Expr.Variables
import Mathlib

/-!
# The exact value of an expression

Over the real numbers the operations of an expression are the exact ones, and each literal is the
real number that its bits stand for (`exactValue`).  An expression is regular at a point if no
operation on the way to its value leaves the open domain on which it is smooth
(`Expr.RegularAt`): divisors are not zero, bases of powers are positive, and the arguments of the
tangent, the cotangent and the logarithms are inside their domains.
-/

set_option autoImplicit false

namespace Fluxion

/-- The real constants and functions. -/
noncomputable instance realElementary : Elementary ℝ where
  pi := Real.pi
  euler := Real.exp 1
  power := fun a b => a ^ b
  sin := Real.sin
  cos := Real.cos
  tan := Real.tan
  exp := Real.exp
  ln := Real.log
  log10 := Real.logb 10
  undefined := 0

/-- All real numbers are finite. -/
instance realFiniteness : Finiteness ℝ := ⟨fun _ => true⟩

/-- The real number that a finite number stands for. -/
noncomputable def exactValue (x : Float) : ℝ :=
  let pattern := Decimal.magnitudePattern x
  let size : ℝ := Decimal.patternSignificand pattern * 2 ^ Decimal.patternPlaces pattern /
    2 ^ Decimal.subnormalPlaces
  if Decimal.isNegative x then -size else size

/-- A number without a sign stands for its significand, shifted by the places that are dropped
from it. -/
theorem exactValue_eq {x : Float} {m a b c : ℕ} (hsign : Decimal.isNegative x = false)
    (hsignificand : Decimal.patternSignificand (Decimal.magnitudePattern x) = m * 2 ^ a)
    (hplaces : Decimal.patternPlaces (Decimal.magnitudePattern x) = b)
    (habc : a + b = c + Decimal.subnormalPlaces) : exactValue x = m * 2 ^ c := by
  have hpow : (2 : ℝ) ^ a * 2 ^ b = 2 ^ c * 2 ^ Decimal.subnormalPlaces := by
    rw [← pow_add, ← pow_add, habc]
  have hpos : (2 : ℝ) ^ Decimal.subnormalPlaces ≠ 0 := pow_ne_zero _ two_ne_zero
  unfold exactValue
  dsimp only
  rw [hsign, hsignificand, hplaces, if_neg (by decide), Nat.cast_mul, Nat.cast_pow, Nat.cast_ofNat,
    mul_assoc, hpow, ← mul_assoc, mul_div_cancel_right₀ _ hpos]

/-- The binary64 number zero is zero. -/
theorem exactValue_zero : exactValue ((0 : ℕ) : Float) = (0 : ℕ) := by
  have hsignificand :
      Decimal.patternSignificand (Decimal.magnitudePattern ((0 : ℕ) : Float)) = 0 := by
    decide
  unfold exactValue
  dsimp only
  rw [hsignificand, Nat.cast_zero, zero_mul, zero_div, neg_zero, ite_self]

/-- The binary64 number one is one. -/
theorem exactValue_one : exactValue ((1 : ℕ) : Float) = (1 : ℕ) := by
  have h : exactValue ((1 : ℕ) : Float) = (1 : ℕ) * 2 ^ 0 :=
    exactValue_eq (a := 52) (b := 1022) (by decide) (by decide) (by decide) (by decide)
  rw [h, pow_zero, mul_one]

/-- The binary64 number two is two. -/
theorem exactValue_two : exactValue ((2 : ℕ) : Float) = (2 : ℕ) := by
  have h : exactValue ((2 : ℕ) : Float) = (1 : ℕ) * 2 ^ 1 :=
    exactValue_eq (a := 52) (b := 1023) (by decide) (by decide) (by decide) (by decide)
  rw [h]
  norm_num

/-- The binary64 number ten is ten. -/
theorem exactValue_ten : exactValue ((10 : ℕ) : Float) = (10 : ℕ) := by
  have h : exactValue ((10 : ℕ) : Float) = (5 : ℕ) * 2 ^ 1 :=
    exactValue_eq (a := 50) (b := 1025) (by decide) (by decide) (by decide) (by decide)
  rw [h]
  norm_num

/-- The operands at which an operator is smooth. -/
def Operator.Admits : Operator → ℝ → ℝ → Prop
  | .div, _, b => b ≠ 0
  | .pow, a, _ => 0 < a
  | .add, _, _ | .sub, _, _ | .mul, _, _ => True

/-- The open domain of a function. -/
def Builtin.Admits : Builtin → ℝ → Prop
  | .tan, x => Real.cos x ≠ 0
  | .cot, x => Real.sin x ≠ 0
  | .ln, x | .log, x => 0 < x
  | .sin, _ | .cos, _ | .exp, _ => True

namespace Expr

/-- Every operation of an expression is applied inside its open domain. -/
def RegularAt (env : String → ℝ) : Expr ℝ → Prop
  | .number _ | .constant _ | .symbol _ => True
  | .neg inner => inner.RegularAt env
  | .binary op left right =>
    left.RegularAt env ∧ right.RegularAt env ∧ op.Admits (left.value env) (right.value env)
  | .call name argument =>
    argument.RegularAt env ∧ ∃ f, Builtin.ofName? name = some f ∧ f.Admits (argument.value env)
  | .marker _ | .assign _ _ => False

/-- An expression with its literals read exactly. -/
noncomputable def exact (e : Expr Float) : Expr ℝ := e.map exactValue

/-- A regular expression passes its check. -/
theorem RegularAt.check_eq {env : String → ℝ} {e : Expr ℝ} (h : e.RegularAt env) :
    e.check = .ok () := by
  induction e with
  | number x => rfl
  | constant c => rfl
  | symbol name => rfl
  | neg inner ih => exact ih h
  | binary op left right ihleft ihright =>
    exact check_binary.mpr ⟨ihleft h.1, ihright h.2.1⟩
  | call name argument ih =>
    obtain ⟨hargument, f, hf, -⟩ := h
    exact check_call.mpr ⟨⟨f, hf⟩, ih hargument⟩
  | marker inner ih => exact h.elim
  | assign target value ihtarget ihvalue => exact h.elim

end Expr

end Fluxion
