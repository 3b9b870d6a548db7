import Fluxion.Proofs.Expr.Differentiation
import Fluxion.Proofs.Scalar.Exact
import Mathlib

/-!
# The value along one variable

An expression of numbers, constants and variables under the sign, sums, differences and products
(`Expr.IsPolynomial`) is, as one variable is moved and the others are held, a polynomial
(`Expr.IsPolynomial.eval_along`).  The degree that can be read off the tree bounds its degree
(`Expr.IsPolynomial.natDegree_along_le`), and the symbolic derivative takes the value of its
derivative (`Expr.IsPolynomial.value_derivative`).
-/

set_option autoImplicit false

namespace Fluxion.Expr

open Function (update)
open Polynomial

/-- An expression of numbers, constants and variables, under the sign, sums, differences and
products. -/
inductive IsPolynomial {ν : Type} : Expr ν → Prop where
  | number (x : ν) : IsPolynomial (.number x)
  | constant (c : Constant) : IsPolynomial (.constant c)
  | symbol (own : String) : IsPolynomial (.symbol own)
  | neg {f : Expr ν} (hf : IsPolynomial f) : IsPolynomial (.neg f)
  | add {f g : Expr ν} (hf : IsPolynomial f) (hg : IsPolynomial g) : IsPolynomial (.binary .add f g)
  | sub {f g : Expr ν} (hf : IsPolynomial f) (hg : IsPolynomial g) : IsPolynomial (.binary .sub f g)
  | mul {f g : Expr ν} (hf : IsPolynomial f) (hg : IsPolynomial g) : IsPolynomial (.binary .mul f g)

/-- The degree of a polynomial expression in one of its variables, read off the tree: nothing
cancels. -/
def degreeIn {ν : Type} (name : String) : Expr ν → ℕ
  | .symbol own => if own = name then 1 else 0
  | .neg f => f.degreeIn name
  | .binary .add f g | .binary .sub f g => max (f.degreeIn name) (g.degreeIn name)
  | .binary .mul f g => f.degreeIn name + g.degreeIn name
  | _ => 0

variable {K : Type} [Field K] [Elementary K] {env : String → K} {name : String} {e d : Expr K}

/-- A polynomial expression as a polynomial in one variable, whose coefficients are made of the
values of the others. -/
noncomputable def along (env : String → K) (name : String) : Expr K → K[X]
  | .number x => C x
  | .constant c => C c.value
  | .symbol own => if own = name then X else C (env own)
  | .neg f => -f.along env name
  | .binary .add f g => f.along env name + g.along env name
  | .binary .sub f g => f.along env name - g.along env name
  | .binary .mul f g => f.along env name * g.along env name
  | _ => 0

namespace IsPolynomial

/-- The polynomial of an expression along a variable has the values of the expression. -/
theorem eval_along (he : e.IsPolynomial) (env : String → K) (name : String) (v : K) :
    (e.along env name).eval v = e.value (update env name v) := by
  induction he with
  | number x => exact eval_C
  | constant c => exact eval_C
  | symbol own =>
    rw [along, value, Function.update_apply]
    split
    · exact eval_X
    · exact eval_C
  | neg hf ih => rw [along, value, eval_neg, ih]
  | add hf hg ihf ihg =>
    rw [along, value, eval_add, ihf, ihg]
    rfl
  | sub hf hg ihf ihg =>
    rw [along, value, eval_sub, ihf, ihg]
    rfl
  | mul hf hg ihf ihg =>
    rw [along, value, eval_mul, ihf, ihg]
    rfl

/-- At the value that the variable has, the polynomial has the value of the expression. -/
theorem eval_along_self (he : e.IsPolynomial) (env : String → K) (name : String) :
    (e.along env name).eval (env name) = e.value env := by
  rw [he.eval_along, Function.update_eq_self]

/-- The degree that is read off an expression bounds that of its polynomial. -/
theorem natDegree_along_le (he : e.IsPolynomial) (env : String → K) (name : String) :
    (e.along env name).natDegree ≤ e.degreeIn name := by
  induction he with
  | number x => exact (natDegree_C x).le
  | constant c => exact (natDegree_C _).le
  | symbol own =>
    rw [along, degreeIn]
    split
    · exact natDegree_X_le
    · exact (natDegree_C _).le
  | neg hf ih =>
    rw [along, degreeIn, natDegree_neg]
    exact ih
  | add hf hg ihf ihg =>
    rw [along, degreeIn]
    exact (natDegree_add_le _ _).trans (max_le_max ihf ihg)
  | sub hf hg ihf ihg =>
    rw [along, degreeIn]
    exact (natDegree_sub_le _ _).trans (max_le_max ihf ihg)
  | mul hf hg ihf ihg =>
    rw [along, degreeIn]
    exact natDegree_mul_le.trans (Nat.add_le_add ihf ihg)

/-- The symbolic derivative takes the value of the derivative of the polynomial. -/
theorem value_derivative (he : e.IsPolynomial) (h : DifferentiatesTo name e d)
    (env : String → K) : d.value env = (e.along env name).derivative.eval (env name) := by
  have hofNat : ∀ n : ℕ, (ofNat n : Expr K).value env = n := fun n => rfl
  induction h with
  | number x => rw [along, hofNat, derivative_C, eval_zero, Nat.cast_zero]
  | constant c => rw [along, hofNat, derivative_C, eval_zero, Nat.cast_zero]
  | symbol own =>
    rw [along, hofNat]
    split
    · rw [derivative_X, eval_one, Nat.cast_one]
    · rw [derivative_C, eval_zero, Nat.cast_zero]
  | neg hf ih =>
    cases he with
    | neg hef => rw [along, value, derivative_neg, eval_neg, ih hef]
  | add hf hg ihf ihg =>
    cases he with
    | add hef heg =>
      rw [along, value, derivative_add, eval_add, ihf hef, ihg heg]
      rfl
  | sub hf hg ihf ihg =>
    cases he with
    | sub hef heg =>
      rw [along, value, derivative_sub, eval_sub, ihf hef, ihg heg]
      rfl
  | @mul f f' g g' hf hg ihf ihg =>
    cases he with
    | mul hef heg =>
      have hrule : (productRule f f' g g').value env =
          f'.value env * g.value env + f.value env * g'.value env := rfl
      rw [hrule, along, derivative_mul, eval_add, eval_mul, eval_mul, hef.eval_along_self,
        heg.eval_along_self, ihf hef, ihg heg]
  | div hf hg ihf ihg => cases he
  | power hindependent hf ih => cases he
  | exponential hdependent hindependent hg ih => cases he
  | generalPower hdependent hdependent' hf hg ihf ihg => cases he
  | call houter hf ih => cases he

end IsPolynomial

end Fluxion.Expr
