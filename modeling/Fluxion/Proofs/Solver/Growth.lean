import Fluxion.Proofs.Solver.Linear
import Fluxion.Proofs.Solver.NevilleTable

/-!
# The coefficients of the growths

If a step is divided into `c` parts, the coefficient of a growth at `m` counts relative to `c ^ m`.
For Euler's method this ratio is `1 / m!` times the product of the factors `1 - i * c⁻¹` for `i <
m`. For the leapfrog method and an even `c` it is `1 / m!` times a product of factors `1 - (2 * i)²
* c⁻²`; this is the closed form of `centralProduct`, whose second differences with the distance two
give the recurrence of the growth (`factorial_mul_coeff_leapfrogGrowth`).

Both are polynomials in the node of the run, of a degree below the number of runs and with the value
`1 / m!` at zero.  This is all that extrapolation needs (`IsRegular`).
-/

set_option autoImplicit false

namespace Fluxion.Solver

open Polynomial

variable {K : Type} [Field K]

/-- As far as `runs` runs of a growth say, which divide the step into the multiples of `gain`, the
coefficients relative to the number of parts depend polynomially on the node of the run, and tend
to those of the exponential function; above `order` there are none. -/
structure IsRegular (growth : ℕ → K[X]) (gain runs order : ℕ) : Prop where
  natDegree_le : ∀ i < runs, (growth (gain * (i + 1))).natDegree ≤ order
  coeff_eq : ∃ q : ℕ → K[X], ∀ m ≤ order, (q m).degree < runs ∧
    (q m).eval 0 = (m.factorial : K)⁻¹ ∧
    ∀ i < runs, (growth (gain * (i + 1))).coeff m =
      ((gain * (i + 1) : ℕ) : K) ^ m * (q m).eval (runNode gain (gain * (i + 1)))

/-- It is enough that the coefficients times the factorials depend polynomially on the node and
tend to one. -/
theorem IsRegular.of_node [CharZero K] {growth : ℕ → K[X]} {gain runs order : ℕ} (node : ℕ → K[X])
    (hgrowth : ∀ i < runs, (growth (gain * (i + 1))).natDegree ≤ order)
    (hdegree : ∀ m ≤ order, (node m).natDegree < runs) (hzero : ∀ m, (node m).eval 0 = 1)
    (hcoeff : ∀ i m, (m.factorial : K) * (growth (gain * (i + 1))).coeff m =
      ((gain * (i + 1) : ℕ) : K) ^ m * (node m).eval (runNode gain (gain * (i + 1)))) :
    IsRegular growth gain runs order := by
  refine ⟨hgrowth, fun m => C (m.factorial : K)⁻¹ * node m, fun m hm => ⟨?_, ?_, fun i _ => ?_⟩⟩
  · have hscaled := (natDegree_C_mul_le (m.factorial : K)⁻¹ (node m)).trans_lt (hdegree m hm)
    exact degree_le_natDegree.trans_lt (Nat.cast_lt.mpr hscaled)
  · rw [eval_mul, eval_C, hzero, mul_one]
  · have hfactorial : (m.factorial : K) ≠ 0 := Nat.cast_ne_zero.mpr m.factorial_ne_zero
    rw [eval_mul, eval_C, mul_left_comm, ← hcoeff, inv_mul_cancel_left₀ hfactorial]

/-- The growth of one Euler step is linear. -/
theorem natDegree_one_add_X_le : (1 + X : K[X]).natDegree ≤ 1 :=
  (natDegree_add_le _ _).trans (max_le (natDegree_one.trans_le zero_le_one) natDegree_X_le)

/-- The factors of the products are linear. -/
theorem natDegree_one_sub_C_mul_X_le (a : K) : (1 - C a * X : K[X]).natDegree ≤ 1 :=
  (natDegree_sub_le _ _).trans (max_le (natDegree_one.trans_le zero_le_one)
    ((natDegree_C_mul_le a X).trans natDegree_X_le))

section Euler

/-- The growth of `c` Euler steps has at most the degree `c`. -/
theorem natDegree_eulerGrowth_le (c : ℕ) : (eulerGrowth c : K[X]).natDegree ≤ c :=
  natDegree_pow_le.trans ((Nat.mul_le_mul_left c natDegree_one_add_X_le).trans_eq (Nat.mul_one c))

/-- The polynomial in `c⁻¹` behind the falling factorials of `c`. -/
noncomputable def fallingNode (m : ℕ) : K[X] := ∏ i ∈ Finset.range m, (1 - C (i : K) * X)

/-- Of the `m` factors one is constant. -/
theorem natDegree_fallingNode_le (m : ℕ) : (fallingNode m : K[X]).natDegree ≤ m - 1 := by
  cases m with
  | zero => simp [fallingNode]
  | succ m =>
    -- the factor for `i = 0` is constant
    have hfirst : (1 - C ((0 : ℕ) : K) * X : K[X]) = 1 := by simp
    rw [fallingNode, Finset.prod_range_succ', hfirst, mul_one, Nat.add_sub_cancel]
    refine (natDegree_prod_le _ _).trans ?_
    exact (Finset.sum_le_card_nsmul _ _ 1 fun i _ => natDegree_one_sub_C_mul_X_le _).trans_eq
      (by simp)

/-- For infinitely many parts all factors tend to one. -/
theorem eval_zero_fallingNode (m : ℕ) : (fallingNode m : K[X]).eval 0 = 1 := by
  rw [fallingNode, eval_prod]
  exact Finset.prod_eq_one fun i _ => by simp

variable [CharZero K]

/-- The coefficients of the binomial `(1 + X) ^ c` are falling factorials of `c`, up to
factorials. -/
theorem factorial_mul_coeff_eulerGrowth {c : ℕ} (hc : 0 < c) (m : ℕ) :
    (m.factorial : K) * (eulerGrowth c).coeff m =
      (c : K) ^ m * (fallingNode m).eval (runNode 1 c) := by
  have hne : (c : K) ≠ 0 := Nat.cast_ne_zero.mpr hc.ne'
  calc (m.factorial : K) * (eulerGrowth c).coeff m = (c.descFactorial m : ℕ) := by
        rw [eulerGrowth, coeff_one_add_X_pow, Nat.descFactorial_eq_factorial_mul_choose,
          Nat.cast_mul]
    _ = ∏ i ∈ Finset.range m, ((c : K) - i) := by
        rw [← descPochhammer_eval_eq_descFactorial, descPochhammer_eval_eq_prod_range]
    _ = ∏ i ∈ Finset.range m, (c : K) * (1 - i * runNode 1 c) := by
        refine Finset.prod_congr rfl fun i _ => ?_
        rw [runNode, pow_one]
        field_simp
    _ = (c : K) ^ m * (fallingNode m).eval (runNode 1 c) := by
        rw [Finset.prod_mul_distrib, Finset.prod_const, Finset.card_range, fallingNode, eval_prod]
        simp

/-- Euler's method with 1, 2, .., `runs` parts is regular up to the order `runs`. -/
theorem isRegular_eulerGrowth {runs : ℕ} (hruns : 0 < runs) :
    IsRegular (eulerGrowth : ℕ → K[X]) 1 runs runs := by
  refine .of_node fallingNode ?_ ?_ eval_zero_fallingNode fun i m => ?_
  · exact fun i hi => (natDegree_eulerGrowth_le _).trans (by omega)
  · exact fun m hm => (natDegree_fallingNode_le m).trans_lt (by omega)
  · exact factorial_mul_coeff_eulerGrowth (by omega) m

end Euler

section CentralProducts

/-- The product of `m` numbers around `y` at distance two from each other, for an odd `m`; for an
even one, `y` times the product for `m - 1`. -/
def centralProduct (y : K) : ℕ → K
  | 0 => 1
  | 1 => y
  | m + 2 => centralProduct y m * (y ^ 2 - (2 * ((m + 1) / 2) : ℕ) ^ 2)

/-- Two more factors of an odd product are the next pair around `y`. -/
theorem centralProduct_odd (y : K) (j : ℕ) : centralProduct y (2 * j + 3) =
    centralProduct y (2 * j + 1) * (y ^ 2 - (2 * (j + 1)) ^ 2) := by
  rw [centralProduct, show (2 * j + 1 + 1) / 2 = j + 1 by omega]
  push_cast
  rfl

/-- An even product has the factor `y` twice. -/
theorem centralProduct_even (y : K) (j : ℕ) :
    centralProduct y (2 * j + 2) = y * centralProduct y (2 * j + 1) := by
  induction j with
  | zero =>
    rw [centralProduct, centralProduct, centralProduct]
    simp [pow_two]
  | succ j ih =>
    rw [show 2 * (j + 1) + 2 = 2 * j + 2 + 2 by omega, centralProduct, ih,
      show 2 * (j + 1) + 1 = 2 * j + 3 by omega, centralProduct_odd,
      show (2 * j + 2 + 1) / 2 = j + 1 by omega, mul_assoc]
    push_cast
    rfl

/-- An odd product is odd in `y`. -/
theorem centralProduct_neg (y : K) (j : ℕ) :
    centralProduct (-y) (2 * j + 1) = -centralProduct y (2 * j + 1) := by
  induction j with
  | zero => rfl
  | succ j ih =>
    rw [show 2 * (j + 1) + 1 = 2 * j + 3 by omega, centralProduct_odd, centralProduct_odd, ih,
      neg_sq, neg_mul]

/-- The factors around a higher centre are those around the old one, of two factors less, and two
that lie above them. -/
theorem centralProduct_add_two (y : K) (j : ℕ) : centralProduct (y + 2) (2 * j + 3) =
    (y + 2 * (j + 1)) * (y + 2 * (j + 2)) * centralProduct y (2 * j + 1) := by
  induction j with
  | zero =>
    rw [centralProduct_odd]
    simp only [centralProduct, Nat.cast_zero]
    ring
  | succ j ih =>
    rw [centralProduct_odd, show 2 * (j + 1) + 1 = 2 * j + 3 by omega, ih, centralProduct_odd,
      Nat.cast_succ]
    ring

/-- Moving an odd product by two exchanges one of its factors. -/
theorem centralProduct_sub_two (y : K) (j : ℕ) : centralProduct (y - 2) (2 * j + 3) =
    (y - 2 * (j + 1)) * (y - 2 * (j + 2)) * centralProduct y (2 * j + 1) := by
  have hreflected := centralProduct_add_two (-y) j
  have hodd := centralProduct_neg (y - 2) (j + 1)
  rw [centralProduct_neg, show -y + 2 = -(y - 2) by ring, show 2 * j + 3 = 2 * (j + 1) + 1 by omega,
    hodd] at hreflected
  rw [show 2 * j + 3 = 2 * (j + 1) + 1 by omega, ← neg_inj, hreflected]
  ring

/-- The second difference of a central product is the one of two factors less. -/
theorem centralProduct_second_difference (y : K) (m : ℕ) :
    centralProduct (y + 2) (m + 2) + centralProduct (y - 2) (m + 2) - 2 * centralProduct y (m + 2) =
      4 * ((m + 1) * (m + 2)) * centralProduct y m := by
  obtain ⟨j, rfl | rfl⟩ := m.even_or_odd'
  · -- an even product is the centre times an odd one
    cases j with
    | zero =>
      simp only [centralProduct]
      norm_num
      ring
    | succ j =>
      rw [centralProduct_even, centralProduct_even, centralProduct_even,
        show 2 * (j + 1) + 1 = 2 * j + 3 by omega, centralProduct_add_two, centralProduct_sub_two,
        centralProduct_odd, show 2 * (j + 1) = 2 * j + 2 by omega, centralProduct_even]
      push_cast
      ring
  · rw [show 2 * j + 1 + 2 = 2 * j + 3 by omega, centralProduct_add_two, centralProduct_sub_two,
      centralProduct_odd]
    push_cast
    ring

/-- A product around zero vanishes. -/
theorem centralProduct_zero (m : ℕ) : centralProduct (0 : K) (m + 1) = 0 := by
  induction m using Nat.twoStepInduction with
  | zero => rfl
  | one => simp [centralProduct]
  | more m ih _ => rw [centralProduct, ih, zero_mul]

/-- A product around two vanishes as soon as it reaches zero. -/
theorem centralProduct_two (m : ℕ) : centralProduct (2 : K) (m + 3) = 0 := by
  induction m using Nat.twoStepInduction with
  | zero => norm_num [centralProduct]
  | one => norm_num [centralProduct]
  | more m ih _ => rw [centralProduct, ih, zero_mul]

/-- The polynomial in `y⁻²` behind the central products of `y`. -/
noncomputable def centralNode : ℕ → K[X]
  | 0 => 1
  | 1 => 1
  | m + 2 => centralNode m * (1 - C (((2 * ((m + 1) / 2) : ℕ) : K) ^ 2) * X)

/-- Each pair of factors raises the degree in the node by one. -/
theorem natDegree_centralNode_le (m : ℕ) : (centralNode m : K[X]).natDegree ≤ (m - 1) / 2 := by
  induction m using Nat.twoStepInduction with
  | zero => simp [centralNode]
  | one => simp [centralNode]
  | more m ih _ =>
    cases m with
    | zero => simp [centralNode]
    | succ m =>
      rw [centralNode]
      refine natDegree_mul_le.trans ?_
      refine (Nat.add_le_add ih (natDegree_one_sub_C_mul_X_le _)).trans ?_
      omega

/-- For infinitely many parts all factors tend to one. -/
theorem eval_zero_centralNode (m : ℕ) : (centralNode m : K[X]).eval 0 = 1 := by
  induction m using Nat.twoStepInduction with
  | zero => exact eval_one
  | one => exact eval_one
  | more m ih _ =>
    rw [centralNode, eval_mul, ih]
    simp

/-- Relative to the power of `y` a product depends on `1 / y²` only. -/
theorem centralProduct_eq {y : K} (hy : y ≠ 0) (m : ℕ) :
    centralProduct y m = y ^ m * (centralNode m).eval (y ^ 2)⁻¹ := by
  induction m using Nat.twoStepInduction with
  | zero => simp [centralProduct, centralNode]
  | one => simp [centralProduct, centralNode]
  | more m ih _ =>
    rw [centralProduct, ih, centralNode, eval_mul]
    simp only [eval_sub, eval_one, eval_mul, eval_C, eval_X]
    have hsquare : y ^ 2 * (y ^ 2)⁻¹ = 1 := mul_inv_cancel₀ (pow_ne_zero 2 hy)
    linear_combination
      y ^ m * (centralNode m).eval (y ^ 2)⁻¹ * (2 * ((m + 1) / 2) : ℕ) ^ 2 * hsquare

end CentralProducts

section Leapfrog

/-- The growth of the leapfrog method satisfies the recurrence of its steps. -/
theorem leapfrogGrowth_add_two (c : ℕ) : (leapfrogGrowth (c + 2) : K[X]) =
    leapfrogGrowth c + 2 * X * leapfrogGrowth (c + 1) := by
  rw [leapfrogGrowth, two_nsmul]
  ring

/-- The growth of `c` leapfrog steps has at most the degree `c`. -/
theorem natDegree_leapfrogGrowth_le (c : ℕ) : (leapfrogGrowth c : K[X]).natDegree ≤ c := by
  induction c using Nat.twoStepInduction with
  | zero => simp [leapfrogGrowth]
  | one => exact natDegree_one_add_X_le
  | more c ih ih' =>
    have hdouble : (2 * X : K[X]).natDegree ≤ 1 := (natDegree_C_mul_le 2 X).trans natDegree_X_le
    rw [leapfrogGrowth_add_two]
    refine (natDegree_add_le _ _).trans (max_le (by omega) ?_)
    exact natDegree_mul_le.trans (by omega)

/-- Two steps at a time the leapfrog method has a recurrence that leads over the even steps. -/
theorem leapfrogGrowth_add_four (c : ℕ) : (leapfrogGrowth (c + 4) : K[X]) =
    C 2 * leapfrogGrowth (c + 2) + C 4 * (leapfrogGrowth (c + 2) * X ^ 2) - leapfrogGrowth c := by
  have htwo : (C 2 : K[X]) = 2 := rfl
  have hfour : (C 4 : K[X]) = 4 := rfl
  rw [htwo, hfour]
  linear_combination leapfrogGrowth_add_two (K := K) (c + 2)
    + 2 * X * leapfrogGrowth_add_two (K := K) (c + 1) - leapfrogGrowth_add_two (K := K) c

/-- Below the degree two the coefficients have the second difference zero. -/
theorem coeff_leapfrogGrowth_of_lt {c m : ℕ} (hm : m < 2) :
    (leapfrogGrowth (c + 4) : K[X]).coeff m =
      2 * (leapfrogGrowth (c + 2)).coeff m - (leapfrogGrowth c).coeff m := by
  rw [leapfrogGrowth_add_four, coeff_sub, coeff_add, coeff_C_mul, coeff_C_mul, coeff_mul_X_pow',
    if_neg (by omega), mul_zero, add_zero]

/-- From the degree two on the second differences lead back to the coefficients two degrees
below. -/
theorem coeff_leapfrogGrowth_add_two (c m : ℕ) : (leapfrogGrowth (c + 4) : K[X]).coeff (m + 2) =
    2 * (leapfrogGrowth (c + 2)).coeff (m + 2) + 4 * (leapfrogGrowth (c + 2)).coeff m -
      (leapfrogGrowth c).coeff (m + 2) := by
  rw [leapfrogGrowth_add_four, coeff_sub, coeff_add, coeff_C_mul, coeff_C_mul, coeff_mul_X_pow]

/-- The coefficients of the leapfrog method are central products, up to factorials: both satisfy the
same recurrence. -/
theorem factorial_mul_coeff_leapfrogGrowth (q m : ℕ) :
    (m.factorial : K) * (leapfrogGrowth (2 * q)).coeff m = centralProduct (2 * q : K) m := by
  induction q using Nat.twoStepInduction generalizing m with
  | zero =>
    cases m with
    | zero => simp [leapfrogGrowth, centralProduct]
    | succ m => simp [leapfrogGrowth, centralProduct_zero, coeff_one]
  | one =>
    have htwo : (leapfrogGrowth 2 : K[X]) = 1 + C 2 * X + C 2 * X ^ 2 := by
      have hone : (leapfrogGrowth 1 : K[X]) = 1 + X := rfl
      have hC : (C 2 : K[X]) = 2 := rfl
      rw [leapfrogGrowth_add_two, hone, hC, leapfrogGrowth]
      ring
    rw [Nat.cast_one, mul_one, mul_one, htwo]
    obtain _ | _ | _ | m := m
    · simp [centralProduct]
    · simp [centralProduct, coeff_one, coeff_X_pow]
    · norm_num [centralProduct, coeff_one, coeff_X, coeff_X_pow]
    · simp [centralProduct_two, coeff_one]
  | more q ih ih' =>
    -- the three centres of the second difference are the counts of steps in the recurrence
    have hcentre : (2 * (q + 2 : ℕ) : K) = 2 * (q + 1 : ℕ) + 2 := by push_cast; ring
    have hcentre' : (2 * q : K) = 2 * (q + 1 : ℕ) - 2 := by push_cast; ring
    rw [show 2 * (q + 2) = 2 * q + 4 by omega]
    obtain _ | _ | m := m
    · have h := ih 0
      have h' := ih' 0
      simp only [centralProduct, Nat.factorial_zero, Nat.cast_one, one_mul] at h h' ⊢
      rw [coeff_leapfrogGrowth_of_lt (by omega), h, ← Nat.mul_succ, h']
      ring
    · have h := ih 1
      have h' := ih' 1
      simp only [centralProduct, zero_add, Nat.factorial_one, Nat.cast_one, one_mul] at h h' ⊢
      rw [coeff_leapfrogGrowth_of_lt (by omega), h, ← Nat.mul_succ, h', hcentre, hcentre']
      ring
    · have hfactorial : ((m + 2).factorial : K) = (m + 1) * (m + 2) * m.factorial := by
        rw [Nat.factorial_succ, Nat.factorial_succ]
        push_cast
        ring
      have hdifference := centralProduct_second_difference (2 * (q + 1 : ℕ) : K) m
      rw [← hcentre, ← hcentre', ← ih (m + 2), ← ih' (m + 2), ← ih' m, hfactorial] at hdifference
      rw [coeff_leapfrogGrowth_add_two, ← Nat.mul_succ, hfactorial]
      linear_combination -hdifference

variable [CharZero K]

/-- The leapfrog method with 2, 4, .., `2 * runs` parts is regular up to the order `2 * runs`. -/
theorem isRegular_leapfrogGrowth {runs : ℕ} (hruns : 0 < runs) :
    IsRegular (leapfrogGrowth : ℕ → K[X]) 2 runs (2 * runs) := by
  refine .of_node centralNode ?_ ?_ eval_zero_centralNode fun i m => ?_
  · exact fun i hi => (natDegree_leapfrogGrowth_le _).trans (by omega)
  · exact fun m hm => (natDegree_centralNode_le m).trans_lt (by omega)
  · have hparts : ((2 * (i + 1) : ℕ) : K) ≠ 0 := Nat.cast_ne_zero.mpr (by omega)
    have hcast : (2 * (i + 1 : ℕ) : K) = ((2 * (i + 1) : ℕ) : K) := by push_cast; rfl
    rw [factorial_mul_coeff_leapfrogGrowth, hcast, centralProduct_eq hparts, runNode]

end Leapfrog

end Fluxion.Solver
