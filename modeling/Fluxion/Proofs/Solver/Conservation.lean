import Fluxion.Proofs.Solver.SemiImplicitStep

/-!
# What the methods conserve

On a system with a skew-symmetric matrix the exact solution keeps the square of the length of the
point.  The leapfrog method and the semi-implicit rule do not, but each keeps a quadratic form of
its own.
-/

set_option autoImplicit false

namespace Fluxion.Solver

/-! ## What the leapfrog method conserves

On a system `x' = S x` with a skew-symmetric matrix the rate of change stands at right angles to the
point, so the exact solution keeps the square of its length.  The leapfrog method does not.  What it
keeps is the product of two successive states: a step from `y` across `x` leads to `y + 2 h • S x`,
whose product with `x` is that of `y` with `x` (`dotProduct_step`).  The first step, which is one of
Euler's method, makes this product the square of the initial length (`midpoint_keeps_product`).
-/

section

open Matrix

variable {K : Type} [Field K] [CharZero K] {n : ℕ} {S : Matrix (Fin n) (Fin n) K}

/-- A skew-symmetric matrix takes every point to one at right angles to it. -/
theorem dotProduct_mulVec_skew (hskew : Sᵀ = -S) (x : Fin n → K) : S *ᵥ x ⬝ᵥ x = 0 := by
  have hopposite : S *ᵥ x ⬝ᵥ x = -(S *ᵥ x ⬝ᵥ x) := by
    calc S *ᵥ x ⬝ᵥ x = x ⬝ᵥ S *ᵥ x := dotProduct_comm _ _
      _ = Sᵀ *ᵥ x ⬝ᵥ x := by rw [dotProduct_mulVec, mulVec_transpose]
      _ = -(S *ᵥ x ⬝ᵥ x) := by rw [hskew, neg_mulVec, neg_dotProduct]
  exact self_eq_neg.mp hopposite

/-- A step across a point does not change the product with this point. -/
theorem dotProduct_step (hskew : Sᵀ = -S) (d : K) (x y : Fin n → K) :
    (y + d • S *ᵥ x) ⬝ᵥ x = y ⬝ᵥ x := by
  rw [add_dotProduct, smul_dotProduct, dotProduct_mulVec_skew hskew, smul_zero, add_zero]

/-- The product of two successive values is the square of the initial ones. -/
theorem dotProduct_grown_leapfrogGrowth (hskew : Sᵀ = -S) (h : K) (x : Fin n → K) (j : ℕ) :
    grown S h x (leapfrogGrowth (j + 1)) ⬝ᵥ grown S h x (leapfrogGrowth j) = x ⬝ᵥ x := by
  induction j with
  | zero =>
    have hstart : grown S h x (leapfrogGrowth 0) = x := grown_one
    rw [grown_leapfrogGrowth_one, dotProduct_step hskew, hstart]
  | succ j ih =>
    -- the step goes across the values `j + 1`, and the values `j` are what it starts from
    rw [grown_leapfrogGrowth_add_two, dotProduct_step hskew, dotProduct_comm, ih]

variable [LT K] [DecidableLT K] [Finiteness K] {field : VectorField K}

/-- Launched on a system with a skew-symmetric matrix, from any state that fits it and with any step
above zero, the leapfrog method never fails, and the product of two successive states is the product
of the initial state with itself. -/
theorem midpoint_keeps_product (hskew : Sᵀ = -S) (hfield : field.IsLinear S) {initial : State K}
    {x₀ : Fin n → K} (hfits : initial.orderedValues field.names = .ok (List.ofFn x₀)) {step : K}
    (hstep : IsPositive step) :
    ∃ t, (Trajectory.launch .midpoint field initial step).result = .ok t ∧
      ∃ x : ℕ → Fin n → K, x 0 = x₀ ∧
        (∀ j, t.item j = some (.ok ⟨initial.time + (j + 1 : ℕ) * step, field.names,
          List.ofFn (x (j + 1))⟩)) ∧
        ∀ j, x (j + 1) ⬝ᵥ x j = x₀ ⬝ᵥ x₀ := by
  obtain ⟨t, hlaunch, hitems⟩ := Trajectory.exists_launch_of_stages
    (launch_midpoint (M := S) hstep hfits) (advance_midpoint hfield x₀ step initial.time)
  refine ⟨t, hlaunch, fun j => grown S step x₀ (leapfrogGrowth j), grown_one, fun j => ?_,
    dotProduct_grown_leapfrogGrowth hskew step x₀⟩
  rw [hitems, leapfrogRun, Run.state_after]

/-- The oscillator `x' = v`, `v' = -x` from `(3, 4)` with the step `1/2`: the product of two
successive states is 25. -/
theorem midpoint_keeps_product_oscillator :
    let field := VectorField.linear ["x", "v"] !![0, 1; -1, (0 : ℚ)]
    let initial : State ℚ := ⟨0, ["x", "v"], [3, 4]⟩
    ∃ t, (Trajectory.launch .midpoint field initial (1 / 2)).result = .ok t ∧
      ∃ x : ℕ → Fin 2 → ℚ, x 0 = ![3, 4] ∧
        (∀ j, t.item j = some (.ok ⟨0 + (j + 1 : ℕ) * (1 / 2), ["x", "v"],
          List.ofFn (x (j + 1))⟩)) ∧
        ∀ j, x (j + 1) ⬝ᵥ x j = 25 := by
  intro field initial
  have hskew : (!![0, 1; -1, (0 : ℚ)])ᵀ = -!![0, 1; -1, (0 : ℚ)] := by
    ext i j
    fin_cases i <;> fin_cases j <;> simp
  have hlinear : field.IsLinear !![0, 1; -1, (0 : ℚ)] :=
    VectorField.isLinear_linear (by decide) rfl _
  have hfits : initial.orderedValues field.names = .ok (List.ofFn ![3, (4 : ℚ)]) :=
    State.orderedValues_self hlinear.nodup rfl
  have hstep : IsPositive (1 / 2 : ℚ) := isPositive_iff.mpr (by norm_num)
  have hsquare : ![3, (4 : ℚ)] ⬝ᵥ ![3, 4] = 25 := by norm_num [dotProduct, Fin.sum_univ_two]
  have hkept := midpoint_keeps_product hskew hlinear hfits hstep
  rwa [hsquare] at hkept

end

end Fluxion.Solver

namespace Fluxion

/-! ## What the semi-implicit rule conserves

On a system `x' = S x` with a skew-symmetric matrix the exact solution keeps the square of the
length of the point.  The semi-implicit rule does not.  With `L` the part of `S` below the diagonal,
the matrix is `L - Lᵀ`, and because both halves of a step treat the variables in the same order,
either half leads from a point `u` to a point `v` with `v - h L v = u - h Lᵀ u`, where `h` is half
of the step (`IsSemiImplicitStep.halves`).  A matrix and its transpose have the same form, so both
halves keep the form `u · (u - h L u)` (`conservedForm_eq_of_half`), and so does the whole run
(`Solver.semiImplicit_keeps_form`).

For the oscillator `x' = w y`, `y' = -w x` this form is `x² + y² + h w x y`
(`Solver.semiImplicit_keeps_quadratic`).  It depends on the step and on the order of the equations.
-/

section

open Matrix

variable {K : Type} [Field K] {n : ℕ} {S : Matrix (Fin n) (Fin n) K} {h : K} {u v : Fin n → K}

/-- The form that the rule conserves on a system with a skew-symmetric matrix, when `h` is half of
the step. -/
def conservedForm (S : Matrix (Fin n) (Fin n) K) (h : K) (u : Fin n → K) : K :=
  u ⬝ᵥ (u - h • strictLower S *ᵥ u)

section Parts

variable (hskew : Sᵀ = -S)
include hskew

/-- The part above the diagonal is the negated transpose of the part below. -/
theorem strictUpper_of_skew : strictUpper S = -(strictLower S)ᵀ := by
  ext i j
  have hentry : S j i = -S i j := congrFun (congrFun hskew i) j
  rw [Matrix.neg_apply, transpose_apply, strictUpper, strictLower, of_apply, of_apply]
  split
  · rw [hentry, neg_neg]
  · rw [neg_zero]

variable [CharZero K]

/-- A skew-symmetric matrix has the diagonal zero. -/
theorem diagonal_of_skew (i : Fin n) : S i i = 0 :=
  self_eq_neg.mp (congrFun (congrFun hskew i) i)

/-- A skew-symmetric matrix is the difference of its lower part and the transpose of that. -/
theorem parts_of_skew : S = strictLower S - (strictLower S)ᵀ := by
  rw [sub_eq_add_neg, ← strictUpper_of_skew hskew]
  ext i j
  rw [Matrix.add_apply, strictLower, strictUpper, of_apply, of_apply]
  obtain hlt | rfl | hgt := lt_trichotomy i j
  · rw [if_neg hlt.not_gt, if_pos hlt, zero_add]
  · rw [if_neg (lt_irrefl i), add_zero, diagonal_of_skew hskew]
  · rw [if_pos hgt, if_neg hgt.not_gt, add_zero]

/-- Both halves of a step solve the same equation. -/
theorem IsSemiImplicitStep.halves {x y z : Fin n → K} (hstep : IsSemiImplicitStep S h x y z) :
    y - h • strictLower S *ᵥ y = x - h • (strictLower S)ᵀ *ᵥ x ∧
      z - h • strictLower S *ᵥ z = y - h • (strictLower S)ᵀ *ᵥ y := by
  have hsplit : ∀ u, S *ᵥ u = strictLower S *ᵥ u - (strictLower S)ᵀ *ᵥ u := by
    intro u
    nth_rewrite 1 [parts_of_skew hskew]
    exact sub_mulVec _ _ _
  constructor
  · nth_rewrite 1 [hstep.implicit_eq]
    rw [hsplit, strictUpper_of_skew hskew, neg_mulVec, mulVec_sub]
    module
  · nth_rewrite 1 [hstep.explicit_eq]
    rw [hsplit, mulVec_sub]
    module

end Parts

/-- Moving the lower part from one factor to the other transposes it. -/
theorem dotProduct_sub_transpose (L : Matrix (Fin n) (Fin n) K) (h : K) (u v : Fin n → K) :
    u ⬝ᵥ (v - h • Lᵀ *ᵥ v) = v ⬝ᵥ (u - h • L *ᵥ u) := by
  have htranspose : u ⬝ᵥ Lᵀ *ᵥ v = v ⬝ᵥ L *ᵥ u := by
    rw [mulVec_transpose, dotProduct_comm, ← dotProduct_mulVec]
  rw [dotProduct_sub, dotProduct_sub, dotProduct_smul, dotProduct_smul, htranspose,
    dotProduct_comm u v]

/-- A half of a step keeps the form. -/
theorem conservedForm_eq_of_half
    (hhalf : v - h • strictLower S *ᵥ v = u - h • (strictLower S)ᵀ *ᵥ u) :
    conservedForm S h v = conservedForm S h u := by
  calc v ⬝ᵥ (v - h • strictLower S *ᵥ v) = v ⬝ᵥ (u - h • (strictLower S)ᵀ *ᵥ u) := by rw [hhalf]
    _ = u ⬝ᵥ (v - h • strictLower S *ᵥ v) := dotProduct_sub_transpose _ _ _ _
    _ = u ⬝ᵥ (u - h • (strictLower S)ᵀ *ᵥ u) := by rw [hhalf]
    _ = u ⬝ᵥ (u - h • strictLower S *ᵥ u) := dotProduct_sub_transpose _ _ _ _

namespace Solver

/-- On a system with a skew-symmetric matrix the rule never fails, whatever the step, and all states
have the same form as the initial one. -/
theorem semiImplicit_keeps_form [CharZero K] [LT K] [DecidableLT K] [Finiteness K]
    (hskew : Sᵀ = -S) {field : VectorField K} (hfield : field.IsLinear S)
    (hdiagonal : field.HasDiagonal S) {newton : NewtonSettings K} {step : K}
    (hnewton : newton.SolvesAffine step) (hstep : IsPositive step) {initial : State K}
    {x₀ : Fin n → K} (hfits : initial.orderedValues field.names = .ok (List.ofFn x₀)) :
    ∃ t, (Trajectory.launch (.semiImplicit newton) field initial step).result = .ok t ∧
      ∃ x : ℕ → Fin n → K, x 0 = x₀ ∧
        (∀ j, t.item j = some (.ok ⟨initial.time + (j + 1 : ℕ) * step, field.names,
          List.ofFn (x (j + 1))⟩)) ∧
        ∀ j, conservedForm S (step / 2) (x j) = conservedForm S (step / 2) x₀ := by
  have hslope : ∀ i, 1 - step / 2 * S i i ≠ 0 := by
    intro i
    rw [diagonal_of_skew hskew, mul_zero, sub_zero]
    exact one_ne_zero
  obtain ⟨t, ht, x, hstart, hitems, hsteps⟩ :=
    exists_launch_semiImplicit hfield hdiagonal hnewton hstep hslope hfits
  refine ⟨t, ht, x, hstart, hitems, fun j => ?_⟩
  induction j with
  | zero => rw [hstart]
  | succ j ih =>
    obtain ⟨y, hy⟩ := hsteps j
    obtain ⟨hfirst, hsecond⟩ := hy.halves hskew
    rw [conservedForm_eq_of_half hsecond, conservedForm_eq_of_half hfirst, ih]

/-- The matrix of the oscillator `x' = w y`, `y' = -w x`. -/
def oscillator (w : K) : Matrix (Fin 2) (Fin 2) K := !![0, w; -w, 0]

/-- The matrix of the oscillator is skew-symmetric. -/
theorem transpose_oscillator (w : K) : (oscillator w)ᵀ = -oscillator w := by
  ext i j
  fin_cases i <;> fin_cases j <;> simp [oscillator]

/-- Below the diagonal of the oscillator stands the second equation. -/
theorem strictLower_oscillator (w : K) : strictLower (oscillator w) = !![0, 0; -w, 0] := by
  ext i j
  fin_cases i <;> fin_cases j <;> simp [strictLower, oscillator]

/-- The conserved form of the oscillator, written out. -/
theorem conservedForm_oscillator (w h x y : K) :
    conservedForm (oscillator w) h ![x, y] = x ^ 2 + y ^ 2 + h * w * x * y := by
  rw [conservedForm, strictLower_oscillator]
  simp only [cons_mulVec, cons_dotProduct, dotProduct_of_isEmpty, smul_cons, sub_cons, head_cons,
    tail_cons, smul_eq_mul]
  ring

/-- On the oscillator `x' = w y`, `y' = -w x`, whatever the frequency and the initial values, the
rule never fails with settings that make sense and allow two corrections, whatever the step above
zero, and all states have the same value of `x² + y² + (w * step / 2) x y`. -/
theorem semiImplicit_keeps_quadratic [LinearOrder K] [IsStrictOrderedRing K] [Finiteness K] (w : K)
    {field : VectorField K} (hfield : field.IsLinear (oscillator w))
    (hdiagonal : field.HasDiagonal (oscillator w)) {newton : NewtonSettings K}
    (hnewton : newton.check = .ok ()) (hcap : 2 ≤ newton.maxIterations) {step : K}
    (hstep : IsPositive step) {initial : State K} {x₀ y₀ : K}
    (hfits : initial.orderedValues field.names = .ok [x₀, y₀]) :
    ∃ t, (Trajectory.launch (.semiImplicit newton) field initial step).result = .ok t ∧
      ∃ x y : ℕ → K, x 0 = x₀ ∧ y 0 = y₀ ∧
        (∀ n, t.item n = some (.ok ⟨initial.time + (n + 1 : ℕ) * step, field.names,
          [x (n + 1), y (n + 1)]⟩)) ∧
        ∀ n, x n ^ 2 + y n ^ 2 + w * step / 2 * x n * y n =
          x₀ ^ 2 + y₀ ^ 2 + w * step / 2 * x₀ * y₀ := by
  have hpositive : 0 < step := by
    have hzero := hstep.1
    rwa [zero_eq] at hzero
  have hpair₀ : initial.orderedValues field.names = .ok (List.ofFn ![x₀, y₀]) := hfits
  obtain ⟨t, ht, u, hstart, hitems, hform⟩ := semiImplicit_keeps_form (transpose_oscillator w)
    hfield hdiagonal (NewtonSettings.solvesAffine_of_check hnewton (.inl hcap) hpositive) hstep
    hpair₀
  have hpair : ∀ n, u n = ![u n 0, u n 1] := fun n => List.ofFn_inj.mp rfl
  refine ⟨t, ht, fun n => u n 0, fun n => u n 1, congrFun hstart 0, congrFun hstart 1, hitems,
    fun n => ?_⟩
  have hkept := hform n
  rw [hpair n, conservedForm_oscillator, conservedForm_oscillator] at hkept
  linear_combination hkept

/-- The oscillator with the frequency 2 from `(3, 4)` with the step `1/2`, under settings that fail
unless the iteration comes to rest: all states have the value 31. -/
theorem semiImplicit_keeps_quadratic_frequencyTwo :
    let newton : NewtonSettings ℚ := ⟨2, 1, .fail⟩
    let field := VectorField.linear ["x", "y"] (oscillator (2 : ℚ))
    ∃ t, (Trajectory.launch (.semiImplicit newton) field ⟨0, ["x", "y"], [3, 4]⟩ (1 / 2)).result =
        .ok t ∧
      ∃ x y : ℕ → ℚ, x 0 = 3 ∧ y 0 = 4 ∧
        (∀ n, t.item n = some (.ok ⟨0 + (n + 1 : ℕ) * (1 / 2), ["x", "y"],
          [x (n + 1), y (n + 1)]⟩)) ∧
        ∀ n, x n ^ 2 + y n ^ 2 + 2 * (1 / 2) / 2 * x n * y n = 31 := by
  intro newton field
  have hlinear : field.IsLinear (oscillator 2) := VectorField.isLinear_linear (by decide) rfl _
  have hfits : (State.mk 0 ["x", "y"] [3, (4 : ℚ)]).orderedValues field.names = .ok [3, 4] :=
    State.orderedValues_self hlinear.nodup rfl
  have hstep : IsPositive (1 / 2 : ℚ) := isPositive_iff.mpr (by norm_num)
  have hvalue : (3 : ℚ) ^ 2 + 4 ^ 2 + 2 * (1 / 2) / 2 * 3 * 4 = 31 := by norm_num
  have hnewton : newton.check = .ok () := rfl
  have hkept := semiImplicit_keeps_quadratic 2 hlinear (VectorField.hasDiagonal_linear _ _)
    hnewton le_rfl hstep hfits
  rwa [hvalue] at hkept

end Solver

end

end Fluxion
