import Fluxion.Proofs.Solver.SemiImplicitStep
import Fluxion.Proofs.Solver.TaylorOrder

/-!
# The order of the semi-implicit rule

The rule declares the order two.  On a linear system with the matrix `M`, whose parts below and
above the diagonal are `L` and `U`, a step of length `d` from `x` gives the Taylor polynomial of
order two and the term `d² / 4 * (L - U) * M * x` besides, up to a multiple of `d³`
(`abs_defect_sub_le`).  This term is there because both halves of the step treat the variables in
the same order; a second half in the opposite order would cancel it.

Hence the rule has the order two at `x` exactly if `(L - U) * M * x` is zero
(`semiImplicit_secondOrder_iff`), as it is for every system of one variable or with a diagonal
matrix, but not for two variables that drive each other.
-/

set_option autoImplicit false

namespace Fluxion

open Matrix

variable {n : ℕ}

section Defect

variable {K : Type} [Field K] {M : Matrix (Fin n) (Fin n) K} {x y z : Fin n → K} {h : K}

/-- What is left of a step once the terms up to the square of its half are taken out, divided by
that square; `u` and `w` are the increments of the halves. -/
def remainder (M : Matrix (Fin n) (Fin n) K) (u w : Fin n → K) : Fin n → K :=
  (M - strictUpper M) *ᵥ (M - strictUpper M) *ᵥ u + M *ᵥ (M - strictUpper M) *ᵥ u +
    strictLower M *ᵥ M *ᵥ u + strictLower M *ᵥ strictLower M *ᵥ w

/-- The first half moves by the rates at the start, corrected for the variables that it has already
moved and for its own. -/
theorem IsSemiImplicitStep.first_increment (hstep : IsSemiImplicitStep M h x y z) :
    y - x = h • (M *ᵥ x + (M - strictUpper M) *ᵥ (y - x)) := by
  nth_rewrite 1 [hstep.implicit_eq]
  rw [sub_mulVec, mulVec_sub M]
  module

/-- The second half moves by the rates at its start, corrected for the variables that it has already
moved. -/
theorem IsSemiImplicitStep.second_increment (hstep : IsSemiImplicitStep M h x y z) :
    z - y = h • (M *ᵥ x + M *ᵥ (y - x) + strictLower M *ᵥ (z - y)) := by
  nth_rewrite 1 [hstep.explicit_eq]
  rw [mulVec_sub M]
  module

/-- The Taylor polynomial of the order two, applied to a point. -/
theorem taylor_two_mulVec (A : Matrix (Fin n) (Fin n) K) (x : Fin n → K) :
    Solver.taylor 2 A *ᵥ x = x + A *ᵥ x + (2 : K)⁻¹ • A *ᵥ A *ᵥ x := by
  rw [Solver.taylor, Finset.sum_range_succ, Finset.sum_range_succ, Finset.sum_range_one]
  simp [add_mulVec, smul_mulVec, pow_two, mulVec_mulVec]

/-- The increments of the halves add up to the first two terms of the Taylor polynomial, a term in
the difference of the parts, and the remainder. -/
theorem increments_eq {a u w : Fin n → K} (hu : u = h • (a + (M - strictUpper M) *ᵥ u))
    (hw : w = h • (a + M *ᵥ u + strictLower M *ᵥ w)) :
    u + w = (2 * h) • a + (2 * h ^ 2) • M *ᵥ a +
      h ^ 2 • (strictLower M - strictUpper M) *ᵥ a + h ^ 2 • remainder M u w := by
  -- each half once more within itself
  have hTu := congrArg ((M - strictUpper M) *ᵥ ·) hu
  have hMu := congrArg (M *ᵥ ·) hu
  have hLw := congrArg (strictLower M *ᵥ ·) hw
  simp only [mulVec_smul, mulVec_add] at hTu hMu hLw
  funext i
  have hui := congrFun hu i
  have hwi := congrFun hw i
  have hTui := congrFun hTu i
  have hMui := congrFun hMu i
  have hLwi := congrFun hLw i
  have hTa : ((M - strictUpper M) *ᵥ a) i = (M *ᵥ a) i - (strictUpper M *ᵥ a) i := by
    rw [sub_mulVec, Pi.sub_apply]
  have hLa : ((strictLower M - strictUpper M) *ᵥ a) i =
      (strictLower M *ᵥ a) i - (strictUpper M *ᵥ a) i := by
    rw [sub_mulVec, Pi.sub_apply]
  simp only [remainder, Pi.add_apply, Pi.smul_apply, smul_eq_mul] at hui hwi hTui hMui hLwi ⊢
  linear_combination hui + hwi + h * (hTui + hMui + hLwi) + h ^ 2 * (hTa - hLa)

/-- What a step gives, compared to the Taylor polynomial of order two. -/
theorem step_eq [CharZero K] (hstep : IsSemiImplicitStep M h x y z) :
    z = Solver.taylor 2 ((2 * h) • M) *ᵥ x + h ^ 2 • (strictLower M - strictUpper M) *ᵥ M *ᵥ x +
      h ^ 2 • remainder M (y - x) (z - y) := by
  have hsum := increments_eq hstep.first_increment hstep.second_increment
  have htwo : (2 : K)⁻¹ * (2 * h * (2 * h)) = 2 * h ^ 2 := by
    field_simp
  calc z = x + (y - x + (z - y)) := by abel
    _ = _ := by
        rw [hsum, taylor_two_mulVec]
        simp only [smul_mulVec, mulVec_smul, smul_smul, htwo]
        abel

end Defect

section Sizes

/-- The sum of the absolute values of the coordinates. -/
def absSum (v : Fin n → ℚ) : ℚ := ∑ i, |v i|

/-- The sum of the absolute values of the entries. -/
def absEntries (M : Matrix (Fin n) (Fin n) ℚ) : ℚ := ∑ i, ∑ j, |M i j|

/-- A coordinate is at most the sum of all absolute values. -/
theorem abs_le_absSum (v : Fin n → ℚ) (i : Fin n) : |v i| ≤ absSum v :=
  Finset.single_le_sum (fun j _ => abs_nonneg (v j)) (Finset.mem_univ i)

/-- The sum of the absolute values of a vector is not negative. -/
theorem absSum_nonneg (v : Fin n → ℚ) : 0 ≤ absSum v :=
  Finset.sum_nonneg fun i _ => abs_nonneg (v i)

/-- The sum of the absolute values of a matrix is not negative. -/
theorem absEntries_nonneg (M : Matrix (Fin n) (Fin n) ℚ) : 0 ≤ absEntries M :=
  Finset.sum_nonneg fun i _ => Finset.sum_nonneg fun j _ => abs_nonneg (M i j)

/-- The sum of the absolute values satisfies the triangle inequality. -/
theorem absSum_add_le (v w : Fin n → ℚ) : absSum (v + w) ≤ absSum v + absSum w := by
  rw [absSum, absSum, absSum, ← Finset.sum_add_distrib]
  exact Finset.sum_le_sum fun i _ => abs_add_le (v i) (w i)

/-- A factor that is not negative can be taken out of the sum of the absolute values. -/
theorem absSum_smul {h : ℚ} (hh : 0 ≤ h) (v : Fin n → ℚ) : absSum (h • v) = h * absSum v := by
  rw [absSum, absSum, Finset.mul_sum]
  refine Finset.sum_congr rfl fun i _ => ?_
  rw [Pi.smul_apply, smul_eq_mul, abs_mul, abs_of_nonneg hh]

/-- A matrix whose entries are no larger than those of `M` makes vectors no larger than `M` can. -/
theorem absSum_mulVec_le {A M : Matrix (Fin n) (Fin n) ℚ} (hA : ∀ i j, |A i j| ≤ |M i j|)
    (v : Fin n → ℚ) : absSum (A *ᵥ v) ≤ absEntries M * absSum v := by
  rw [absEntries, Finset.sum_mul, absSum]
  refine Finset.sum_le_sum fun i _ => ?_
  calc |(A *ᵥ v) i| ≤ ∑ j, |A i j * v j| := Finset.abs_sum_le_sum_abs _ _
    _ ≤ ∑ j, |M i j| * absSum v := by
        refine Finset.sum_le_sum fun j _ => ?_
        rw [abs_mul]
        exact mul_le_mul (hA i j) (abs_le_absSum v j) (abs_nonneg _) (abs_nonneg _)
    _ = (∑ j, |M i j|) * absSum v := (Finset.sum_mul _ _ _).symm

variable {M : Matrix (Fin n) (Fin n) ℚ} {x y z : Fin n → ℚ} {h : ℚ}

/-- Taking the part below the diagonal enlarges no entry. -/
theorem abs_strictLower_le (i j : Fin n) : |strictLower M i j| ≤ |M i j| := by
  rw [strictLower, of_apply]
  split
  · exact le_rfl
  · exact abs_zero.trans_le (abs_nonneg _)

/-- Leaving out the part above the diagonal enlarges no entry. -/
theorem abs_sub_strictUpper_le (i j : Fin n) : |(M - strictUpper M) i j| ≤ |M i j| := by
  rw [Matrix.sub_apply, strictUpper, of_apply]
  split
  · rw [sub_self]
    exact abs_zero.trans_le (abs_nonneg _)
  · rw [sub_zero]

/-- For small steps the first half moves by a multiple of the step. -/
theorem absSum_first_increment_le (hh : 0 ≤ h) (hsmall : h * absEntries M ≤ 1 / 2)
    (hstep : IsSemiImplicitStep M h x y z) :
    absSum (y - x) ≤ 2 * h * absSum (M *ᵥ x) := by
  have hle : absSum (y - x) ≤ h * (absSum (M *ᵥ x) + absEntries M * absSum (y - x)) := by
    nth_rewrite 1 [hstep.first_increment]
    rw [absSum_smul hh]
    refine mul_le_mul_of_nonneg_left ((absSum_add_le _ _).trans ?_) hh
    exact add_le_add_right (absSum_mulVec_le abs_sub_strictUpper_le _) _
  have hrest := mul_le_mul_of_nonneg_right hsmall (absSum_nonneg (y - x))
  linarith

/-- For small steps the second half moves by a multiple of the step. -/
theorem absSum_second_increment_le (hh : 0 ≤ h) (hsmall : h * absEntries M ≤ 1 / 2)
    (hstep : IsSemiImplicitStep M h x y z) :
    absSum (z - y) ≤ 4 * h * absSum (M *ᵥ x) := by
  have hfirst := absSum_first_increment_le hh hsmall hstep
  have hle : absSum (z - y) ≤ h * (absSum (M *ᵥ x) + absEntries M * absSum (y - x) +
      absEntries M * absSum (z - y)) := by
    nth_rewrite 1 [hstep.second_increment]
    rw [absSum_smul hh]
    refine mul_le_mul_of_nonneg_left ((absSum_add_le _ _).trans ?_) hh
    refine add_le_add ((absSum_add_le _ _).trans ?_) (absSum_mulVec_le abs_strictLower_le _)
    exact add_le_add_right (absSum_mulVec_le (fun _ _ => le_rfl) _) _
  have hmiddle := mul_le_mul_of_nonneg_right hsmall (absSum_nonneg (y - x))
  have hrest := mul_le_mul_of_nonneg_right hsmall (absSum_nonneg (z - y))
  linarith

/-- The remainder is of the size of the increments. -/
theorem absSum_remainder_le (u w : Fin n → ℚ) :
    absSum (remainder M u w) ≤ absEntries M ^ 2 * (3 * absSum u + absSum w) := by
  have htwice {A B : Matrix (Fin n) (Fin n) ℚ} (hA : ∀ i j, |A i j| ≤ |M i j|)
      (hB : ∀ i j, |B i j| ≤ |M i j|) (v : Fin n → ℚ) :
      absSum (A *ᵥ B *ᵥ v) ≤ absEntries M ^ 2 * absSum v := by
    calc absSum (A *ᵥ B *ᵥ v) ≤ absEntries M * absSum (B *ᵥ v) := absSum_mulVec_le hA _
      _ ≤ absEntries M * (absEntries M * absSum v) :=
          mul_le_mul_of_nonneg_left (absSum_mulVec_le hB v) (absEntries_nonneg M)
      _ = absEntries M ^ 2 * absSum v := by ring
  have hself : ∀ i j, |M i j| ≤ |M i j| := fun _ _ => le_rfl
  have h1 := htwice abs_sub_strictUpper_le abs_sub_strictUpper_le u
  have h2 := htwice hself abs_sub_strictUpper_le u
  have h3 := htwice abs_strictLower_le hself u
  have h4 := htwice abs_strictLower_le abs_strictLower_le w
  have hsum : absSum (remainder M u w) ≤ _ :=
    (absSum_add_le _ _).trans (add_le_add_left ((absSum_add_le _ _).trans
      (add_le_add_left (absSum_add_le _ _) _)) _)
  linarith

/-- For a small step, a step is the Taylor polynomial of order two and a term in the square of the
step, up to a multiple of the cube. -/
theorem abs_defect_sub_le (hh : 0 ≤ h) (hsmall : h * absEntries M ≤ 1 / 2)
    (hstep : IsSemiImplicitStep M h x y z) (i : Fin n) :
    |z i - (Solver.taylor 2 ((2 * h) • M) *ᵥ x) i -
        h ^ 2 * ((strictLower M - strictUpper M) *ᵥ M *ᵥ x) i| ≤
      10 * absEntries M ^ 2 * absSum (M *ᵥ x) * h ^ 3 := by
  have hvalue := congrFun (step_eq hstep) i
  have hdefect : z i - (Solver.taylor 2 ((2 * h) • M) *ᵥ x) i -
      h ^ 2 * ((strictLower M - strictUpper M) *ᵥ M *ᵥ x) i =
        h ^ 2 * remainder M (y - x) (z - y) i := by
    rw [Pi.add_apply, Pi.add_apply, Pi.smul_apply, Pi.smul_apply, smul_eq_mul,
      smul_eq_mul] at hvalue
    linear_combination hvalue
  have hfirst := absSum_first_increment_le hh hsmall hstep
  have hsecond := absSum_second_increment_le hh hsmall hstep
  have hremainder : |remainder M (y - x) (z - y) i| ≤
      absEntries M ^ 2 * (10 * h * absSum (M *ᵥ x)) := by
    refine (abs_le_absSum _ i).trans ((absSum_remainder_le _ _).trans ?_)
    exact mul_le_mul_of_nonneg_left (by linarith) (sq_nonneg _)
  calc _ = h ^ 2 * |remainder M (y - x) (z - y) i| := by
        rw [hdefect, abs_mul, abs_of_nonneg (sq_nonneg h)]
    _ ≤ h ^ 2 * (absEntries M ^ 2 * (10 * h * absSum (M *ᵥ x))) :=
        mul_le_mul_of_nonneg_left hremainder (sq_nonneg h)
    _ = 10 * absEntries M ^ 2 * absSum (M *ᵥ x) * h ^ 3 := by ring

/-- An entry is at most the sum of all absolute values. -/
theorem abs_entry_le (i j : Fin n) : |M i j| ≤ absEntries M :=
  (Finset.single_le_sum (fun j _ => abs_nonneg (M i j)) (Finset.mem_univ j)).trans
    (Finset.single_le_sum (f := fun i => ∑ j, |M i j|)
      (fun i _ => Finset.sum_nonneg fun j _ => abs_nonneg (M i j)) (Finset.mem_univ i))

/-- No slope is zero for a small step. -/
theorem slope_ne_zero (hh : 0 ≤ h) (hsmall : h * absEntries M ≤ 1 / 2) (i : Fin n) :
    1 - h * M i i ≠ 0 := by
  have hentry := mul_le_mul_of_nonneg_left ((le_abs_self (M i i)).trans (abs_entry_le i i)) hh
  linarith

end Sizes

section Order

variable {field : VectorField ℚ} {M : Matrix (Fin n) (Fin n) ℚ} {newton : NewtonSettings ℚ}
  {initial : State ℚ} {x : Fin n → ℚ}

/-- As far as no slope is zero, the first state that a solver gives from the values `x` on a system
with the matrix `M` agrees with the Taylor polynomial of order two up to a multiple of the cube of
the step, for all small steps. -/
def AgreesToSecondOrder (s : Solver ℚ) (field : VectorField ℚ) (M : Matrix (Fin n) (Fin n) ℚ)
    (initial : State ℚ) (x : Fin n → ℚ) : Prop :=
  ∃ bound small : ℚ, 0 < small ∧ ∀ delta, 0 < delta → delta < small →
    (∀ i, 1 - delta / 2 * M i i ≠ 0) →
    ∃ t z, (Trajectory.launch s field initial delta).result = .ok t ∧
      t.item 0 = some (.ok ⟨initial.time + delta, field.names, List.ofFn z⟩) ∧
      ∀ i, |z i - (Solver.taylor 2 (delta • M) *ᵥ x) i| ≤ bound * delta ^ 3

/-- The rule gives a first state for every step for which no slope is zero. -/
theorem exists_first_semiImplicit (hfield : field.IsLinear M) (hdiagonal : field.HasDiagonal M)
    (hnewton : newton.SufficesForLinear)
    (hfits : initial.orderedValues field.names = .ok (List.ofFn x)) {delta : ℚ} (hdelta : 0 < delta)
    (hslope : ∀ i, 1 - delta / 2 * M i i ≠ 0) :
    ∃ t y z, (Trajectory.launch (.semiImplicit newton) field initial delta).result = .ok t ∧
      t.item 0 = some (.ok ⟨initial.time + delta, field.names, List.ofFn z⟩) ∧
      IsSemiImplicitStep M (delta / 2) x y z := by
  obtain ⟨t, ht, u, rfl, hitems, hsteps⟩ := Solver.exists_launch_semiImplicit hfield hdiagonal
    (hnewton.solvesAffine hdelta) (isPositive_iff.mpr hdelta) hslope hfits
  obtain ⟨y, hstep⟩ := hsteps 0
  refine ⟨t, y, u 1, ht, ?_, hstep⟩
  rw [hitems, Nat.zero_add, Nat.cast_one, one_mul]

/-- The bound of a step, by its length. -/
theorem abs_first_sub_le {delta : ℚ} {y z : Fin n → ℚ} (hdelta : 0 < delta)
    (hsmall : delta * absEntries M ≤ 1) (hstep : IsSemiImplicitStep M (delta / 2) x y z)
    (i : Fin n) :
    |z i - (Solver.taylor 2 (delta • M) *ᵥ x) i -
        delta ^ 2 / 4 * ((strictLower M - strictUpper M) *ᵥ M *ᵥ x) i| ≤
      5 / 4 * absEntries M ^ 2 * absSum (M *ᵥ x) * delta ^ 3 := by
  have hbound := abs_defect_sub_le (by linarith) (by linarith) hstep i
  rw [show 2 * (delta / 2) = delta by ring, show (delta / 2) ^ 2 = delta ^ 2 / 4 by ring] at hbound
  refine hbound.trans_eq ?_
  ring

/-- There are steps that are as small as is asked for. -/
theorem exists_small_step {small b c e : ℚ} (hsmall : 0 < small) (hb : 0 ≤ b) (hc : 0 ≤ c)
    (he : 0 < e) : ∃ delta, 0 < delta ∧ delta < small ∧ delta * b ≤ 1 ∧ c * delta < e := by
  have hmin : 0 < min small (min (1 / (b + 1)) (e / (c + 1))) := by positivity
  obtain ⟨delta, hpos, hlt⟩ := exists_between hmin
  rw [lt_min_iff, lt_min_iff, lt_div_iff₀ (by positivity), lt_div_iff₀ (by positivity)] at hlt
  refine ⟨delta, hpos, hlt.1, ?_, ?_⟩
  · linarith [hlt.2.1]
  · linarith [hlt.2.2]

/-- Without the term in the square of the step the rule has the order two. -/
theorem agrees_of_eq_zero (hfield : field.IsLinear M) (hdiagonal : field.HasDiagonal M)
    (hnewton : newton.SufficesForLinear)
    (hfits : initial.orderedValues field.names = .ok (List.ofFn x))
    (hzero : (strictLower M - strictUpper M) *ᵥ M *ᵥ x = 0) :
    AgreesToSecondOrder (.semiImplicit newton) field M initial x := by
  have hpos : 0 < absEntries M + 1 := by linarith [absEntries_nonneg M]
  refine ⟨5 / 4 * absEntries M ^ 2 * absSum (M *ᵥ x), 1 / (absEntries M + 1), by positivity,
    fun delta hdelta hlt hslope => ?_⟩
  obtain ⟨t, y, z, hlaunch, hitem, hstep⟩ :=
    exists_first_semiImplicit hfield hdiagonal hnewton hfits hdelta hslope
  refine ⟨t, z, hlaunch, hitem, fun i => ?_⟩
  have hsmall : delta * absEntries M ≤ 1 := by
    rw [lt_div_iff₀ hpos] at hlt
    linarith
  have hbound := abs_first_sub_le hdelta hsmall hstep i
  rwa [hzero, Pi.zero_apply, mul_zero, sub_zero] at hbound

/-- With the term in the square of the step the rule has not the order two. -/
theorem eq_zero_of_agrees (hfield : field.IsLinear M) (hdiagonal : field.HasDiagonal M)
    (hnewton : newton.SufficesForLinear)
    (hfits : initial.orderedValues field.names = .ok (List.ofFn x))
    (hagrees : AgreesToSecondOrder (.semiImplicit newton) field M initial x) :
    (strictLower M - strictUpper M) *ᵥ M *ᵥ x = 0 := by
  obtain ⟨bound, small, hsmall, hstates⟩ := hagrees
  set d := (strictLower M - strictUpper M) *ᵥ M *ᵥ x with hd
  set c := 5 / 4 * absEntries M ^ 2 * absSum (M *ᵥ x) with hc
  have hc_nonneg : 0 ≤ c := by
    have hsum := absSum_nonneg (M *ᵥ x)
    positivity
  funext i
  by_contra hne
  -- a step so short that the term in its square exceeds all that is of the order of its cube
  obtain ⟨delta, hdelta, hlt, hweight, hshort⟩ := exists_small_step (c := 4 * (|bound| + c)) hsmall
    (absEntries_nonneg M) (by positivity) (abs_pos.mpr hne)
  have hslope := slope_ne_zero (M := M) (h := delta / 2) (by linarith) (by linarith)
  obtain ⟨t, z, hlaunch, hitem, hclose⟩ := hstates delta hdelta hlt hslope
  obtain ⟨t', y, z', hlaunch', hitem', hstep⟩ :=
    exists_first_semiImplicit hfield hdiagonal hnewton hfits hdelta hslope
  obtain rfl : t = t' := Except.ok.inj (hlaunch.symm.trans hlaunch')
  obtain rfl : z = z' := by
    have hstate := Except.ok.inj (Option.some.inj (hitem.symm.trans hitem'))
    exact List.ofFn_injective (State.mk.inj hstate).2.2
  have hnear := abs_first_sub_le hdelta hweight hstep i
  set e := z i - (Solver.taylor 2 (delta • M) *ᵥ x) i with he
  have hterm : delta ^ 2 / 4 * |d i| ≤ (|bound| + c) * delta ^ 3 := by
    calc delta ^ 2 / 4 * |d i| = |delta ^ 2 / 4 * d i| := by
          rw [abs_mul, abs_of_nonneg (show 0 ≤ delta ^ 2 / 4 by positivity)]
      _ = |e - (e - delta ^ 2 / 4 * d i)| := by rw [sub_sub_cancel]
      _ ≤ |e| + |e - delta ^ 2 / 4 * d i| := abs_sub _ _
      _ ≤ |bound| * delta ^ 3 + c * delta ^ 3 := by
          refine add_le_add ((hclose i).trans ?_) hnear
          exact mul_le_mul_of_nonneg_right (le_abs_self bound) (by positivity)
      _ = (|bound| + c) * delta ^ 3 := by ring
  have hsquare : 0 < delta ^ 2 := by positivity
  have hcontra := mul_lt_mul_of_pos_left hshort hsquare
  linarith

/-- On a linear system the semi-implicit rule has its order two at those points, and only at those,
where the parts of the matrix below and above the diagonal do the same to the derivative. -/
theorem semiImplicit_secondOrder_iff (hfield : field.IsLinear M) (hdiagonal : field.HasDiagonal M)
    (hnewton : newton.SufficesForLinear)
    (hfits : initial.orderedValues field.names = .ok (List.ofFn x)) :
    AgreesToSecondOrder (.semiImplicit newton) field M initial x ↔
      (strictLower M - strictUpper M) *ᵥ M *ᵥ x = 0 :=
  ⟨eq_zero_of_agrees hfield hdiagonal hnewton hfits,
    agrees_of_eq_zero hfield hdiagonal hnewton hfits⟩

/-- The usual settings of Newton's iteration, in exact numbers. -/
def exactNewton : NewtonSettings ℚ := ⟨15, 1 / 10 ^ 12, .warn⟩

/-- The settings of the exact iteration suffice for linear systems. -/
theorem sufficesForLinear_exactNewton : exactNewton.SufficesForLinear where
  check_eq := NewtonSettings.check_eq_ok_iff.mpr ⟨by decide, by norm_num [exactNewton]⟩
  enough := .inl (by decide)

/-- The rule has the order two for exponential decay and does not have it for an oscillator. -/
theorem semiImplicit_decay_oscillator :
    AgreesToSecondOrder (.semiImplicit exactNewton) (.linear ["x"] !![-1]) !![-1]
      ⟨0, ["x"], [1]⟩ ![1] ∧
    ¬ AgreesToSecondOrder (.semiImplicit exactNewton) (.linear ["x", "v"] !![0, 1; -1, 0])
      !![0, 1; -1, 0] ⟨0, ["x", "v"], [1, 0]⟩ ![1, 0] := by
  constructor
  · have hlinear : (VectorField.linear ["x"] !![(-1 : ℚ)]).IsLinear !![-1] :=
      VectorField.isLinear_linear (by decide) rfl _
    have hfits : (State.mk 0 ["x"] [(1 : ℚ)]).orderedValues ["x"] = .ok (List.ofFn ![1]) :=
      State.orderedValues_self (by decide) rfl
    have hparts : strictLower !![(-1 : ℚ)] - strictUpper !![-1] = 0 := by
      ext i j
      fin_cases i
      fin_cases j
      simp [strictLower, strictUpper]
    refine (semiImplicit_secondOrder_iff hlinear (VectorField.hasDiagonal_linear _ _)
      sufficesForLinear_exactNewton hfits).mpr ?_
    rw [hparts, zero_mulVec]
  · have hlinear : (VectorField.linear ["x", "v"] !![0, (1 : ℚ); -1, 0]).IsLinear !![0, 1; -1, 0] :=
      VectorField.isLinear_linear (by decide) rfl _
    have hfits : (State.mk 0 ["x", "v"] [(1 : ℚ), 0]).orderedValues ["x", "v"] =
        .ok (List.ofFn ![1, 0]) := State.orderedValues_self (by decide) rfl
    intro hagrees
    have hzero := (semiImplicit_secondOrder_iff hlinear (VectorField.hasDiagonal_linear _ _)
      sufficesForLinear_exactNewton hfits).mp hagrees
    have hfirst := congrFun hzero 0
    simp [strictLower, strictUpper, mulVec, dotProduct, Fin.sum_univ_two] at hfirst

/-- For the chain `x' = y`, `y' = z`, `z' = 0` from `(0, 0, 1)`, where the Taylor polynomial of
order two is the exact solution, the rule does not have the order two. -/
theorem not_agrees_chain :
    ¬ AgreesToSecondOrder (.semiImplicit exactNewton)
      (.linear ["x", "y", "z"] !![0, 1, 0; 0, 0, 1; 0, 0, 0]) !![0, 1, 0; 0, 0, 1; 0, 0, 0]
      ⟨0, ["x", "y", "z"], [0, 0, 1]⟩ ![0, 0, 1] := by
  have hlinear : (VectorField.linear ["x", "y", "z"] !![0, (1 : ℚ), 0; 0, 0, 1; 0, 0, 0]).IsLinear
      !![0, 1, 0; 0, 0, 1; 0, 0, 0] := VectorField.isLinear_linear (by decide) rfl _
  have hfits : (State.mk 0 ["x", "y", "z"] [(0 : ℚ), 0, 1]).orderedValues ["x", "y", "z"] =
      .ok (List.ofFn ![0, 0, 1]) := State.orderedValues_self (by decide) rfl
  intro hagrees
  have hzero := eq_zero_of_agrees hlinear (VectorField.hasDiagonal_linear _ _)
    sufficesForLinear_exactNewton hfits hagrees
  have hfirst := congrFun hzero 0
  simp [strictLower, strictUpper, mulVec, dotProduct, Fin.sum_univ_three] at hfirst

end Order

end Fluxion
