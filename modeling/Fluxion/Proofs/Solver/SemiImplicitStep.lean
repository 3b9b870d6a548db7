import Fluxion.Proofs.Solver.AffineCorrection
import Fluxion.Proofs.Solver.Linear

/-!
# One step of the semi-implicit rule on a linear system

Both halves of a step sweep over the variables in order: while the `i`-th variable is treated, those
before it have their new values and the others still have their old ones (`swept`).  So the first
half solves a system with a lower triangular matrix, diagonal included, and the second half one with
a strictly lower triangular matrix (`implicitHalf_ofFn`, `explicitHalf_ofFn`).  Both have a
solution, the first as long as none of the slopes of Newton's iteration is zero
(`exists_isSemiImplicitStep`).

The component of a variable is affine in this variable, so that Newton's iteration solves its
equation exactly (`VectorField.IsLinear.isAffineIn`).
-/

set_option autoImplicit false

namespace Fluxion

open Matrix

variable {K : Type} [Field K] {n : ℕ}

/-- The entries below the diagonal. -/
def strictLower (M : Matrix (Fin n) (Fin n) K) : Matrix (Fin n) (Fin n) K :=
  of fun i j => if j < i then M i j else 0

/-- The entries above the diagonal. -/
def strictUpper (M : Matrix (Fin n) (Fin n) K) : Matrix (Fin n) (Fin n) K :=
  of fun i j => if i < j then M i j else 0

/-- The equations of a step of length `2 * h` from `x`, whose first half leads to `y` and whose
second half leads to `z`. -/
structure IsSemiImplicitStep (M : Matrix (Fin n) (Fin n) K) (h : K) (x y z : Fin n → K) : Prop where
  implicit_eq : y = x + h • (M *ᵥ y - strictUpper M *ᵥ (y - x))
  explicit_eq : z = y + h • (M *ᵥ y + strictLower M *ᵥ (z - y))

section Sweeping

variable {α : Type} {new old : Fin n → α}

/-- The new values of the first `m` variables and the old values of the others. -/
def swept (new old : Fin n → α) (m : ℕ) : Fin n → α := fun j => if (j : ℕ) < m then new j else old j

/-- Behind the last variable all values are new. -/
theorem swept_all : swept new old n = new := funext fun j => if_pos j.isLt

/-- The next variable still has its old value. -/
theorem swept_apply (i : Fin n) : swept new old i i = old i := if_neg (lt_irrefl _)

/-- The variable treated last has its new value. -/
theorem swept_succ_apply (i : Fin n) : swept new old (i + 1) i = new i :=
  if_pos (Nat.lt_succ_self _)

/-- Treating one more variable overwrites its value only. -/
theorem swept_succ (i : Fin n) :
    swept new old (i + 1) = Function.update (swept new old i) i (new i) := by
  funext j
  by_cases hij : j = i
  · rw [hij, swept_succ_apply, Function.update_self]
  · have hne : (j : ℕ) ≠ i := fun h => hij (Fin.ext h)
    rw [Function.update_of_ne hij]
    refine if_congr ?_ rfl rfl
    omega

/-- Overwriting a cell of a vector written as a row is overwriting its coordinate. -/
theorem set_ofFn (x : Fin n → α) (i : Fin n) (v : α) :
    (List.ofFn x).set i v = List.ofFn (Function.update x i v) := by
  refine List.ext_getElem (by simp) fun j hj hj' => ?_
  rw [List.getElem_set, List.getElem_ofFn, List.getElem_ofFn, Function.update_apply]
  exact if_congr (by rw [Fin.ext_iff, eq_comm]) rfl rfl

/-- Setting one more variable to its new value. -/
theorem set_swept (i : Fin n) :
    (List.ofFn (swept new old i)).set i (new i) = List.ofFn (swept new old (i + 1)) := by
  rw [set_ofFn, ← swept_succ]

end Sweeping

section Rows

variable {new old : Fin n → K}

/-- Before a variable is treated, its rate sees the new values of the variables before it. -/
theorem mulVec_swept (M : Matrix (Fin n) (Fin n) K) (i : Fin n) :
    (M *ᵥ swept new old i) i = (M *ᵥ old + strictLower M *ᵥ (new - old)) i := by
  rw [Pi.add_apply, mulVec, mulVec, mulVec, dotProduct, dotProduct, dotProduct,
    ← Finset.sum_add_distrib]
  refine Finset.sum_congr rfl fun j _ => ?_
  rw [swept, strictLower, of_apply, Pi.sub_apply]
  by_cases hij : j < i
  · rw [if_pos (Fin.lt_def.mp hij), if_pos hij]
    ring
  · rw [if_neg (fun h => hij (Fin.lt_def.mpr h)), if_neg hij]
    ring

/-- Behind a variable that has been treated, its rate still sees the old values of the variables
behind it. -/
theorem mulVec_swept_succ (M : Matrix (Fin n) (Fin n) K) (i : Fin n) :
    (M *ᵥ swept new old (i + 1)) i = (M *ᵥ new - strictUpper M *ᵥ (new - old)) i := by
  rw [Pi.sub_apply, mulVec, mulVec, mulVec, dotProduct, dotProduct, dotProduct,
    ← Finset.sum_sub_distrib]
  refine Finset.sum_congr rfl fun j _ => ?_
  rw [swept, strictUpper, of_apply, Pi.sub_apply]
  by_cases hij : i < j
  · rw [if_neg (fun h => absurd (Fin.lt_def.mp hij) (by omega)), if_pos hij]
    ring
  · have hle : (j : ℕ) < i + 1 := Nat.lt_succ_of_le (Fin.le_def.mp (not_lt.mp hij))
    rw [if_pos hle, if_neg hij]
    ring

/-- A change of a variable changes its own row by the entry on the diagonal. -/
theorem mulVec_update_apply (M : Matrix (Fin n) (Fin n) K) (x : Fin n → K) (i : Fin n) (v : K) :
    (M *ᵥ Function.update x i v) i = (M *ᵥ x) i + M i i * (v - x i) := by
  have hsplit : Function.update x i v = x + Pi.single i (v - x i) := by
    funext j
    by_cases hij : j = i
    · subst hij
      simp
    · simp [hij]
  rw [hsplit, mulVec_add, Pi.add_apply, mulVec_single]
  simp

end Rows

section Passes

/-- A pass over a range goes through stages. -/
theorem foldl_range_of_stages {β : Type} {f : β → ℕ → β} {stages : ℕ → β} {m : ℕ}
    (h : ∀ i < m, f (stages i) i = stages (i + 1)) :
    (List.range m).foldl f (stages 0) = stages m := by
  induction m with
  | zero => rfl
  | succ m ih =>
    rw [List.range_succ, List.foldl_append, ih fun i hi => h i (Nat.lt_succ_of_lt hi),
      List.foldl_cons, List.foldl_nil, h m (Nat.lt_succ_self m)]

/-- A loop whose rounds lead from one member of a sequence to the next ends at the member of their
number. -/
theorem Attempt.result_foldlM_range {α ε β : Type} {f : β → ℕ → Attempt α ε β} {stages : ℕ → β}
    {m : ℕ} (h : ∀ i < m, (f (stages i) i).result = .ok (stages (i + 1))) :
    ((List.range m).foldlM f (stages 0)).result = .ok (stages m) := by
  induction m with
  | zero => rfl
  | succ m ih =>
    have hbefore := ih fun i hi => h i (Nat.lt_succ_of_lt hi)
    have hlast := h m (Nat.lt_succ_self m)
    rw [List.range_succ, List.foldlM_append, Attempt.result_bind_of_ok hbefore, List.foldlM_cons,
      Attempt.result_bind_of_ok hlast]
    rfl

end Passes

/-- The derivatives of the components of a linear system with respect to their own variables are
known. -/
def VectorField.HasDiagonal (field : VectorField K) (M : Matrix (Fin n) (Fin n) K) : Prop :=
  ∀ (i : Fin n) (t : K) (x : Fin n → K), field.slope? i i t (List.ofFn x) = some (M i i)

/-- The field of a matrix knows the derivatives on the diagonal. -/
theorem VectorField.hasDiagonal_linear (names : List String) (M : Matrix (Fin n) (Fin n) K) :
    (linear names M).HasDiagonal M := fun i _ _ => dif_pos ⟨i.isLt, i.isLt⟩

variable {field : VectorField K} {M : Matrix (Fin n) (Fin n) K}

namespace Solver

/-- The second half advances each variable with the new values of those before it. -/
theorem explicitHalf_ofFn (hfield : field.IsLinear M) {t h : K} {x y z : Fin n → K}
    (hstep : IsSemiImplicitStep M h x y z) :
    explicitHalf field t h (List.ofFn y) = List.ofFn z := by
  have hstage : ∀ i < n, (List.ofFn (swept z y i)).set i (coordinate (List.ofFn (swept z y i)) i +
      h * field.component i t (List.ofFn (swept z y i))) = List.ofFn (swept z y (i + 1)) := by
    intro i hi
    lift i to Fin n using hi
    rw [hfield.component_eq, coordinate_ofFn, swept_apply, mulVec_swept, ← set_swept i]
    congr 1
    exact (congrFun hstep.explicit_eq i).symm
  rw [explicitHalf, List.length_ofFn]
  have hpass := @foldl_range_of_stages (List K)
    (fun x i => x.set i (coordinate x i + h * field.component i t x))
    (fun i => List.ofFn (swept z y i)) n hstage
  exact hpass.trans (congrArg List.ofFn swept_all)

end Solver

section Existence

variable {h : K}

/-- An equation with a lower triangular matrix has a solution if no slope is zero. -/
theorem exists_fixed {N : Matrix (Fin n) (Fin n) K} (hlower : ∀ i j, i < j → N i j = 0)
    (hslope : ∀ i, 1 - h * N i i ≠ 0) (b : Fin n → K) : ∃ v, v = b + h • N *ᵥ v := by
  have htriangular : (1 - h • N).IsLowerTriangular := by
    intro i j hij
    have hlt : i < j := hij
    simp [hlower i j hlt, one_apply_ne hlt.ne]
  have hunit : IsUnit (1 - h • N).det := by
    rw [det_of_isLowerTriangular _ htriangular, isUnit_iff_ne_zero]
    exact Finset.prod_ne_zero_iff.mpr fun i _ => by simpa using hslope i
  refine ⟨(1 - h • N)⁻¹ *ᵥ b, ?_⟩
  have hsolved : (1 - h • N) *ᵥ (1 - h • N)⁻¹ *ᵥ b = b := by
    rw [mulVec_mulVec, mul_nonsing_inv _ hunit, one_mulVec]
  rwa [sub_mulVec, one_mulVec, smul_mulVec, sub_eq_iff_eq_add] at hsolved

/-- A step can be made if no slope is zero. -/
theorem exists_isSemiImplicitStep (hslope : ∀ i, 1 - h * M i i ≠ 0) (x : Fin n → K) :
    ∃ y z, IsSemiImplicitStep M h x y z := by
  have hupper : ∀ i j, i < j → (M - strictUpper M) i j = 0 := by
    intro i j hij
    simp [strictUpper, hij]
  have hlower : ∀ i j, i < j → strictLower M i j = 0 := by
    intro i j hij
    simp [strictLower, hij.not_gt]
  have hslope_first : ∀ i, 1 - h * (M - strictUpper M) i i ≠ 0 := by
    intro i
    simpa [strictUpper] using hslope i
  have hslope_second : ∀ i, 1 - h * strictLower M i i ≠ 0 := by
    intro i
    simp [strictLower]
  obtain ⟨y, hy⟩ := exists_fixed hupper hslope_first (x + h • strictUpper M *ᵥ x)
  obtain ⟨z, hz⟩ := exists_fixed hlower hslope_second (y + h • (M *ᵥ y - strictLower M *ᵥ y))
  refine ⟨y, z, ?_, ?_⟩
  · nth_rewrite 1 [hy]
    rw [sub_mulVec, mulVec_sub]
    module
  · nth_rewrite 1 [hz]
    rw [mulVec_sub]
    module

end Existence

/-- A row of values of a linear field is a vector. -/
theorem VectorField.IsLinear.exists_ofFn (hfield : field.IsLinear M) {x : List K}
    (hx : x.length = field.dimension) : ∃ u : Fin n → K, x = List.ofFn u := by
  have hlength : x.length = n := hx.trans hfield.dimension_eq
  subst hlength
  exact ⟨x.get, (List.ofFn_get x).symm⟩

/-- The components of a linear system are affine in their own variables. -/
theorem VectorField.IsLinear.isAffineIn (hfield : field.IsLinear M)
    (hdiagonal : field.HasDiagonal M) (i : Fin n) :
    field.IsAffineIn i (fun _ _ => M i i)
      fun t x => field.component i t x - M i i * coordinate x i := by
  refine ⟨fun t x _ => ?_, fun t x hx => ?_, fun _ _ _ _ => rfl, fun t x v hx => ?_⟩
  · ring
  · obtain ⟨u, rfl⟩ := hfield.exists_ofFn hx
    exact hdiagonal i t u
  · obtain ⟨u, rfl⟩ := hfield.exists_ofFn hx
    rw [set_ofFn, hfield.component_eq, hfield.component_eq, coordinate_ofFn, coordinate_ofFn,
      mulVec_update_apply, Function.update_self]
    ring

/-- The settings make sense, and a linear equation does not fail under them: two corrections are
allowed, or a lack of corrections is no failure. -/
structure NewtonSettings.SufficesForLinear (newton : NewtonSettings ℚ) : Prop where
  check_eq : newton.check = .ok ()
  enough : 2 ≤ newton.maxIterations ∨ newton.onNonConvergence ≠ .fail

/-- Over the rationals the settings pass their check with at least one correction and a positive
tolerance. -/
theorem NewtonSettings.check_eq_ok_iff {newton : NewtonSettings ℚ} :
    newton.check = .ok () ↔ 0 < newton.maxIterations ∧ 0 < newton.toleranceFactor := by
  rw [check_eq_ok_iff_isPositive, isPositive_iff]

/-- What suffices for linear systems solves each of their equations. -/
theorem NewtonSettings.SufficesForLinear.solvesAffine {newton : NewtonSettings ℚ} {delta : ℚ}
    (hnewton : newton.SufficesForLinear) (hdelta : 0 < delta) : newton.SolvesAffine delta :=
  solvesAffine_of_check hnewton.check_eq hnewton.enough hdelta

section Running

variable {x y z : Fin n → K} {h delta : K} (hfield : field.IsLinear M)
  (hdiagonal : field.HasDiagonal M)
include hfield hdiagonal

/-- No derivative is missing on a field with its diagonal. -/
theorem Solver.missingDerivative_eq_none (t : K) :
    missingDerivative? field t (List.ofFn x) = none :=
  missingDerivative_eq_none_iff.mpr fun i hi =>
    ⟨_, hdiagonal ⟨i, hi.trans_eq hfield.dimension_eq⟩ t x⟩

variable [LT K] [DecidableLT K] {newton : NewtonSettings K}

/-- Correcting a variable of a linear system solves its equation. -/
theorem result_correct (hnewton : newton.SolvesAffine delta) {i : Fin n}
    (hslope : 1 - h * M i i ≠ 0) (hy : y i = x i + h * (M *ᵥ swept y x (i + 1)) i) (t : K) :
    (newton.correct field i t h delta (List.ofFn (swept y x i))).result =
      .ok (List.ofFn (swept y x (i + 1))) := by
  have hlength : (List.ofFn (swept y x i)).length = field.dimension := by
    rw [List.length_ofFn, hfield.dimension_eq]
  have hsolved : y i = coordinate (List.ofFn (swept y x i)) i +
      h * field.component i t ((List.ofFn (swept y x i)).set i (y i)) := by
    rw [set_swept, hfield.component_eq, coordinate_ofFn, swept_apply]
    exact hy
  rw [← set_swept]
  exact NewtonSettings.result_correct_of_affine (hfield.isAffineIn hdiagonal i) hlength
    (i.isLt.trans_eq hfield.dimension_eq.symm) hslope hsolved hnewton

namespace Solver

/-- The first half solves the equations of the variables one after the other. -/
theorem implicitHalf_ofFn (hnewton : newton.SolvesAffine delta) (hslope : ∀ i, 1 - h * M i i ≠ 0)
    (hstep : IsSemiImplicitStep M h x y z) (t : K) :
    (implicitHalf newton field t h delta (List.ofFn x)).result = .ok (List.ofFn y) := by
  have hstage : ∀ i < n, (newton.correct field i t h delta (List.ofFn (swept y x i))).result =
      .ok (List.ofFn (swept y x (i + 1))) := by
    intro i hi
    lift i to Fin n using hi
    refine result_correct hfield hdiagonal hnewton (hslope i) ?_ t
    rw [mulVec_swept_succ]
    exact congrFun hstep.implicit_eq i
  rw [implicitHalf, List.length_ofFn]
  have hpass := @Attempt.result_foldlM_range K (SolverError K) (List K)
    (fun x i => newton.correct field i t h delta x) (fun i => List.ofFn (swept y x i)) n hstage
  exact hpass.trans (congrArg (fun v => Except.ok (List.ofFn v)) swept_all)

variable [Finiteness K]

/-- One step of the semi-implicit rule. -/
theorem advance_semiImplicit (hnewton : newton.SolvesAffine delta)
    (hslope : ∀ i, 1 - delta / 2 * M i i ≠ 0) (hstep : IsSemiImplicitStep M (delta / 2) x y z)
    (start : K) (j : ℕ) :
    ((Solver.semiImplicit newton).advance field
      (Run.after delta start j (List.ofFn x) none)).result =
      .ok (Run.after delta start (j + 1) (List.ofFn z) none) := by
  rw [Solver.advance, Run.increment_after, Run.values_after, two_eq]
  rw [Attempt.result_bind_of_ok (implicitHalf_ofFn hfield hdiagonal hnewton hslope hstep _),
    explicitHalf_ofFn hfield hstep]
  exact Run.result_reach _ _

/-- Launched from a state that fits a linear system, the rule makes any number of steps without
failing as long as no slope is zero, and each of them satisfies the equations of a step. -/
theorem exists_launch_semiImplicit (hnewton : newton.SolvesAffine delta)
    (hdelta : IsPositive delta) (hslope : ∀ i, 1 - delta / 2 * M i i ≠ 0) {initial : State K}
    (hfits : initial.orderedValues field.names = .ok (List.ofFn x)) :
    ∃ t, (Trajectory.launch (.semiImplicit newton) field initial delta).result = .ok t ∧
      ∃ u : ℕ → Fin n → K, u 0 = x ∧
        (∀ j, t.item j = some (.ok ⟨initial.time + (j + 1 : ℕ) * delta, field.names,
          List.ofFn (u (j + 1))⟩)) ∧
        ∀ j, ∃ y, IsSemiImplicitStep M (delta / 2) (u j) y (u (j + 1)) := by
  choose first second hstep using exists_isSemiImplicitStep hslope
  have hsteps : ∀ j, IsSemiImplicitStep M (delta / 2) (second^[j] x) (first (second^[j] x))
      (second^[j + 1] x) := by
    intro j
    rw [Function.iterate_succ_apply']
    exact hstep _
  let runs (j : ℕ) : Run K := Run.after delta initial.time j (List.ofFn (second^[j] x)) none
  have hlaunch : ((Solver.semiImplicit newton).launch field initial delta).result = .ok (runs 0) :=
    result_launch_of_known _ hdelta hfits (missingDerivative_eq_none hfield hdiagonal _)
  obtain ⟨t, ht, hitems⟩ := Trajectory.exists_launch_of_stages hlaunch fun j =>
    advance_semiImplicit hfield hdiagonal hnewton hslope (hsteps j) initial.time j
  refine ⟨t, ht, fun j => second^[j] x, rfl, fun j => ?_, fun j => ⟨_, hsteps j⟩⟩
  rw [hitems, Run.state_after]

end Solver

end Running

end Fluxion
