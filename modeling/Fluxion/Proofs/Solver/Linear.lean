import Fluxion.Proofs.Solver.Runs

/-!
# Linear systems

On a system `x' = M x` over a field, Euler's method and the leapfrog method multiply the initial
values by a polynomial in `h • M`, where `h` is the step: after `c` steps by
`eulerGrowth c` and by `leapfrogGrowth c`.  That a solver does so from every state that fits the
system, and that it never fails there, is said by `Solver.Follows`.
-/

set_option autoImplicit false

namespace Fluxion

open Matrix Polynomial

variable {K : Type} [Field K] {n : ℕ}

/-- The coordinates of a vector written as a row are those of the vector. -/
@[simp] theorem coordinate_ofFn (x : Fin n → K) (i : Fin n) : coordinate (List.ofFn x) i = x i := by
  rw [coordinate, List.getD_eq_getElem _ _ (by simp), List.getElem_ofFn]

namespace VectorField

/-- The right-hand side is a matrix times the point. -/
structure IsLinear (field : VectorField K) (M : Matrix (Fin n) (Fin n) K) : Prop where
  nodup : field.names.Nodup
  dimension_eq : field.dimension = n
  component_eq : ∀ (i : Fin n) (t : K) (x : Fin n → K),
    field.component i t (List.ofFn x) = (M *ᵥ x) i

/-- The linear system of a matrix, with all its partial derivatives. -/
def linear (names : List String) (M : Matrix (Fin n) (Fin n) K) : VectorField K where
  names := names
  component i _ x := if hi : i < n then ∑ j, M ⟨i, hi⟩ j * coordinate x j else 0
  slope? i j _ _ := if h : i < n ∧ j < n then some (M ⟨i, h.1⟩ ⟨j, h.2⟩) else none

/-- The field of a matrix is linear with this matrix. -/
theorem isLinear_linear {names : List String} (hnodup : names.Nodup) (hlength : names.length = n)
    (M : Matrix (Fin n) (Fin n) K) : (linear names M).IsLinear M := by
  refine ⟨hnodup, hlength, fun i t x => ?_⟩
  show (if hi : (i : ℕ) < n then ∑ j, M ⟨i, hi⟩ j * coordinate (List.ofFn x) j else 0) = _
  rw [dif_pos i.isLt]
  exact Finset.sum_congr rfl fun j _ => congrArg (M i j * ·) (coordinate_ofFn x j)

variable {field : VectorField K} {M : Matrix (Fin n) (Fin n) K}

/-- The rates of a linear field are the product with its matrix. -/
theorem IsLinear.rates_ofFn (h : field.IsLinear M) (t : K) (x : Fin n → K) :
    field.rates t (List.ofFn x) = List.ofFn (M *ᵥ x) := by
  apply map_range_eq_ofFn h.dimension_eq
  intro i
  exact h.component_eq i t x

end VectorField

namespace Solver

/-- Moving along a row of rates is moving along the vector. -/
theorem along_ofFn (x y : Fin n → K) (d : K) :
    along (List.ofFn x) d (List.ofFn y) = List.ofFn (x + d • y) := by
  refine List.ext_getElem (by simp [along]) fun i hi hi' => ?_
  simp [along]

/-- What `c` steps of Euler's method multiply the values by. -/
noncomputable def eulerGrowth (c : ℕ) : K[X] := (1 + X) ^ c

/-- What `c` steps of the leapfrog method multiply the values by. -/
noncomputable def leapfrogGrowth : ℕ → K[X]
  | 0 => 1
  | 1 => 1 + X
  | c + 2 => leapfrogGrowth c + 2 • (X * leapfrogGrowth (c + 1))

/-- The values that a growth leads to, on a system with the matrix `M` and with the step `h`. -/
noncomputable def grown (M : Matrix (Fin n) (Fin n) K) (h : K) (x : Fin n → K) (P : K[X]) :
    Fin n → K :=
  aeval (h • M) P *ᵥ x

section Growing

variable {M : Matrix (Fin n) (Fin n) K} {h : K} {x : Fin n → K}

/-- The constant growth leaves the point. -/
@[simp] theorem grown_one : grown M h x 1 = x := by
  rw [grown, map_one, one_mulVec]

/-- A sum of growths takes a point to the sum of where they take it. -/
theorem grown_add (P Q : K[X]) : grown M h x (P + Q) = grown M h x P + grown M h x Q := by
  rw [grown, map_add, add_mulVec, grown, grown]

/-- The factor `X` stands for the product with the matrix and the step. -/
theorem grown_X_mul (P : K[X]) : grown M h x (X * P) = h • M *ᵥ grown M h x P := by
  rw [grown, map_mul, aeval_X, ← mulVec_mulVec, smul_mulVec, grown]

/-- The first step of the leapfrog method is one of Euler's method. -/
theorem grown_leapfrogGrowth_one :
    grown M h x (leapfrogGrowth 1) =
      grown M h x (leapfrogGrowth 0) + h • M *ᵥ grown M h x (leapfrogGrowth 0) := by
  show grown M h x (1 + X) = grown M h x 1 + h • M *ᵥ grown M h x 1
  rw [grown_add, ← grown_X_mul, mul_one]

/-- Every further step starts from the values one step back, and is twice as long. -/
theorem grown_leapfrogGrowth_add_two (j : ℕ) :
    grown M h x (leapfrogGrowth (j + 2)) =
      grown M h x (leapfrogGrowth j) + (2 * h) • M *ᵥ grown M h x (leapfrogGrowth (j + 1)) := by
  rw [leapfrogGrowth, grown_add, two_nsmul, grown_add, grown_X_mul, two_mul h, add_smul]

end Growing

variable [LT K] [DecidableLT K] [Finiteness K] {field : VectorField K}
  {M : Matrix (Fin n) (Fin n) K}

/-- Launched from a state that fits a system with the matrix `M`, a solver makes any number of
steps without failing, and has multiplied the values by its growth then. -/
def Follows (base : Solver K) (field : VectorField K) (M : Matrix (Fin n) (Fin n) K)
    (growth : ℕ → K[X]) : Prop :=
  ∀ (origin : State K) (x : Fin n → K) (h : K), IsPositive h →
    origin.orderedValues field.names = .ok (List.ofFn x) →
    ∃ r, (base.launch field origin h).result = .ok r ∧
      ∀ count, ∃ r', (advanceBy (fun r => base.advance field r) count r).result = .ok r' ∧
        r'.values = List.ofFn (grown M h x (growth count))

/-- A solver follows a growth if the stages of its run are known. -/
theorem follows_of_runs {base : Solver K} {growth : ℕ → K[X]}
    (runs : State K → (Fin n → K) → K → ℕ → Run K)
    (hlaunch : ∀ (origin : State K) (x : Fin n → K) (h : K), IsPositive h →
      origin.orderedValues field.names = .ok (List.ofFn x) →
      (base.launch field origin h).result = .ok (runs origin x h 0))
    (hadvance : ∀ origin x h j,
      (base.advance field (runs origin x h j)).result = .ok (runs origin x h (j + 1)))
    (hvalues : ∀ origin x h j, (runs origin x h j).values = List.ofFn (grown M h x (growth j))) :
    base.Follows field M growth := fun origin x h hpositive hfits =>
  ⟨runs origin x h 0, hlaunch origin x h hpositive hfits, fun count =>
    ⟨runs origin x h count, result_advanceBy (hadvance origin x h) count,
      hvalues origin x h count⟩⟩

/-- Euler's method follows the powers of `1 + X`. -/
theorem euler_follows (hfield : field.IsLinear M) :
    (Solver.euler : Solver K).Follows field M eulerGrowth := by
  refine follows_of_runs (fun origin x h j =>
    Run.after h origin.time j (List.ofFn (grown M h x (eulerGrowth j))) none) ?_ ?_ ?_
  · intro origin x h hpositive hfits
    have hstart : grown M h x (eulerGrowth 0) = x := by rw [eulerGrowth, pow_zero, grown_one]
    rw [hstart, Solver.launch, Attempt.result_announcing]
    exact Run.result_start hpositive hfits
  · intro origin x h j
    have hgrowth : grown M h x (eulerGrowth (j + 1)) =
        grown M h x (eulerGrowth j) + h • M *ᵥ grown M h x (eulerGrowth j) := by
      rw [eulerGrowth, pow_succ', add_mul, one_mul, grown_add, grown_X_mul, eulerGrowth]
    rw [hgrowth, ← along_ofFn, ← hfield.rates_ofFn]
    exact congrArg (fun h' => Except.ok (Run.after h origin.time (j + 1)
      (along _ h' (field.rates _ _)) none)) (Clock.increment_after j)
  · intro origin x h j
    rfl

/-- The values one step back in a run of the leapfrog method. -/
noncomputable def leapfrogBack (M : Matrix (Fin n) (Fin n) K) (h : K) (x : Fin n → K) :
    ℕ → Option (List K)
  | 0 => none
  | j + 1 => some (List.ofFn (grown M h x (leapfrogGrowth j)))

/-- A run of the leapfrog method that has made a number of steps. -/
noncomputable def leapfrogRun (M : Matrix (Fin n) (Fin n) K) (h : K) (x : Fin n → K) (start : K)
    (j : ℕ) : Run K :=
  Run.after h start j (List.ofFn (grown M h x (leapfrogGrowth j))) (leapfrogBack M h x j)

/-- The leapfrog method is launched at the beginning of its sequence. -/
theorem launch_midpoint {origin : State K} {x : Fin n → K} {h : K} (hpositive : IsPositive h)
    (hfits : origin.orderedValues field.names = .ok (List.ofFn x)) :
    (Solver.midpoint.launch field origin h).result = .ok (leapfrogRun M h x origin.time 0) := by
  have hstart : grown M h x (leapfrogGrowth 0) = x := grown_one
  rw [leapfrogRun, hstart, Solver.launch, Attempt.result_announcing]
  exact Run.result_start hpositive hfits

/-- A leapfrog step leads from one member of its sequence to the next. -/
theorem advance_midpoint (hfield : field.IsLinear M) (x : Fin n → K) (h start : K) (j : ℕ) :
    (Solver.midpoint.advance field (leapfrogRun M h x start j)).result =
      .ok (leapfrogRun M h x start (j + 1)) := by
  unfold leapfrogRun
  cases j with
  | zero =>
    rw [grown_leapfrogGrowth_one, ← along_ofFn, ← hfield.rates_ofFn]
    rfl
  | succ j =>
    rw [grown_leapfrogGrowth_add_two, ← along_ofFn, ← hfield.rates_ofFn]
    exact congrArg (fun h' => Except.ok (Run.after h start (j + 2)
      (along _ h' (field.rates _ _)) _)) (congrArg₂ (· * ·) two_eq (Clock.increment_after (j + 1)))

/-- The leapfrog method follows its growths. -/
theorem midpoint_follows (hfield : field.IsLinear M) :
    (Solver.midpoint : Solver K).Follows field M leapfrogGrowth :=
  follows_of_runs (fun origin x h j => leapfrogRun M h x origin.time j)
    (fun _ _ _ hpositive hfits => launch_midpoint hpositive hfits)
    (fun origin x h j => advance_midpoint hfield x h origin.time j) fun _ _ _ _ => rfl

end Solver

end Fluxion
