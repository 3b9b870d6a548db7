import Fluxion.Proofs.Solver.Runs
import Fluxion.Proofs.Solver.Launch

/-!
# Newton's correction of an affine equation

If a component of a system is affine in its own variable, then so is the equation that the
correction of this variable solves, and its one solution is as far away as Newton's increment says,
from wherever the iteration stands (`newtonIncrement_set`).  So the first correction leads to the
solution and the second one is zero.  The iteration looks at the last correction and not at what is
left of the equation, so it needs the second one to come to rest; without it the solution has been
reached all the same, and the policy decides what becomes of it (`correct_of_affine`).

For a system `x' = a x` the two halves of a step of the semi-implicit rule multiply the value by `1
/ (1 - h * a)` and by `1 + h * a`, where `h` is half of the step (`Solver.advance_proportional`).
-/

set_option autoImplicit false

namespace Fluxion

/-- A policy other than failing lets the step go on. -/
theorem NewtonSettings.result_giveUp {α : Type} {newton : NewtonSettings α}
    (hpolicy : newton.onNonConvergence ≠ .fail) (name : String) (t : α) :
    (newton.giveUp name t).result = .ok () := by
  rw [giveUp]
  split
  · rfl
  · rfl
  · contradiction

variable {K : Type} [Field K]

/-- The i-th component is affine in its own variable: its slope `a`, which is its known derivative,
and its value `b` at zero depend on the time and the other variables only. -/
structure VectorField.IsAffineIn (field : VectorField K) (i : ℕ) (a b : K → List K → K) : Prop where
  component_eq : ∀ (t : K) (x : List K), x.length = field.dimension →
    field.component i t x = a t x * coordinate x i + b t x
  slope_eq : ∀ (t : K) (x : List K), x.length = field.dimension →
    field.slope? i i t x = some (a t x)
  slope_set : ∀ (t : K) (x : List K) (v : K), x.length = field.dimension → a t (x.set i v) = a t x
  intercept_set : ∀ (t : K) (x : List K) (v : K), x.length = field.dimension →
    b t (x.set i v) = b t x

/-- In a step of length `delta` the correction of an affine equation does not fail under these
settings: a correction of zero ends the iteration, and two corrections are allowed, or one and the
lack of a second is no failure. -/
structure NewtonSettings.SolvesAffine [LT K] [DecidableLT K] (newton : NewtonSettings K)
    (delta : K) : Prop where
  within : isWithin (delta * newton.toleranceFactor) 0 = true
  some : 0 < newton.maxIterations
  enough : 2 ≤ newton.maxIterations ∨ newton.onNonConvergence ≠ .fail

section Correction

variable {field : VectorField K} {i : ℕ} {a b : K → List K → K} {t h previous v : K} {x : List K}
  (hfield : field.IsAffineIn i a b) (hx : x.length = field.dimension) (hi : i < field.dimension)
include hfield hx hi

/-- Along its own variable an affine component is an affine function. -/
theorem VectorField.IsAffineIn.component_set (t w : K) :
    field.component i t (x.set i w) = a t x * w + b t x := by
  have hlength : (x.set i w).length = field.dimension := List.length_set.trans hx
  rw [hfield.component_eq t _ hlength, hfield.slope_set t x w hx, hfield.intercept_set t x w hx,
    coordinate_set (hx ▸ hi), if_pos rfl]

variable (hslope : 1 - h * a t x ≠ 0)
include hslope

/-- The equation of the correction has one solution. -/
theorem VectorField.IsAffineIn.exists_solution (previous : K) :
    ∃ v, ∀ w, w = previous + h * field.component i t (x.set i w) ↔ w = v := by
  refine ⟨(previous + h * b t x) / (1 - h * a t x), fun w => ?_⟩
  rw [hfield.component_set hx hi, eq_div_iff hslope]
  constructor
  · intro hw
    linear_combination hw
  · intro hw
    linear_combination hw

section Iteration

variable (hv : v = previous + h * field.component i t (x.set i v))
include hv

/-- From any value of the variable the increment is the distance from the solution. -/
theorem newtonIncrement_set (w : K) :
    newtonIncrement field i t h previous (x.set i w) = w - v := by
  have hlength : (x.set i w).length = field.dimension := List.length_set.trans hx
  rw [hfield.component_set hx hi] at hv
  rw [newtonIncrement, hfield.component_set hx hi, hfield.slope_eq t _ hlength,
    hfield.slope_set t x w hx, coordinate_set (hx ▸ hi), if_pos rfl, Option.getD_some, one_eq,
    div_eq_iff hslope]
  linear_combination hv

variable [LT K] [DecidableLT K]

/-- The iteration stays at the solution, and comes to rest there if it is allowed to look. -/
theorem newtonIterate_of_solution (tolerance : K) (cap : ℕ) :
    newtonIterate field i t h previous tolerance cap (x.set i v) =
      (x.set i v, decide (0 < cap) && isWithin tolerance 0) := by
  have hincrement : newtonIncrement field i t h previous (x.set i v) = 0 := by
    rw [newtonIncrement_set hfield hx hi hslope hv, sub_self]
  have hsame : (x.set i v).set i (coordinate (x.set i v) i - 0) = x.set i v := by
    rw [sub_zero, coordinate_set (hx ▸ hi), if_pos rfl, List.set_set]
  induction cap with
  | zero => rfl
  | succ cap ih =>
    rw [newtonIterate, hincrement, hsame, ih]
    cases isWithin tolerance 0 <;> simp

/-- The iteration reaches the solution, and comes to rest if two corrections are allowed. -/
theorem newtonIterate_of_affine (tolerance : K) (cap : ℕ) :
    ∃ atRest, newtonIterate field i t h previous tolerance (cap + 1) x = (x.set i v, atRest) ∧
      (0 < cap → isWithin tolerance 0 = true → atRest = true) := by
  have hincrement : newtonIncrement field i t h previous x = coordinate x i - v := by
    have hset := newtonIncrement_set hfield hx hi hslope hv (coordinate x i)
    rwa [set_coordinate (hx ▸ hi)] at hset
  rw [newtonIterate, hincrement, sub_sub_cancel,
    newtonIterate_of_solution hfield hx hi hslope hv]
  split
  · exact ⟨true, rfl, fun _ _ => rfl⟩
  · refine ⟨_, rfl, fun hcap hwithin => ?_⟩
    rw [hwithin, decide_eq_true hcap]
    rfl

end Iteration

namespace NewtonSettings

variable [LT K] [DecidableLT K] {delta : K} {newton : NewtonSettings K}
  (hv : v = coordinate x i + h * field.component i t (x.set i v))
include hv

section

variable (hwithin : isWithin (delta * newton.toleranceFactor) 0 = true)
include hwithin

/-- What the correction of an affine equation gives: the solution, at rest if two corrections are
allowed, and otherwise after the policy has been asked. -/
theorem correct_cases (hsome : 0 < newton.maxIterations) :
    newton.correct field i t h delta x = .succeed (x.set i v) ∨
      newton.maxIterations < 2 ∧ newton.correct field i t h delta x =
        newton.giveUp (field.variableName i) t >>= fun _ => .succeed (x.set i v) := by
  obtain ⟨cap, hcap⟩ := Nat.exists_eq_succ_of_ne_zero hsome.ne'
  obtain ⟨atRest, hiterate, hrest⟩ := newtonIterate_of_affine hfield hx hi hslope hv
    (delta * newton.toleranceFactor) cap
  rw [correct, hcap, hiterate]
  cases atRest with
  | true => exact .inl rfl
  | false =>
    right
    refine ⟨?_, rfl⟩
    by_contra henough
    exact Bool.false_ne_true (hrest (by omega) hwithin)

/-- With two corrections allowed, the first finds the solution and the second sees that nothing is
left to correct. -/
theorem correct_of_affine (henough : 2 ≤ newton.maxIterations) :
    newton.correct field i t h delta x = .succeed (x.set i v) := by
  obtain hrest | ⟨hfew, -⟩ := correct_cases hfield hx hi hslope hv hwithin (by omega)
  · exact hrest
  · omega

end

/-- The solution is found whenever the settings allow it. -/
theorem result_correct_of_affine (hnewton : newton.SolvesAffine delta) :
    (newton.correct field i t h delta x).result = .ok (x.set i v) := by
  obtain hrest | ⟨hfew, hgaveUp⟩ :=
    correct_cases hfield hx hi hslope hv hnewton.within hnewton.some
  · rw [hrest]
    rfl
  · have hpolicy := hnewton.enough.resolve_left (Nat.not_le_of_lt hfew)
    rw [hgaveUp, Attempt.result_bind_of_ok (result_giveUp hpolicy _ t)]
    rfl

end NewtonSettings

end Correction

/-! ## One variable -/

/-- The system `x' = a x` of one variable, with its derivative. -/
structure VectorField.IsProportional (field : VectorField K) (a : K) : Prop where
  dimension_eq : field.dimension = 1
  component_eq : ∀ t c : K, field.component 0 t [c] = a * c
  slope_eq : ∀ t c : K, field.slope? 0 0 t [c] = some a

section Proportional

variable {field : VectorField K} {a : K}

/-- A component proportional to its variable is affine in it. -/
theorem VectorField.IsProportional.isAffineIn (hfield : field.IsProportional a) :
    field.IsAffineIn 0 (fun _ _ => a) fun _ _ => 0 := by
  refine ⟨fun t x hx => ?_, fun t x hx => ?_, fun _ _ _ _ => rfl, fun _ _ _ _ => rfl⟩
  · obtain ⟨c, rfl⟩ := List.length_eq_one_iff.mp (hx.trans hfield.dimension_eq)
    rw [hfield.component_eq, add_zero]
    rfl
  · obtain ⟨c, rfl⟩ := List.length_eq_one_iff.mp (hx.trans hfield.dimension_eq)
    exact hfield.slope_eq t c

/-- A proportional field knows its derivative. -/
theorem Solver.missingDerivative_proportional (hfield : field.IsProportional a) (t c : K) :
    missingDerivative? field t [c] = none := by
  rw [missingDerivative_eq_none_iff]
  intro i hi
  have hone : field.names.length = 1 := hfield.dimension_eq
  have hzero : i = 0 := by omega
  exact ⟨a, hzero ▸ hfield.slope_eq t c⟩

/-- What a step of the semi-implicit rule of which `h` is a half multiplies the value by. -/
def trapezoidalRatio (a h : K) : K := (1 + h * a) / (1 - h * a)

variable [LT K] [DecidableLT K] [Finiteness K] {newton : NewtonSettings K} {step : K}

/-- The first half of a step solves an equation, and the second half evaluates the right-hand side
at its solution. -/
theorem Solver.advance_proportional (hfield : field.IsProportional a)
    (hslope : 1 - step / 2 * a ≠ 0) (hnewton : newton.SolvesAffine step) (start c : K) (n : ℕ) :
    ((Solver.semiImplicit newton).advance field (Run.after step start n [c] none)).result =
      .ok (Run.after step start (n + 1) [trapezoidalRatio a (step / 2) * c] none) := by
  set v := c / (1 - step / 2 * a) with hv
  have himplicit : ∀ t, (implicitHalf newton field t (step / 2) step [c]).result = .ok [v] := by
    intro t
    have hsolved : v = coordinate [c] 0 + step / 2 * field.component 0 t ([c].set 0 v) := by
      show v = c + step / 2 * field.component 0 t [v]
      have hproduct : v * (1 - step / 2 * a) = c := div_mul_cancel₀ c hslope
      rw [hfield.component_eq]
      linear_combination hproduct
    have hlength : [c].length = field.dimension := hfield.dimension_eq.symm
    have hcorrect : (newton.correct field 0 t (step / 2) step [c]).result = .ok [v] :=
      NewtonSettings.result_correct_of_affine hfield.isAffineIn hlength
        (hfield.dimension_eq ▸ Nat.one_pos) hslope hsolved hnewton
    show (newton.correct field 0 t (step / 2) step [c] >>= pure).result = _
    rw [bind_pure, hcorrect]
  have hexplicit : ∀ t,
      explicitHalf field t (step / 2) [v] = [trapezoidalRatio a (step / 2) * c] := by
    intro t
    show [v + step / 2 * field.component 0 t [v]] = _
    have hratio : trapezoidalRatio a (step / 2) * c = (1 + step / 2 * a) * v := by
      rw [trapezoidalRatio, hv, div_mul_eq_mul_div, mul_div_assoc]
    rw [hfield.component_eq, hratio]
    congr 1
    ring
  rw [advance, Run.increment_after, Run.values_after, two_eq,
    Attempt.result_bind_of_ok (himplicit _), hexplicit]
  exact Run.result_reach _ _

/-- The states are those of the powers of the ratio. -/
theorem Trajectory.item_proportional (hfield : field.IsProportional a) (hstep : IsPositive step)
    (hslope : 1 - step / 2 * a ≠ 0) (hnewton : newton.SolvesAffine step) {initial : State K} {c : K}
    (hfits : initial.orderedValues field.names = .ok [c]) :
    ∃ t, (launch (.semiImplicit newton) field initial step).result = .ok t ∧
      ∀ n, t.item n = some (.ok ⟨initial.time + (n + 1 : ℕ) * step, field.names,
        [trapezoidalRatio a (step / 2) ^ (n + 1) * c]⟩) := by
  have hlaunch : ((Solver.semiImplicit newton).launch field initial step).result =
      .ok (Run.after step initial.time 0 [trapezoidalRatio a (step / 2) ^ 0 * c] none) := by
    rw [pow_zero, one_mul]
    exact Solver.result_launch_of_known _ hstep hfits
      (Solver.missingDerivative_proportional hfield _ c)
  have hadvance : ∀ n, ((Solver.semiImplicit newton).advance field
      (Run.after step initial.time n [trapezoidalRatio a (step / 2) ^ n * c] none)).result =
      .ok (Run.after step initial.time (n + 1) [trapezoidalRatio a (step / 2) ^ (n + 1) * c]
        none) := by
    intro n
    rw [pow_succ', mul_assoc]
    exact Solver.advance_proportional hfield hslope hnewton _ _ n
  obtain ⟨t, ht, hitems⟩ := exists_launch_of_stages hlaunch hadvance
  refine ⟨t, ht, fun n => ?_⟩
  rw [hitems, Run.state_after]

end Proportional

/-! ## Exactness -/

section Exactness

variable [LT K] [DecidableLT K] [Finiteness K]

/-- Under these settings equations that are affine in their own variable are solved exactly. -/
structure NewtonSettings.IsExact (newton : NewtonSettings K) : Prop where
  /-- The equation has one solution.  It is what the variable is corrected to, no other variable is
  changed, and if two corrections are allowed, then nothing fails and nothing is announced. -/
  correct_eq : ∀ (field : VectorField K) (i : ℕ) (a b : K → List K → K), field.IsAffineIn i a b →
    ∀ (t h delta : K) (x : List K), x.length = field.dimension → i < field.dimension →
    1 - h * a t x ≠ 0 → 0 < delta →
    ∃ v, (∀ w, w = coordinate x i + h * field.component i t (x.set i w) ↔ w = v) ∧
      (newton.onNonConvergence ≠ .fail →
        (newton.correct field i t h delta x).result = .ok (x.set i v)) ∧
      (2 ≤ newton.maxIterations → newton.correct field i t h delta x = .succeed (x.set i v))
  /-- On `x' = a x` the semi-implicit rule gives the powers of one ratio times the initial value. -/
  item_eq : ∀ (field : VectorField K) (a : K), field.IsProportional a →
    2 ≤ newton.maxIterations ∨ newton.onNonConvergence ≠ .fail →
    ∀ (initial : State K) (c step : K), IsPositive step → 1 - a * step / 2 ≠ 0 →
    initial.orderedValues field.names = .ok [c] →
    ∃ t, (Trajectory.launch (.semiImplicit newton) field initial step).result = .ok t ∧
      ∀ n, t.item n = some (.ok ⟨initial.time + (n + 1 : ℕ) * step, field.names,
        [((1 + a * step / 2) / (1 - a * step / 2)) ^ (n + 1) * c]⟩)

end Exactness

/-- Settings pass their check with at least one correction and a positive tolerance. -/
theorem NewtonSettings.check_eq_ok_iff_isPositive [LT K] [DecidableLT K] [Finiteness K]
    {newton : NewtonSettings K} :
    newton.check = .ok () ↔ 0 < newton.maxIterations ∧ IsPositive newton.toleranceFactor := by
  rw [check, Nat.pos_iff_ne_zero]
  split
  · simp [*]
  · split <;> simp [*]

section Ordered

variable [LinearOrder K] [IsStrictOrderedRing K]

/-- Zero is within every positive tolerance. -/
theorem isWithin_zero_of_pos {tolerance : K} (h : 0 < tolerance) : isWithin tolerance 0 = true := by
  simp [isWithin, h]

/-- Settings that make sense solve affine equations in every step. -/
theorem NewtonSettings.solvesAffine_of_check [Finiteness K] {newton : NewtonSettings K}
    (hnewton : newton.check = .ok ())
    (henough : 2 ≤ newton.maxIterations ∨ newton.onNonConvergence ≠ .fail) {delta : K}
    (hdelta : 0 < delta) : newton.SolvesAffine delta := by
  obtain ⟨hsome, hfactor, -⟩ := check_eq_ok_iff_isPositive.mp hnewton
  rw [zero_eq] at hfactor
  exact ⟨isWithin_zero_of_pos (mul_pos hdelta hfactor), hsome, henough⟩

/-- Settings that make sense solve equations exactly that are affine in their own variable. -/
theorem NewtonSettings.isExact_of_check [Finiteness K] (newton : NewtonSettings K)
    (hnewton : newton.check = .ok ()) : newton.IsExact := by
  constructor
  · intro field i a b hfield t h delta x hx hi hslope hdelta
    obtain ⟨v, hv⟩ := hfield.exists_solution hx hi hslope (coordinate x i)
    have hsolved := (hv v).mpr rfl
    refine ⟨v, hv, fun hpolicy => ?_, fun henough => ?_⟩
    · exact result_correct_of_affine hfield hx hi hslope hsolved
        (solvesAffine_of_check hnewton (.inr hpolicy) hdelta)
    · have hsolves := solvesAffine_of_check hnewton (.inl henough) hdelta
      exact correct_of_affine hfield hx hi hslope hsolved hsolves.within henough
  · intro field a hfield henough initial c step hstep hslope hfits
    have hpositive : 0 < step := by
      have hzero := hstep.1
      rwa [zero_eq] at hzero
    have hhalf : a * step / 2 = step / 2 * a := by ring
    rw [hhalf] at hslope ⊢
    exact Trajectory.item_proportional hfield hstep hslope
      (solvesAffine_of_check hnewton henough hpositive) hfits

end Ordered

/-- With two corrections and a policy that fails behind them: the equation of `x` in `x' = y x` at
`(2, 3)`, and the decay `x' = -x` from `1` with the step `1`, of which a third is left after each
step. -/
theorem NewtonSettings.isExact_of_check_two :
    let newton : NewtonSettings ℚ := ⟨2, 1, .fail⟩
    let driven : VectorField ℚ :=
      { names := ["x", "y"]
        component := fun i _ x => if i = 0 then coordinate x 1 * coordinate x 0 else 1
        slope? := fun _ _ _ x => some (coordinate x 1) }
    let decay : VectorField ℚ :=
      { names := ["x"]
        component := fun _ _ x => -1 * coordinate x 0
        slope? := fun _ _ _ _ => some (-1) }
    newton.correct driven 0 0 1 1 [2, 3] = .succeed [-1, 3] ∧
      ∃ t, (Trajectory.launch (.semiImplicit newton) decay ⟨0, ["x"], [1]⟩ 1).result = .ok t ∧
        ∀ n, t.item n = some (.ok ⟨(n + 1 : ℕ), ["x"], [(1 / 3) ^ (n + 1)]⟩) := by
  intro newton driven decay
  have hexact : newton.IsExact := newton.isExact_of_check rfl
  constructor
  · have hdriven : driven.IsAffineIn 0 (fun _ x => coordinate x 1) fun _ _ => 0 := by
      refine ⟨fun t x _ => ?_, fun _ _ _ => rfl, fun t x v _ => ?_, fun _ _ _ _ => rfl⟩
      · exact (add_zero _).symm
      · cases x <;> rfl
    have hslope : 1 - 1 * coordinate [2, (3 : ℚ)] 1 ≠ 0 := by norm_num [coordinate]
    obtain ⟨v, hv, -, hcorrect⟩ := hexact.correct_eq driven 0 _ _ hdriven 0 1 1 [2, 3] rfl
      (by decide) hslope one_pos
    have hsolved : -1 = v := (hv (-1)).mp (by norm_num [driven, coordinate])
    rw [hcorrect le_rfl, ← hsolved]
    rfl
  · have hdecay : decay.IsProportional (-1) := ⟨rfl, fun _ _ => rfl, fun _ _ => rfl⟩
    have hfits : (State.mk 0 ["x"] [(1 : ℚ)]).orderedValues decay.names = .ok [1] := rfl
    obtain ⟨t, ht, hitems⟩ := hexact.item_eq decay (-1) hdecay (.inl le_rfl) _ 1 1
      (isPositive_iff.mpr one_pos) (by norm_num) hfits
    refine ⟨t, ht, fun n => ?_⟩
    rw [hitems]
    norm_num [decay]

end Fluxion
