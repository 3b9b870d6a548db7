import Fluxion.Proofs.Solver.Growth

/-!
# The order of an extrapolation on linear systems

On a linear system the runs of an extrapolation whose base has a regular growth combine to the
Taylor polynomial of the exponential function (`combine_grown`): each coordinate of the runs is
a polynomial in their nodes, which the table evaluates at zero.  So every state of the extrapolation
of Euler's method and of the leapfrog method comes from the one before it by the Taylor polynomial
of the order that the extrapolation declares (`extrapolate_isTaylor`).
-/

set_option autoImplicit false

namespace Fluxion.Solver

open Matrix
open scoped Polynomial

section Combining

variable {K : Type} [Field K] {n : ℕ}

/-- The Taylor polynomial of the exponential function, at a matrix. -/
def taylor (order : ℕ) (A : Matrix (Fin n) (Fin n) K) : Matrix (Fin n) (Fin n) K :=
  ∑ m ∈ Finset.range (order + 1), (m.factorial : K)⁻¹ • A ^ m

/-- The Taylor polynomial of a matrix, applied to a point coordinate by coordinate. -/
theorem taylor_mulVec (order : ℕ) (A : Matrix (Fin n) (Fin n) K) (x : Fin n → K) (v : Fin n) :
    (taylor order A *ᵥ x) v =
      ∑ m ∈ Finset.range (order + 1), (m.factorial : K)⁻¹ * (A ^ m *ᵥ x) v := by
  rw [taylor, sum_mulVec, Finset.sum_apply]
  exact Finset.sum_congr rfl fun m _ => by rw [smul_mulVec, Pi.smul_apply, smul_eq_mul]

/-- A coordinate of a run, by the powers of the whole step. -/
theorem grown_apply (M : Matrix (Fin n) (Fin n) K) (delta : K) (x : Fin n → K) {P : K[X]}
    {order : ℕ} (hP : P.natDegree ≤ order) {c : ℕ} (v : Fin n) :
    grown M (delta / c) x P v =
      ∑ m ∈ Finset.range (order + 1), P.coeff m / (c : K) ^ m * ((delta • M) ^ m *ᵥ x) v := by
  have hstep : (delta / c) • M = (c : K)⁻¹ • delta • M := by
    rw [smul_smul, div_eq_inv_mul]
  rw [grown, Polynomial.aeval_eq_sum_range' (Nat.lt_succ_of_le hP), sum_mulVec, Finset.sum_apply]
  refine Finset.sum_congr rfl fun m _ => ?_
  rw [hstep, smul_pow, smul_smul, smul_mulVec, Pi.smul_apply, smul_eq_mul, inv_pow, div_eq_mul_inv]

variable [CharZero K] {growth : ℕ → K[X]} {gain runs order : ℕ}

/-- The table evaluates the coordinates of the runs at the node zero. -/
theorem combine_grown (hregular : IsRegular growth gain runs order) (hgain : 0 < gain)
    (hruns : 0 < runs) (M : Matrix (Fin n) (Fin n) K) (delta : K) (x : Fin n → K) :
    combine (runCounts gain runs) gain n
      ((runCounts gain runs).map fun c : ℕ => List.ofFn (grown M (delta / (c : K)) x (growth c))) =
      List.ofFn (taylor order (delta • M) *ᵥ x) := by
  obtain ⟨q, hq⟩ := hregular.coeff_eq
  refine List.ext_getElem (by simp [combine]) fun v hv hv' => ?_
  rw [List.length_ofFn] at hv'
  -- the coordinate as a polynomial in the node
  set w : ℕ → K := fun m => ((delta • M) ^ m *ᵥ x) ⟨v, hv'⟩ with hw
  set p : K[X] := ∑ m ∈ Finset.range (order + 1), w m • q m with hp
  have hle : ∀ m ∈ Finset.range (order + 1), m ≤ order := fun m hm =>
    Nat.lt_succ_iff.mp (Finset.mem_range.mp hm)
  have hdegree : p.degree < runs := by
    rw [← Polynomial.mem_degreeLT]
    refine Submodule.sum_mem _ fun m hm => Submodule.smul_mem _ _ ?_
    exact Polynomial.mem_degreeLT.mpr (hq m (hle m hm)).1
  have hvalues : ∀ i < runs, coordinate (List.ofFn (grown M (delta / ((gain * (i + 1) : ℕ) : K)) x
      (growth (gain * (i + 1))))) v = p.eval (runNode gain (gain * (i + 1))) := by
    intro i hi
    have hcount : ((gain * (i + 1) : ℕ) : K) ≠ 0 := runCount_ne_zero hgain i
    have hcoordinate := coordinate_ofFn (grown M (delta / ((gain * (i + 1) : ℕ) : K)) x
      (growth (gain * (i + 1)))) ⟨v, hv'⟩
    rw [hcoordinate, grown_apply M delta x (hregular.natDegree_le i hi), hp,
      Polynomial.eval_finsetSum]
    refine Finset.sum_congr rfl fun m hm => ?_
    rw [(hq m (hle m hm)).2.2 i hi, mul_div_cancel_left₀ _ (pow_ne_zero m hcount),
      Polynomial.eval_smul, smul_eq_mul, mul_comm]
  have hlimit : p.eval 0 = (taylor order (delta • M) *ᵥ x) ⟨v, hv'⟩ := by
    rw [hp, Polynomial.eval_finsetSum, taylor_mulVec]
    refine Finset.sum_congr rfl fun m hm => ?_
    rw [Polynomial.eval_smul, (hq m (hle m hm)).2.1, smul_eq_mul, mul_comm]
  have htable := neville_runCounts_eq hgain hgain hruns (f := fun c =>
    coordinate (List.ofFn (grown M (delta / (c : K)) x (growth c))) v) hdegree hvalues
  rw [List.getElem_ofFn, ← hlimit, ← htable]
  simp only [combine, List.getElem_map, List.getElem_range, List.map_map]
  rfl

end Combining

section Running

variable {n : ℕ} {field : VectorField ℚ} {M : Matrix (Fin n) (Fin n) ℚ}

/-- The solver declares the order, and every state that it gives comes from the one before it by the
Taylor polynomial of that order: launched with any step above zero from any state that fits the
system, it never fails, and its n-th state is the n-th power of the polynomial times the initial
values. -/
def IsTaylor (s : Solver ℚ) (order : ℕ) (field : VectorField ℚ) (M : Matrix (Fin n) (Fin n) ℚ) :
    Prop :=
  s.description.order = UInt32.ofNat order ∧
  ∀ (initial : State ℚ) (x : Fin n → ℚ) (delta : ℚ), 0 < delta →
    initial.orderedValues field.names = .ok (List.ofFn x) →
    ∃ t, (Trajectory.launch s field initial delta).result = .ok t ∧
      ∀ j, t.item j = some (.ok ⟨initial.time + (j + 1 : ℕ) * delta, field.names,
        List.ofFn (taylor order (delta • M) ^ (j + 1) *ᵥ x)⟩)

section Stepping

variable {base : Solver ℚ} {growth : ℕ → ℚ[X]} {gain runs order : ℕ} (hfield : field.IsLinear M)
  (hfollows : base.Follows field M growth) (hregular : IsRegular growth gain runs order)
  (hgain : base.description.gain = gain) (hexponent : base.description.exponent = gain)
  (hruns : 0 < runs)

include hfield hfollows hregular hgain hexponent

/-- One step of an extrapolation multiplies the values by the Taylor polynomial. -/
theorem advance_extrapolation {delta : ℚ} (hdelta : 0 < delta) (start : ℚ) (j : ℕ)
    (x : Fin n → ℚ) :
    ((Solver.extrapolation base runs hruns).advance field
      (Run.after delta start j (List.ofFn x) none)).result =
      .ok (Run.after delta start (j + 1) (List.ofFn (taylor order (delta • M) *ᵥ x)) none) := by
  set r := Run.after delta start j (List.ofFn x) none with hr
  have hpos : 0 < gain := hgain ▸ base.description.gain_pos
  have hincrement : r.clock.increment = delta := Run.increment_after
  have hfits : (r.state field).orderedValues field.names = .ok (List.ofFn x) :=
    State.orderedValues_self hfield.nodup (hfield.dimension_eq.trans List.length_ofFn.symm)
  -- the base starts anew from the state reached, once for each number of parts
  have hrun : ∀ c ∈ runCounts gain runs,
      (refine (fun origin step => base.launch field origin step) (fun r => base.advance field r)
        (r.state field) delta c).result =
          .ok (List.ofFn (grown M (delta / (c : ℚ)) x (growth c))) := by
    intro c hc
    obtain ⟨i, -, rfl⟩ := List.mem_map.mp hc
    have hcount : 0 < gain * (i + 1) := Nat.mul_pos hpos i.succ_pos
    have hstep : IsPositive (delta / ((gain * (i + 1) : ℕ) : ℚ)) :=
      isPositive_iff.mpr (div_pos hdelta (Nat.cast_pos.mpr hcount))
    obtain ⟨r₀, hlaunch, hadvance⟩ := hfollows (r.state field) x _ hstep hfits
    obtain ⟨r₁, hlast, hvalues⟩ := hadvance (gain * (i + 1))
    rw [← hvalues]
    exact result_refine hcount hlaunch hlast
  have hcombine := combine_grown hregular hpos hruns M delta x
  rw [Solver.advance, coefficients_eq, hgain, hexponent, hincrement,
    Attempt.result_bind_of_ok (Attempt.result_mapM hrun), Run.values_after, List.length_ofFn,
    hcombine]
  exact Run.result_reach _ _

/-- Extrapolation of a base with regular growth takes Taylor steps of the order that it declares. -/
theorem isTaylor_extrapolation
    (horder : (Solver.extrapolation base runs hruns).description.order = UInt32.ofNat order) :
    (Solver.extrapolation base runs hruns).IsTaylor order field M := by
  refine ⟨horder, fun initial x delta hdelta hfits => ?_⟩
  set stages : ℕ → Run ℚ := fun j =>
    Run.after delta initial.time j (List.ofFn (taylor order (delta • M) ^ j *ᵥ x)) none with hstages
  have hpositive : IsPositive delta := isPositive_iff.mpr hdelta
  have hstart : Run.start field initial delta = .ok (stages 0) := by
    rw [hstages]
    simp only [pow_zero, one_mulVec]
    exact Run.result_start hpositive hfits
  obtain ⟨r, hbase, -⟩ := hfollows initial x delta hpositive hfits
  have hlaunch : ((Solver.extrapolation base runs hruns).launch field initial delta).result =
      .ok (stages 0) := by
    rw [Solver.launch, hstart]
    show (_ >>= _ : SolverAttempt ℚ (Run ℚ)).result = _
    rw [Attempt.result_bind_of_ok rfl, Attempt.result_bind_of_ok hbase]
    rfl
  have hadvance : ∀ j, ((Solver.extrapolation base runs hruns).advance field (stages j)).result =
      .ok (stages (j + 1)) := by
    intro j
    have hstep := advance_extrapolation hfield hfollows hregular hgain hexponent hruns hdelta
      initial.time j (taylor order (delta • M) ^ j *ᵥ x)
    rwa [mulVec_mulVec, ← pow_succ'] at hstep
  obtain ⟨t, ht, hitems⟩ := Trajectory.exists_launch_of_stages hlaunch hadvance
  refine ⟨t, ht, fun j => ?_⟩
  rw [hitems, Run.state_after]

end Stepping

end Running

end Fluxion.Solver
