import Fluxion.Proofs.Solver.ExplicitMethod
import Fluxion.Proofs.Solver.TaylorOrder

/-!
# The order of the explicit one-step methods

In a field a method with stages is exact on two classes of systems up to its order.

On a linear system `x' = M x` the stages are polynomials in `h • M`, applied to the values, and a
step multiplies the values by one more (`Tableau.growth`).  If this is the Taylor polynomial of the
exponential function, then so does every step (`Tableau.HasOrder.valuesAfter_linear`).

On a system `x' = q(t)` the stages are values of `q` at the nodes, and a step adds their weighted
sum. If the nodes and the weights integrate the powers below the order over the unit interval, then
they integrate every polynomial of a degree below the order over any interval (`quadrature_exact`),
and the steps add up to the integral from the start (`Tableau.HasOrder.valuesAfter_integrand`).

Euler's method, Heun's, Kutta's and the classical one meet both conditions for the orders 1, 2, 3
and 4, which are those that they declare (`Solver.oneStep_meetsOrder`).
-/

set_option autoImplicit false

namespace Fluxion

open Matrix Polynomial

variable {K : Type} [Field K] {n : ℕ}

/-! ## Sums -/

section Sums

variable {β : Type}

/-- Adding up a row from the left gives its sum. -/
theorem foldl_add_eq_sum (l : List β) (f : β → K) (a : K) :
    l.foldl (fun sum b => sum + f b) a = a + (l.map f).sum := by
  induction l generalizing a with
  | nil => simp
  | cons b l ih => rw [List.foldl_cons, ih, List.map_cons, List.sum_cons, add_assoc]

/-- Adding up a row with the new term in front gives its sum. -/
theorem foldl_add_left_eq_sum (l : List β) (f : β → K) (a : K) :
    l.foldl (fun sum b => f b + sum) a = a + (l.map f).sum := by
  rw [← foldl_add_eq_sum]
  congr 1
  funext sum b
  exact add_comm _ _

end Sums

namespace Tableau

/-- In a field the node of a stage is the sum of its row. -/
theorem node_eq_sum (row : List K) : node row = row.sum := by
  have hsum := foldl_add_eq_sum row (fun a => a) (zero : K)
  rw [node, hsum, List.map_id', zero_eq, zero_add]

/-- In a field the sum over the earlier stages may be taken in any order. -/
theorem earlierSum_eq_sum (row : List K) (earlier : List (List K)) (v : ℕ) :
    earlierSum row earlier v =
      ((row.zip earlier).map fun p => p.1 * coordinate p.2 v).sum := by
  have hsum := foldl_add_eq_sum (row.zip earlier) (fun p => p.1 * coordinate p.2 v) (-zero)
  rw [earlierSum]
  rw [zero_eq, neg_zero, zero_add] at hsum
  rw [← hsum, zero_eq, neg_zero]

/-- In a field the weighted sum may be taken in any order. -/
theorem weightedSum_eq_sum (weights : List K) (rates : List (List K)) (v : ℕ) :
    weightedSum weights rates v =
      ((rates.zip weights).map fun p => coordinate p.1 v * p.2).sum := by
  unfold weightedSum
  cases rates.zip weights with
  | nil => simp
  | cons p rest =>
    have hsum := foldl_add_left_eq_sum rest (fun p => coordinate p.1 v * p.2)
      (coordinate p.1 v * p.2)
    rw [List.map_cons, List.sum_cons]
    exact hsum

/-! ## Linear systems -/

/-- The polynomials of the stages: the rate of a stage is the matrix times what the polynomial makes
of the values. -/
noncomputable def stageGrowths (rows : List (List K)) : List K[X] :=
  rows.foldl (fun earlier row =>
    earlier ++ [1 + X * ((row.zip earlier).map fun p => C p.1 * p.2).sum]) []

/-- What a step multiplies the values by. -/
noncomputable def growth (tab : Tableau K) : K[X] :=
  1 + X * (((stageGrowths tab.rows).zip tab.weights).map fun p => C p.2 * p.1).sum

section Linear

variable {M : Matrix (Fin n) (Fin n) K} {h : K} {x : Fin n → K}

/-- A multiple of a growth takes a point to the multiple. -/
theorem grown_smul (a : K) (P : K[X]) :
    Solver.grown M h x (C a * P) = a • Solver.grown M h x P := by
  rw [Solver.grown, map_mul, aeval_C, Algebra.algebraMap_eq_smul_one, smul_mul_assoc, one_mul,
    smul_mulVec, Solver.grown]

/-- The matrix may be moved into a combination of growths. -/
theorem mulVec_grown_sum {β : Type} (l : List β) (a : β → K) (P : β → K[X]) (v : Fin n) :
    (M *ᵥ Solver.grown M h x (l.map fun b => C (a b) * P b).sum) v =
      (l.map fun b => a b * (M *ᵥ Solver.grown M h x (P b)) v).sum := by
  induction l with
  | nil => simp [Solver.grown]
  | cons b l ih =>
    rw [List.map_cons, List.sum_cons, Solver.grown_add, grown_smul, mulVec_add, mulVec_smul,
      Pi.add_apply, ih, Pi.smul_apply, smul_eq_mul, List.map_cons, List.sum_cons]

/-- One more factor of the matrix, behind the values themselves. -/
theorem grown_one_add_X_mul_apply (P : K[X]) (v : Fin n) :
    Solver.grown M h x (1 + X * P) v = x v + h * (M *ᵥ Solver.grown M h x P) v := by
  rw [Solver.grown_add, Solver.grown_one, Solver.grown_X_mul, Pi.add_apply, Pi.smul_apply,
    smul_eq_mul]

/-- On a linear field the point of a stage has grown by a polynomial of the earlier stages. -/
theorem stagePoint_linear (row : List K) (earlier : List K[X]) :
    stagePoint h (List.ofFn x) row
        (earlier.map fun P => List.ofFn (M *ᵥ Solver.grown M h x P)) =
      List.ofFn (Solver.grown M h x
        (1 + X * ((row.zip earlier).map fun p => C p.1 * p.2).sum)) := by
  apply map_range_eq_ofFn List.length_ofFn
  intro v
  rw [grown_one_add_X_mul_apply, mulVec_grown_sum, earlierSum_eq_sum, List.zip_map_right,
    List.map_map, coordinate_ofFn]
  simp [Function.comp_def]

variable {field : VectorField K}

/-- On a linear field the stages are growths of the point, multiplied by the matrix. -/
theorem stageRates_linear (hfield : field.IsLinear M) (tab : Tableau K) (t : K) :
    tab.stageRates field t h (List.ofFn x) =
      (stageGrowths tab.rows).map fun P => List.ofFn (M *ᵥ Solver.grown M h x P) := by
  have hfold : ∀ (rows : List (List K)) (earlier : List K[X]),
      rows.foldl (nextStage field t h (List.ofFn x))
        (earlier.map fun P => List.ofFn (M *ᵥ Solver.grown M h x P)) =
      (rows.foldl (fun earlier row =>
        earlier ++ [1 + X * ((row.zip earlier).map fun p => C p.1 * p.2).sum]) earlier).map
          fun P => List.ofFn (M *ᵥ Solver.grown M h x P) := by
    intro rows
    induction rows with
    | nil => exact fun _ => rfl
    | cons row rows ih =>
      intro earlier
      rw [List.foldl_cons, nextStage, stagePoint_linear, hfield.rates_ofFn, List.foldl_cons, ← ih,
        List.map_append, List.map_singleton]
  exact hfold tab.rows []

/-- A step multiplies the values by the growth of the table. -/
theorem advance_linear (hfield : field.IsLinear M) (tab : Tableau K) (t : K) :
    tab.advance field t h (List.ofFn x) = List.ofFn (Solver.grown M h x tab.growth) := by
  apply map_range_eq_ofFn List.length_ofFn
  intro v
  unfold growth
  rw [grown_one_add_X_mul_apply, mulVec_grown_sum, weightedSum_eq_sum, stageRates_linear hfield,
    List.zip_map_left, List.map_map, coordinate_ofFn]
  simp [Function.comp_def, mul_comm]

end Linear

end Tableau

/-! ## Integrands -/

section Quadrature

variable {q Q : K[X]} {order : ℕ}

/-- The derivative, by the coefficients of the polynomial. -/
theorem eval_derivative_eq_sum (hQ : Q.natDegree ≤ order) (c : K) :
    Q.derivative.eval c = ∑ m ∈ Finset.range order, Q.coeff (m + 1) * (m + 1) * c ^ m := by
  have hdegree : Q.derivative.natDegree < order + 1 :=
    Nat.lt_succ_of_le ((natDegree_derivative_le Q).trans (Nat.sub_le_of_le_add (by omega)))
  have hlast : Q.coeff (order + 1) = 0 := coeff_eq_zero_of_natDegree_lt (Nat.lt_succ_of_le hQ)
  rw [eval_eq_sum_range' hdegree, Finset.sum_range_succ]
  simp [coeff_derivative, hlast]

variable [CharZero K]

/-- An antiderivative has a degree that is higher by one at most. -/
theorem natDegree_le_of_derivative (hq : Q.derivative.degree < order) : Q.natDegree ≤ order := by
  rw [natDegree_le_iff_coeff_eq_zero]
  intro m hm
  obtain ⟨m, rfl⟩ := Nat.exists_eq_succ_of_ne_zero (Nat.ne_of_gt (Nat.zero_lt_of_lt hm))
  have hle : (order : WithBot ℕ) ≤ m := Nat.cast_le.mpr (Nat.le_of_lt_succ hm)
  have hzero := coeff_eq_zero_of_degree_lt (hq.trans_le hle)
  rw [coeff_derivative] at hzero
  exact (mul_eq_zero.mp hzero).resolve_right (Nat.cast_add_one_ne_zero m)

/-- Nodes and weights that integrate the powers below the order over the unit interval integrate
every polynomial of a degree below the order over every interval. -/
theorem quadrature_exact {l : List (K × K)}
    (hl : ∀ m < order, (l.map fun p => p.1 ^ m * p.2).sum = 1 / (m + 1))
    (hq : q.degree < order) (hQ : Q.derivative = q) (t h : K) :
    h * (l.map fun p => q.eval (t + p.1 * h) * p.2).sum = Q.eval (t + h) - Q.eval t := by
  -- both sides by the coefficients of the antiderivative around `t`
  set T := taylor t Q with hT
  have hderivative : T.derivative = taylor t q := by
    rw [hT, taylor_apply, derivative_comp, hQ, taylor_apply]
    simp
  have hdegree : T.natDegree ≤ order := by
    apply natDegree_le_of_derivative
    rwa [hderivative, degree_taylor]
  have hvalue : ∀ c, q.eval (t + c * h) =
      ∑ m ∈ Finset.range order, T.coeff (m + 1) * (m + 1) * (c * h) ^ m := by
    intro c
    rw [← eval_derivative_eq_sum hdegree, hderivative, taylor_eval, add_comm]
  have hincrement : Q.eval (t + h) - Q.eval t =
      ∑ m ∈ Finset.range order, T.coeff (m + 1) * h ^ (m + 1) := by
    have hend : Q.eval (t + h) = T.eval h := by rw [hT, taylor_eval, add_comm]
    have hstart : Q.eval t = T.coeff 0 := by rw [hT, taylor_coeff_zero]
    rw [hend, hstart, eval_eq_sum_range' (Nat.lt_succ_of_le hdegree), Finset.sum_range_succ',
      pow_zero, mul_one, add_sub_cancel_right]
  have hswap : (l.map fun p => q.eval (t + p.1 * h) * p.2).sum =
      ∑ m ∈ Finset.range order, T.coeff (m + 1) * (m + 1) * h ^ m *
        (l.map fun p => p.1 ^ m * p.2).sum := by
    clear hl
    induction l with
    | nil => simp
    | cons p l ih =>
      rw [List.map_cons, List.sum_cons, ih, hvalue, Finset.sum_mul, ← Finset.sum_add_distrib]
      refine Finset.sum_congr rfl fun m _ => ?_
      rw [List.map_cons, List.sum_cons]
      ring
  rw [hswap, hincrement, Finset.mul_sum]
  refine Finset.sum_congr rfl fun m hm => ?_
  have hne : (m + 1 : K) ≠ 0 := Nat.cast_add_one_ne_zero m
  rw [hl m (Finset.mem_range.mp hm)]
  field_simp
  ring

end Quadrature

namespace VectorField

/-- The right-hand side of each variable is a polynomial in the time, and depends on nothing
else. -/
structure IsIntegrand (field : VectorField K) (q : Fin n → K[X]) : Prop where
  nodup : field.names.Nodup
  dimension_eq : field.dimension = n
  component_eq : ∀ (i : Fin n) (t : K) (x : List K), field.component i t x = (q i).eval t

/-- The system of these polynomials. -/
noncomputable def integrand (names : List String) (q : Fin n → K[X]) : VectorField K where
  names := names
  component i t _ := if hi : i < n then (q ⟨i, hi⟩).eval t else 0

/-- The field of a row of polynomials integrates these polynomials. -/
theorem isIntegrand_integrand {names : List String} (hnodup : names.Nodup)
    (hlength : names.length = n) (q : Fin n → K[X]) : (integrand names q).IsIntegrand q :=
  ⟨hnodup, hlength, fun i _ _ => dif_pos i.isLt⟩

/-- The rates of an integrand are the values of its polynomials. -/
theorem IsIntegrand.rates_eq {field : VectorField K} {q : Fin n → K[X]} (h : field.IsIntegrand q)
    (t : K) (x : List K) : field.rates t x = List.ofFn fun v => (q v).eval t := by
  apply map_range_eq_ofFn h.dimension_eq
  intro v
  exact h.component_eq v t x

end VectorField

namespace Tableau

variable {field : VectorField K} {q Q : Fin n → K[X]} {tab : Tableau K} {x : Fin n → K} {h : K}
  {order : ℕ}

/-- On an integrand the stages are the values at the nodes. -/
theorem stageRates_integrand (hfield : field.IsIntegrand q) (t : K) (x : List K) :
    tab.stageRates field t h x =
      tab.nodes.map fun c => List.ofFn fun v => (q v).eval (t + c * h) := by
  have hfold : ∀ (rows earlier : List (List K)), rows.foldl (nextStage field t h x) earlier =
      earlier ++ rows.map fun row => List.ofFn fun v => (q v).eval (t + node row * h) := by
    intro rows
    induction rows with
    | nil => simp
    | cons row rows ih =>
      intro earlier
      rw [List.foldl_cons, ih, nextStage, hfield.rates_eq, List.append_assoc, List.singleton_append,
        List.map_cons]
  rw [stageRates, hfold, List.nil_append, nodes, List.map_map]
  rfl

/-- A step adds the weighted sum of the values at the nodes. -/
theorem advance_integrand (hfield : field.IsIntegrand q) (t : K) :
    tab.advance field t h (List.ofFn x) = List.ofFn fun v =>
      x v + h * ((tab.nodes.zip tab.weights).map fun p => (q v).eval (t + p.1 * h) * p.2).sum := by
  apply map_range_eq_ofFn List.length_ofFn
  intro v
  rw [weightedSum_eq_sum, stageRates_integrand hfield, List.zip_map_left, List.map_map,
    coordinate_ofFn]
  simp [Function.comp_def]

/-! ## Order conditions -/

/-- The Taylor polynomial of the exponential function. -/
noncomputable def exponentialTaylor (order : ℕ) : K[X] :=
  ∑ m ∈ Finset.range (order + 1), C (m.factorial : K)⁻¹ * X ^ m

/-- The Taylor polynomial of the exponential function grows a point as that of the matrix does. -/
theorem grown_exponentialTaylor (M : Matrix (Fin n) (Fin n) K) (order : ℕ) :
    Solver.grown M h x (exponentialTaylor order) = Solver.taylor order (h • M) *ᵥ x := by
  rw [Solver.grown, exponentialTaylor, Solver.taylor, map_sum]
  simp only [map_mul, aeval_C, map_pow, aeval_X, Algebra.algebraMap_eq_smul_one, smul_mul_assoc,
    one_mul]

/-- The conditions under which a table is exact up to an order: it multiplies the values of a linear
system by the Taylor polynomial, and its nodes and weights integrate the powers of the time. -/
structure HasOrder (tab : Tableau K) (order : ℕ) : Prop where
  growth_eq : tab.growth = exponentialTaylor order
  integrates : ∀ m < order,
    ((tab.nodes.zip tab.weights).map fun p => p.1 ^ m * p.2).sum = 1 / (m + 1)

/-- In a field the n-th time is the n-th multiple of the step. -/
theorem timeAt_eq (start step : K) (j : ℕ) : timeAt start step j = start + j * step := by
  cases j with
  | zero => simp [timeAt]
  | succ j => rfl

/-- On a linear field every step multiplies by the Taylor polynomial of the exponential function. -/
theorem HasOrder.valuesAfter_linear (htab : tab.HasOrder order) {M : Matrix (Fin n) (Fin n) K}
    (hfield : field.IsLinear M) (start step : K) (j : ℕ) :
    tab.valuesAfter field start step (List.ofFn x) j =
      List.ofFn (Solver.taylor order (step • M) ^ j *ᵥ x) := by
  induction j with
  | zero => rw [valuesAfter, pow_zero, one_mulVec]
  | succ j ih =>
    rw [valuesAfter, ih, advance_linear hfield, htab.growth_eq, grown_exponentialTaylor,
      mulVec_mulVec, pow_succ']

/-- On an integrand of small degree every step adds the exact integral. -/
theorem HasOrder.valuesAfter_integrand [CharZero K] (htab : tab.HasOrder order)
    (hfield : field.IsIntegrand q) (hq : ∀ v, (q v).degree < order)
    (hQ : ∀ v, (Q v).derivative = q v) (start step : K) (j : ℕ) :
    tab.valuesAfter field start step (List.ofFn x) j =
      List.ofFn fun v => x v + ((Q v).eval (start + j * step) - (Q v).eval start) := by
  induction j with
  | zero => simp [valuesAfter]
  | succ j ih =>
    rw [valuesAfter, ih, advance_integrand hfield, timeAt_eq]
    congr 1
    funext v
    have hnext : start + j * step + step = start + (j + 1 : ℕ) * step := by
      push_cast
      ring
    rw [quadrature_exact htab.integrates (hq v) (hQ v), hnext]
    ring

/-! ## The tables of the built-in methods -/

/-- Euler's method, as a table of one stage. -/
def euler : Tableau K := ⟨[[zero]], [one]⟩

section Standard

variable [CharZero K]

/-- Euler's table has order one. -/
theorem hasOrder_euler : (euler : Tableau K).HasOrder 1 := by
  constructor
  · simp [growth, stageGrowths, exponentialTaylor, euler, Finset.sum_range_succ]
  · intro m hm
    interval_cases m
    simp [nodes, node_eq_sum, euler]

/-- Heun's table has order two. -/
theorem hasOrder_heun : (heun : Tableau K).HasOrder 2 := by
  constructor
  · apply Polynomial.funext
    intro r
    simp [growth, stageGrowths, exponentialTaylor, heun, ratio, Finset.sum_range_succ]
    field_simp
    ring
  · intro m hm
    interval_cases m <;> norm_num [nodes, node_eq_sum, heun, ratio]

/-- Kutta's table has order three. -/
theorem hasOrder_kutta : (kutta : Tableau K).HasOrder 3 := by
  constructor
  · apply Polynomial.funext
    intro r
    simp [growth, stageGrowths, exponentialTaylor, kutta, ratio, Finset.sum_range_succ,
      Nat.factorial]
    field_simp
    ring
  · intro m hm
    interval_cases m <;> norm_num [nodes, node_eq_sum, kutta, ratio]

/-- The classical table has order four. -/
theorem hasOrder_classical : (classical : Tableau K).HasOrder 4 := by
  constructor
  · apply Polynomial.funext
    intro r
    simp [growth, stageGrowths, exponentialTaylor, classical, ratio, Finset.sum_range_succ,
      Nat.factorial]
    field_simp
    ring
  · intro m hm
    interval_cases m <;> norm_num [nodes, node_eq_sum, classical, ratio]

end Standard

/-- One step of Euler's method. -/
theorem advance_euler {field : VectorField K} {x : List K} (hx : x.length = field.dimension)
    (t h : K) : euler.advance field t h x = Solver.along x h (field.rates t x) := by
  have hpoint : stagePoint h x [zero] [] = x := by
    apply List.ext_getElem
    · simp [stagePoint]
    · intro v hv hv'
      simp [stagePoint, earlierSum, coordinate_eq_getElem hv']
  have hrates : euler.stageRates field t h x = [field.rates t x] := by
    show [field.rates (t + node [zero] * h) (stagePoint h x [zero] [])] = _
    rw [hpoint, node_eq_sum]
    simp
  have hlength : (field.rates t x).length = x.length := by simp [VectorField.rates, hx]
  apply List.ext_getElem
  · simp [advance, Solver.along, hlength]
  · intro v hv hv'
    have hlt : v < x.length := by simpa [advance] using hv
    have hrate : v < (field.rates t x).length := hlength ▸ hlt
    simp only [advance, List.getElem_map, List.getElem_range]
    rw [weightedSum_eq_sum, hrates]
    simp [euler, Solver.along, coordinate_eq_getElem hlt, coordinate_eq_getElem hrate]

end Tableau

/-! ## Solvers -/

namespace Solver

variable [LT K] [DecidableLT K] [Finiteness K]

/-- The solver makes the steps of a table: it is launched whenever the step is a positive number and
the state fits, and never fails. -/
def StepsBy (s : Solver K) (tab : Tableau K) : Prop :=
  ∀ (field : VectorField K) (initial : State K) (step : K) (x : List K), IsPositive step →
    initial.orderedValues field.names = .ok x →
    ∃ t, (Trajectory.launch s field initial step).result = .ok t ∧
      ∀ j, t.item j = some (.ok ⟨timeAt initial.time step (j + 1), field.names,
        tab.valuesAfter field initial.time step x (j + 1)⟩)

/-- A method with stages steps by its table. -/
theorem stages_stepsBy (name : String) (order : UInt32) (tab : Tableau K) :
    (Solver.stages name order tab).StepsBy tab :=
  fun _ _ _ _ hstep hx => Trajectory.item_stages name order tab hstep hx

/-- Euler's method steps by the table with one stage. -/
theorem euler_stepsBy : (Solver.euler : Solver K).StepsBy Tableau.euler := by
  intro field initial step x hstep hx
  have hlaunch : (Solver.euler.launch field initial step).result =
      .ok (Run.after step initial.time 0 x none) := by
    rw [Solver.launch, Attempt.result_announcing]
    exact Run.result_start hstep hx
  have hlength : x.length = field.dimension := State.length_of_orderedValues hx
  have hadvance : ∀ j, (Solver.euler.advance field (Run.after step initial.time j
      (Tableau.euler.valuesAfter field initial.time step x j) none)).result =
      .ok (Run.after step initial.time (j + 1)
        (Tableau.euler.valuesAfter field initial.time step x (j + 1)) none) := by
    intro j
    rw [Solver.advance, Run.increment_after, Run.values_after, Tableau.valuesAfter,
      Tableau.advance_euler (Tableau.length_valuesAfter hlength j), ← Clock.target_after_eq_timeAt]
    exact Run.result_reach _ _
  obtain ⟨t, ht, hitems⟩ := Trajectory.exists_launch_of_stages hlaunch hadvance
  refine ⟨t, ht, fun j => ?_⟩
  rw [hitems, Run.state, Run.time]
  show some (Except.ok (State.mk (Clock.after step initial.time (j + 1)).current.target _ _)) = _
  rw [Clock.target_after_eq_timeAt]
  rfl

/-- The solver declares the order, and never fails on two classes of systems, on which it is exact.
On a linear system the n-th state is the n-th power of the Taylor polynomial of that order times the
initial values.  On a system `x' = q(t)` with polynomials of a degree below the order the n-th state
is the initial one plus the integral of `q` over the time that has passed, `Q` being any
antiderivative. -/
structure MeetsOrder (s : Solver K) (order : ℕ) : Prop where
  order_eq : s.description.order = UInt32.ofNat order
  linear : ∀ {n : ℕ} (field : VectorField K) (M : Matrix (Fin n) (Fin n) K), field.IsLinear M →
    ∀ (initial : State K) (x : Fin n → K) (step : K), IsPositive step →
    initial.orderedValues field.names = .ok (List.ofFn x) →
    ∃ t, (Trajectory.launch s field initial step).result = .ok t ∧
      ∀ j, t.item j = some (.ok ⟨initial.time + (j + 1 : ℕ) * step, field.names,
        List.ofFn (taylor order (step • M) ^ (j + 1) *ᵥ x)⟩)
  integrand : ∀ {n : ℕ} (field : VectorField K) (q Q : Fin n → K[X]), field.IsIntegrand q →
    (∀ v, (q v).degree < order) → (∀ v, (Q v).derivative = q v) →
    ∀ (initial : State K) (x : Fin n → K) (step : K), IsPositive step →
    initial.orderedValues field.names = .ok (List.ofFn x) →
    ∃ t, (Trajectory.launch s field initial step).result = .ok t ∧
      ∀ j, t.item j = some (.ok ⟨initial.time + (j + 1 : ℕ) * step, field.names,
        List.ofFn fun v => x v + ((Q v).eval (initial.time + (j + 1 : ℕ) * step) -
          (Q v).eval initial.time)⟩)

variable [CharZero K]

/-- A solver that steps by a table of its declared order meets this order. -/
theorem StepsBy.meetsOrder {s : Solver K} {tab : Tableau K} {order : ℕ} (hs : s.StepsBy tab)
    (htab : tab.HasOrder order) (horder : s.description.order = UInt32.ofNat order) :
    s.MeetsOrder order := by
  refine ⟨horder, ?_, ?_⟩
  · intro n field M hfield initial x step hstep hx
    obtain ⟨t, ht, hitems⟩ := hs field initial step _ hstep hx
    refine ⟨t, ht, fun j => ?_⟩
    rw [hitems, Tableau.timeAt_eq, htab.valuesAfter_linear hfield]
  · intro n field q Q hfield hq hQ initial x step hstep hx
    obtain ⟨t, ht, hitems⟩ := hs field initial step _ hstep hx
    refine ⟨t, ht, fun j => ?_⟩
    rw [hitems, Tableau.timeAt_eq, htab.valuesAfter_integrand hfield hq hQ]

/-- The built-in explicit one-step methods meet the orders that they declare. -/
theorem oneStep_meetsOrder :
    (Solver.euler : Solver K).MeetsOrder 1 ∧ (Solver.heun : Solver K).MeetsOrder 2 ∧
      (Solver.kutta : Solver K).MeetsOrder 3 ∧ (Solver.classical : Solver K).MeetsOrder 4 :=
  ⟨euler_stepsBy.meetsOrder Tableau.hasOrder_euler rfl,
    (stages_stepsBy _ _ _).meetsOrder Tableau.hasOrder_heun rfl,
    (stages_stepsBy _ _ _).meetsOrder Tableau.hasOrder_kutta rfl,
    (stages_stepsBy _ _ _).meetsOrder Tableau.hasOrder_classical rfl⟩

/-- The classical method on the oscillator `x' = v`, `v' = -x` from `(1, 0)` with the step `1`, and
on `x' = 4 t ^ 3` from `1` at the time `1` with the step `1/2`, where every state is the fourth
power of its time. -/
theorem oneStep_meetsOrder_classical :
    let circle := VectorField.linear ["x", "v"] !![0, 1; -1, (0 : ℚ)]
    let cubic := VectorField.integrand ["x"] ![(C 4 * X ^ 3 : ℚ[X])]
    (∃ t, (Trajectory.launch .classical circle ⟨0, ["x", "v"], [1, 0]⟩ 1).result = .ok t ∧
      t.item 0 = some (.ok ⟨1, ["x", "v"], [13 / 24, -5 / 6]⟩)) ∧
    ∃ t, (Trajectory.launch .classical cubic ⟨1, ["x"], [1]⟩ (1 / 2)).result = .ok t ∧
      ∀ j, t.item j = some (.ok ⟨1 + (j + 1 : ℕ) * (1 / 2), ["x"],
        [(1 + (j + 1 : ℕ) * (1 / 2)) ^ 4]⟩) := by
  intro circle cubic
  obtain ⟨-, -, -, hclassical⟩ := oneStep_meetsOrder (K := ℚ)
  constructor
  · have hlinear : circle.IsLinear !![0, 1; -1, (0 : ℚ)] :=
      VectorField.isLinear_linear (by decide) rfl _
    have hfits : (State.mk 0 ["x", "v"] [1, (0 : ℚ)]).orderedValues circle.names =
        .ok (List.ofFn ![1, 0]) := State.orderedValues_self hlinear.nodup rfl
    obtain ⟨t, ht, hitems⟩ := hclassical.linear circle _ hlinear _ _ 1
      (isPositive_iff.mpr one_pos) hfits
    refine ⟨t, ht, ?_⟩
    have hvalues : List.ofFn (taylor 4 ((1 : ℚ) • !![0, 1; -1, (0 : ℚ)]) ^ (0 + 1) *ᵥ ![1, 0]) =
        [13 / 24, -5 / 6] := by
      norm_num [taylor, Finset.sum_range_succ, Nat.factorial, pow_succ]
    rw [hitems 0, hvalues]
    norm_num [circle, VectorField.linear]
  · have hintegrand : cubic.IsIntegrand ![(C 4 * X ^ 3 : ℚ[X])] :=
      VectorField.isIntegrand_integrand (by decide) rfl _
    have hfits : (State.mk 1 ["x"] [(1 : ℚ)]).orderedValues cubic.names =
        .ok (List.ofFn ![1]) := State.orderedValues_self hintegrand.nodup rfl
    have hdegree : ∀ v, (![(C 4 * X ^ 3 : ℚ[X])] v).degree < (4 : ℕ) := by
      rw [Fin.forall_fin_one]
      exact (degree_C_mul_X_pow_le 3 4).trans_lt (by decide)
    have hderivative : ∀ v, (![(X ^ 4 : ℚ[X])] v).derivative = ![(C 4 * X ^ 3 : ℚ[X])] v := by
      rw [Fin.forall_fin_one]
      exact derivative_X_pow 4
    obtain ⟨t, ht, hitems⟩ := hclassical.integrand cubic _ _ hintegrand hdegree hderivative _ _
      (1 / 2) (isPositive_iff.mpr (by norm_num)) hfits
    refine ⟨t, ht, fun j => ?_⟩
    rw [hitems j]
    simp [cubic, VectorField.integrand]

end Solver

end Fluxion
