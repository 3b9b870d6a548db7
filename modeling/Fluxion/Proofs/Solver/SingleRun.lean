import Fluxion.Proofs.Decimal.DivisionByOne
import Fluxion.Proofs.Equations.WellFormed
import Fluxion.Proofs.Solver.Timeless

/-!
# Extrapolation from a single run

Extrapolation from one run of a solver that is not symmetric makes every step with one step of its
base, from a run that it starts where its own run stands.  The base on its own goes on with the run
that it has.  Both take the same step: what such a solver does depends on the time, the step and the
values of a run, and not on the steps behind it (`Solver.result_advance_congr`), the step divided by
one is the step, and a table of one row combines to this row (`Solver.combine_single`).

So a run is extrapolated to itself step after step, whatever the base is nested in, and the two
solvers are refused alike, give the same states at the same times and fail with the same errors
(`Trajectory.launch_single_coupled`).  On binary64 numbers nothing is assumed of the arithmetic
(`Trajectory.extrapolate_one`).
-/

set_option autoImplicit false

namespace Fluxion

/-! ## Steps -/

section

variable {α : Type}

/-- A single run of a base that is not symmetric has one step. -/
theorem Solver.coefficients_single {base : Solver α} (hbase : base.description.symmetric = false) :
    base.coefficients 1 = [1] := by
  simp [coefficients, Description.gain, hbase]

variable [Arithmetic α]

/-- Two runs at the same time with the same step and the same values. -/
structure Run.SamePoint (r r' : Run α) : Prop where
  time_eq : r'.time = r.time
  increment_eq : r'.clock.increment = r.clock.increment
  values_eq : r'.values = r.values

namespace Solver

/-- A table of one row combines to this row. -/
theorem combine_single (count : ℕ) (exponent : ℤ) (values : List α) :
    combine [count] exponent values.length [values] = values := by
  apply List.ext_getElem
  · simp [combine]
  · intro v hv hv'
    simp [combine, neville, coordinate, hv']

/-- A base that divides a step into one part makes one step with the whole of it. -/
theorem result_refine_single {begin : State α → α → SolverAttempt α (Run α)}
    {next : Run α → SolverAttempt α (Run α)} {origin : State α} {step : α} {r : Run α}
    (hstep : step / ((1 : ℕ) : α) = step)
    (hbegin : (begin origin step).result = .ok r) :
    (refine begin next origin step 1).result =
      (next r).result >>= fun reached => .ok reached.values := by
  unfold Solver.refine
  rw [hstep, Attempt.result_bind_of_ok hbegin, if_neg Nat.one_ne_zero, Attempt.result_bind]
  have hadvance : advanceBy next 1 r = next r := bind_pure (next r)
  rw [hadvance]
  rfl

variable [LT α] [DecidableLT α] [Finiteness α] {field : VectorField α} {base : Solver α}
  {r r' : Run α} {step start : α} {n : ℕ}

/-- What a solver that is not symmetric does depends on the time, the step and the values, but for
the clock that goes on. -/
theorem result_advance_congr (hbase : base.description.symmetric = false) (h : r.SamePoint r') :
    (base.advance field r).result =
      (base.advance field r').result >>= fun next => (r.reach next.values none).result := by
  cases base with
  | euler =>
    unfold advance
    rw [h.time_eq, h.increment_eq, h.values_eq]
    rfl
  | midpoint => cases hbase
  | stages name order tableau =>
    unfold advance
    rw [h.time_eq, h.increment_eq, h.values_eq]
    rfl
  | semiImplicit newton => cases hbase
  | extrapolation inner runs hruns =>
    have hstate : r'.state field = r.state field := by
      rw [Run.state, Run.state, h.time_eq, h.values_eq]
    unfold advance
    dsimp only
    rw [hstate, h.increment_eq, h.values_eq, Attempt.result_bind, Attempt.result_bind, bind_assoc]
    rfl

/-- A step of the extrapolation from one run is a step of the base. -/
theorem result_advance_single (hbase : base.description.symmetric = false)
    (hstep : step / ((1 : ℕ) : α) = step) (hpositive : IsPositive step) (hnodup : field.names.Nodup)
    (hsuits : base.Suits field) (hstage : r.IsStage field step start n) :
    ((Solver.extrapolation base 1 Nat.one_pos).advance field r).result =
      (base.advance field r).result := by
  -- the run that the base is launched on
  set fresh : Run α := Run.after step r.time 0 r.values none with hfresh
  have hfits : (r.state field).orderedValues field.names = .ok r.values :=
    State.orderedValues_self hnodup hstage.length_values.symm
  have hlaunch : (base.launch field (r.state field) step).result = .ok fresh :=
    (result_launch_of_suits hsuits _ _).trans (Run.result_start hpositive hfits)
  have hsame : r.SamePoint fresh := by
    refine ⟨rfl, ?_, rfl⟩
    rw [hfresh, Run.increment_after, hstage.increment_eq]
  have hrow : (refine (fun origin step => base.launch field origin step)
      (fun r => base.advance field r) (r.state field) step 1).result =
        (base.advance field fresh).result >>= fun reached => .ok reached.values :=
    result_refine_single hstep hlaunch
  rw [result_advance_congr hbase hsame, advance, hstage.increment_eq, coefficients_single hbase]
  rw [Attempt.result_bind, List.mapM_cons, Attempt.result_bind, hrow]
  have hmeets := advance_meets base hsuits (isStage_of_start (Run.result_start hpositive hfits))
  cases hresult : (base.advance field fresh).result with
  | error e => rfl
  | ok reached =>
    have hlength : r.values.length = reached.values.length := by
      rw [hstage.length_values, (hmeets.of_ok hresult).stage.length_values]
    show (r.reach (combine [1] _ r.values.length [reached.values]) none).result = _
    rw [hlength, combine_single]
    rfl

end Solver

/-! ## Streams -/

namespace Trajectory

variable [LT α] [DecidableLT α] [Finiteness α] {field : VectorField α} {base : Solver α}

/-- The extrapolation from one run of a solver that is not symmetric is refused when the solver is,
and gives the same stream otherwise. -/
theorem launch_single_coupled (hbase : base.description.symmetric = false)
    (hone : ∀ d : α, IsPositive d → d / ((1 : ℕ) : α) = d) (hnodup : field.names.Nodup)
    (hfixed : field.HasFixedSlopes) (initial : State α) (step : α) :
    ExceptRel Eq (fun t t' => ∀ n, t.item n = t'.item n)
      (launch (.extrapolation base 1 Nat.one_pos) field initial step).result
      (launch base field initial step).result := by
  have hlaunch : ((Solver.extrapolation base 1 Nat.one_pos).launch field initial step).result =
      (base.launch field initial step).result := by
    rw [Solver.result_launch, Solver.result_launch]
    rfl
  unfold launch
  rw [Attempt.result_bind, Attempt.result_bind, hlaunch]
  cases hresult : (base.launch field initial step).result with
  | error e => exact .error rfl
  | ok first =>
    obtain ⟨hsuits, hstart⟩ := Solver.suits_of_launch hfixed hresult
    obtain ⟨hpositive, -⟩ := Run.start_eq_ok_iff.mp hstart
    -- both solvers have the same run, at one of its stages
    have hadvance : Solver.AdvanceCoupled Eq
        (fun r r' => r' = r ∧ ∃ n, r.IsStage field step initial.time n)
        (.extrapolation base 1 Nat.one_pos) base field field := by
      rintro r r' ⟨rfl, n, hstage⟩
      rw [Solver.result_advance_single hbase (hone step hpositive) hpositive hnodup hsuits hstage]
      have hmeets := Solver.advance_meets base hsuits hstage
      cases hnext : (base.advance field r').result with
      | error e => exact .error rfl
      | ok next => exact .ok ⟨rfl, n + 1, (hmeets.of_ok hnext).stage⟩
    have hcoupled : Coupled (fun r r' => r' = r ∧ ∃ n, r.IsStage field step initial.time n)
        (.extrapolation base 1 Nat.one_pos) base field field ⟨_, field, first, false⟩
        ⟨base, field, first, false⟩ :=
      .running ⟨rfl, 0, Solver.isStage_of_start hstart⟩
    exact .ok fun n => hcoupled.item_eq hadvance (fun r r' h => by rw [h.1]) n

end Trajectory

end

/-- On binary64 numbers the extrapolation of a solver that is not symmetric from one run is the
solver itself, on every system and from every state: both are refused with the same error, or both
give the same states at the same times and the same errors, pull by pull. -/
theorem Trajectory.extrapolate_one (base : Solver Float)
    (hbase : base.description.symmetric = false) (equations : Equations Float)
    (hequations : equations.IsAssembled) (initial : State Float) (step : Float) :
    ∃ s, Solver.extrapolate base 1 = .ok s ∧
      ExceptRel Eq (fun t t' => ∀ n, t.item n = t'.item n)
        (launch s equations.toField initial step).result
        (launch base equations.toField initial step).result := by
  refine ⟨.extrapolation base 1 Nat.one_pos, rfl, ?_⟩
  exact launch_single_coupled hbase (fun d _ => Decimal.div_one d) hequations.nodup
    equations.hasFixedSlopes initial step

/-- One more extrapolation around an extrapolation of the semi-implicit rule, on the decay. -/
theorem Trajectory.extrapolate_one_decay :
    ∃ s t t',
      Solver.extrapolate (.extrapolation (.semiImplicit .standard) 2 (by decide)) 1 = .ok s ∧
      (launch s Equations.decay.toField ⟨0, ["x"], [1]⟩ 0.125).result = .ok t ∧
      (launch (.extrapolation (.semiImplicit .standard) 2 (by decide))
        Equations.decay.toField ⟨0, ["x"], [1]⟩ 0.125).result = .ok t' ∧
      ∀ n, t.item n = t'.item n := by
  obtain ⟨s, hs, hcoupled⟩ := extrapolate_one
    (.extrapolation (.semiImplicit .standard) 2 (by decide)) rfl Equations.decay
    (Equations.isAssembled_of_ofSources Equations.ofSources_decay) ⟨0, ["x"], [1]⟩ 0.125
  have hlaunch : ∃ t', (launch (.extrapolation (.semiImplicit .standard) 2 (by decide))
      Equations.decay.toField ⟨0, ["x"], [1]⟩ 0.125).result = .ok t' := ⟨_, rfl⟩
  obtain ⟨t', ht'⟩ := hlaunch
  rw [ht'] at hcoupled
  cases hresult : (launch s Equations.decay.toField ⟨0, ["x"], [1]⟩ 0.125).result with
  | error e =>
    rw [hresult] at hcoupled
    cases hcoupled
  | ok t =>
    rw [hresult] at hcoupled
    cases hcoupled with
    | ok hitems => exact ⟨s, t, t', hs, hresult, ht', hitems⟩

end Fluxion
