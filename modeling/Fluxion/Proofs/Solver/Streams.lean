import Fluxion.Equations
import Fluxion.Proofs.Solver.Stages

/-!
# Streams of states

What a stream that has been launched gives, pull by pull, and how it can fail.
-/

set_option autoImplicit false

namespace Fluxion

/-! ## The shape of a stream of states

The states that a solver gives on a system of equations come without end, or finitely many of them
come, then one error, and then nothing more (`Trajectory.IsStreamOf.shape`).  The n-th of them has
the n-th multiple of the step as its time, counted from the start and never summed up, the names of
the variables in their order, and a value for each of them (`Trajectory.launch_isStreamOf`).

A stream is followed through the trajectories that are left after its pulls.  As long as no step has
failed, the trajectory after `n` pulls has a run at its n-th stage (`Trajectory.IsRunning.drop`).
-/

namespace Trajectory

variable {α : Type} [Arithmetic α] [LT α] [DecidableLT α] [Finiteness α]

/-- One more pull is a pull behind the others. -/
theorem drop_succ (n : ℕ) (t : Trajectory α) : t.drop (n + 1) = (t.drop n).pull.rest := by
  induction n generalizing t with
  | zero => rfl
  | succ n ih => exact ih t.pull.rest

/-- Pulls add up. -/
theorem drop_drop (t : Trajectory α) (m n : ℕ) : (t.drop m).drop n = t.drop (m + n) := by
  induction n with
  | zero => rfl
  | succ n ih => rw [drop_succ, ih, ← Nat.add_assoc, drop_succ]

/-- The items behind a number of pulls stand further on in the whole. -/
theorem item_drop (t : Trajectory α) (m n : ℕ) : (t.drop m).item n = t.item (m + n) := by
  unfold item
  rw [drop_drop]

section Shape

variable {t : Trajectory α}

/-- A trajectory that has ended gives nothing and stays as it is. -/
theorem pull_of_ended (h : t.ended = true) : t.pull.item = none ∧ t.pull.rest = t := by
  unfold pull
  rw [if_pos h]
  exact ⟨rfl, rfl⟩

/-- A step that fails gives its error and ends the trajectory. -/
theorem pull_of_error {e : SolverError α} (hended : t.ended = false)
    (h : (t.solver.advance t.field t.run).result = .error e) :
    t.pull.item = some (.error e) ∧ t.pull.rest = { t with ended := true } := by
  unfold pull
  rw [hended]
  simp only [Bool.false_eq_true, if_false, h, and_self]

/-- A trajectory that has not ended gives a state and goes on, or gives an error and ends. -/
theorem pull_cases (h : t.ended = false) :
    (∃ x, t.pull.item = some (.ok x) ∧ t.pull.rest.ended = false) ∨
      ∃ e, t.pull.item = some (.error e) ∧ t.pull.rest.ended = true := by
  cases hresult : (t.solver.advance t.field t.run).result with
  | ok r =>
    obtain ⟨hitem, hrest⟩ := pull_of_ok h hresult
    exact .inl ⟨_, hitem, hrest ▸ h⟩
  | error e =>
    obtain ⟨hitem, hrest⟩ := pull_of_error h hresult
    exact .inr ⟨e, hitem, hrest ▸ rfl⟩

/-- Once ended, a trajectory stays so. -/
theorem ended_drop_of_le {m n : ℕ} (hle : m ≤ n) (h : (t.drop m).ended = true) :
    (t.drop n).ended = true := by
  induction n, hle using Nat.le_induction with
  | base => exact h
  | succ n _ ih => rw [drop_succ, (pull_of_ended ih).2, ih]

/-- A trajectory goes on forever, or there is a pull with which it ends. -/
theorem ended_cases (h : t.ended = false) :
    (∀ n, (t.drop n).ended = false) ∨
      ∃ n, (∀ m ≤ n, (t.drop m).ended = false) ∧ ∀ m, n < m → (t.drop m).ended = true := by
  by_cases hend : ∃ n, (t.drop n).ended = true
  · right
    obtain ⟨n, hn⟩ : ∃ n, Nat.find hend = n + 1 := by
      refine Nat.exists_eq_succ_of_ne_zero fun hzero => ?_
      have hspec := Nat.find_spec hend
      rw [hzero, drop, h] at hspec
      cases hspec
    refine ⟨n, fun m hm => ?_, fun m hm => ?_⟩
    · exact Bool.not_eq_true _ ▸ Nat.find_min hend (hn ▸ Nat.lt_succ_of_le hm)
    · exact ended_drop_of_le (hn ▸ hm) (Nat.find_spec hend)
  · left
    exact fun n => Bool.not_eq_true _ ▸ fun hended => hend ⟨n, hended⟩

/-- States come without end, or finitely many of them, then one error, and then nothing. -/
theorem items_cases (h : t.ended = false) :
    (∀ n, ∃ x, t.item n = some (.ok x)) ∨
      ∃ n e, (∀ m < n, ∃ x, t.item m = some (.ok x)) ∧ t.item n = some (.error e) ∧
        ∀ m, n < m → t.item m = none := by
  have hstate : ∀ n, (t.drop n).ended = false → (t.drop (n + 1)).ended = false →
      ∃ x, t.item n = some (.ok x) := by
    intro n hbefore hafter
    obtain ⟨x, hitem, -⟩ | ⟨e, -, hended⟩ := pull_cases hbefore
    · exact ⟨x, hitem⟩
    · rw [drop_succ, hended] at hafter
      cases hafter
  obtain hforever | ⟨n, hbefore, hafter⟩ := ended_cases h
  · exact .inl fun n => hstate n (hforever n) (hforever (n + 1))
  · right
    obtain ⟨x, -, hgoes⟩ | ⟨e, hitem, -⟩ := pull_cases (hbefore n le_rfl)
    · rw [← drop_succ, hafter (n + 1) n.lt_succ_self] at hgoes
      cases hgoes
    · exact ⟨n, e, fun m hm => hstate m (hbefore m hm.le) (hbefore (m + 1) hm), hitem,
        fun m hm => (pull_of_ended (hafter m hm)).1⟩

end Shape

/-- A trajectory whose run is at its n-th stage. -/
structure IsRunning (s : Solver α) (field : VectorField α) (step start : α) (n : ℕ)
    (t : Trajectory α) : Prop where
  solver_eq : t.solver = s
  field_eq : t.field = field
  ended_eq : t.ended = false
  suits : s.Suits field
  stage : t.run.IsStage field step start n

section Running

variable {s : Solver α} {field : VectorField α} {step start : α} {n : ℕ} {t : Trajectory α}

/-- A trajectory that has been launched runs at its stage zero. -/
theorem isRunning_of_launch {initial : State α} (hfixed : field.HasFixedSlopes)
    (h : (launch s field initial step).result = .ok t) :
    t.IsRunning s field step initial.time 0 := by
  obtain ⟨r, hlaunch, rfl⟩ := launch_eq_ok_iff.mp h
  obtain ⟨hsuits, hstart⟩ := Solver.suits_of_launch hfixed hlaunch
  exact ⟨rfl, rfl, rfl, hsuits, Solver.isStage_of_start hstart⟩

/-- The next pull gives the state of the next stage, or the error of a step that failed. -/
theorem IsRunning.pull_cases (h : t.IsRunning s field step start n) :
    (∃ r, s.HasReached field step start (n + 1) r ∧ t.pull.item = some (.ok (r.state field)) ∧
        t.pull.rest.IsRunning s field step start (n + 1)) ∨
      ∃ e, s.IsFailure step e ∧ t.pull.item = some (.error e) ∧ t.pull.rest.ended = true := by
  obtain ⟨rfl, rfl, hended, hsuits, hstage⟩ := h
  have hmeets := Solver.advance_meets t.solver hsuits hstage
  cases hresult : (t.solver.advance t.field t.run).result with
  | ok r =>
    have hreached := hmeets.of_ok hresult
    obtain ⟨hitem, hrest⟩ := pull_of_ok hended hresult
    exact .inl ⟨r, hreached, hitem, hrest ▸ ⟨rfl, rfl, hended, hsuits, hreached.stage⟩⟩
  | error e =>
    obtain ⟨hitem, hrest⟩ := pull_of_error hended hresult
    exact .inr ⟨e, hmeets.of_error hresult, hitem, hrest ▸ rfl⟩

/-- After `n` pulls the run is at its n-th stage, or a step has failed. -/
theorem IsRunning.drop (h : t.IsRunning s field step start 0) (n : ℕ) :
    (t.drop n).IsRunning s field step start n ∨ (t.drop n).ended = true := by
  induction n with
  | zero => exact .inl h
  | succ n ih =>
    rw [drop_succ]
    obtain hrunning | hended := ih
    · obtain ⟨r, -, -, hnext⟩ | ⟨e, -, -, hended⟩ := hrunning.pull_cases
      · exact .inl hnext
      · exact .inr hended
    · right
      rw [(pull_of_ended hended).2, hended]

/-- A state that is given is that of a run at the stage of its pull. -/
theorem IsRunning.exists_of_state (h : t.IsRunning s field step start 0) {x : State α}
    (hx : t.item n = some (.ok x)) :
    ∃ r, s.HasReached field step start (n + 1) r ∧ x = r.state field := by
  unfold item at hx
  obtain hrunning | hended := h.drop n
  · obtain ⟨r, hreached, hitem, -⟩ | ⟨e, -, hitem, -⟩ := hrunning.pull_cases
    · rw [hitem] at hx
      cases hx
      exact ⟨r, hreached, rfl⟩
    · rw [hitem] at hx
      cases hx
  · rw [(pull_of_ended hended).1] at hx
    cases hx

/-- An error that is given is one with which the solver can fail. -/
theorem IsRunning.isFailure_of_error (h : t.IsRunning s field step start 0) {e : SolverError α}
    (he : t.item n = some (.error e)) : s.IsFailure step e := by
  unfold item at he
  obtain hrunning | hended := h.drop n
  · obtain ⟨r, -, hitem, -⟩ | ⟨e', hfailure, hitem, -⟩ := hrunning.pull_cases
    · rw [hitem] at he
      cases he
    · rw [hitem] at he
      cases he
      exact hfailure
  · rw [(pull_of_ended hended).1] at he
    cases he

end Running

/-- A stream of states of the variables `names`, on the multiples of `step` that are counted from
`start`. -/
structure IsStreamOf (names : List String) (start step : α) (t : Trajectory α) : Prop where
  /-- States come without end, or finitely many of them, then one error, and then nothing. -/
  shape : (∀ n, ∃ x, t.item n = some (.ok x)) ∨
    ∃ n e, (∀ m < n, ∃ x, t.item m = some (.ok x)) ∧ t.item n = some (.error e) ∧
      ∀ m, n < m → t.item m = none
  time_eq : ∀ n x, t.item n = some (.ok x) → x.time = start + ((n + 1 : ℕ) : α) * step
  names_eq : ∀ n x, t.item n = some (.ok x) → x.names = names
  length_values : ∀ n x, t.item n = some (.ok x) → x.values.length = names.length
  /-- A run inside a step never lacks a state, a value or a derivative. -/
  error_ne : ∀ n e, t.item n = some (.error e) →
    e ≠ .exhausted ∧ (∀ cause, e ≠ .stateMismatch cause) ∧ ∀ name, e ≠ .missingDerivative name

/-- A solver that has been launched on a system gives a stream of states of the variables of the
system, whatever its extrapolations are nested in. -/
theorem launch_isStreamOf [Elementary α] (equations : Equations α) (s : Solver α)
    (initial : State α) (step : α) (t : Trajectory α)
    (hlaunch : (launch s equations.toField initial step).result = .ok t) :
    t.IsStreamOf equations.names initial.time step := by
  have hrunning := isRunning_of_launch equations.hasFixedSlopes hlaunch
  refine ⟨items_cases hrunning.ended_eq, ?_, ?_, ?_, ?_⟩
  · intro n x hx
    obtain ⟨r, hreached, rfl⟩ := hrunning.exists_of_state hx
    exact hreached.stage.time_eq
  · intro n x hx
    obtain ⟨r, -, rfl⟩ := hrunning.exists_of_state hx
    rfl
  · intro n x hx
    obtain ⟨r, hreached, rfl⟩ := hrunning.exists_of_state hx
    exact hreached.stage.length_values
  · intro n e he
    obtain ⟨newton, name, time, -, -, rfl⟩ | ⟨d, -, -, rfl⟩ := hrunning.isFailure_of_error he
    · exact ⟨nofun, nofun, nofun⟩
    · exact ⟨nofun, nofun, nofun⟩

end Trajectory

namespace Equations

/-- The equation `x' = -x`, with its derivative. -/
def decay : Equations Float where
  independent := "t"
  names := ["x"]
  rightHandSides := [⟨⟨.neg (.symbol "x"), ["x"], .tree⟩, [.state 0]⟩]
  entries := [((0, 0), ⟨⟨.neg (.number 1), [], .tree⟩, []⟩)]

/-- The equation of the decay gives the system of the decay. -/
theorem ofSources_decay : ofSources ["x' = -x"] {} = .ok decay := by
  have hparse : Statement.parse "x' = -x" =
      .ok (.assignment (.marker (.symbol "x")) (.neg (.symbol "x"))) := by cbv
  rw [ofSources, List.mapM_cons, List.mapM_nil, readEquation, hparse]
  rfl

end Equations

/-- The extrapolation of the semi-implicit rule from two runs, which divide a step into two and four
parts, gives a stream of states of the decay. -/
theorem Trajectory.launch_isStreamOf_decay :
    Equations.ofSources ["x' = -x"] {} = .ok Equations.decay ∧
      ∃ t, (launch (.extrapolation (.semiImplicit .standard) 2 (by decide))
          Equations.decay.toField ⟨0, ["x"], [1]⟩ 0.125).result = .ok t ∧
        t.IsStreamOf ["x"] 0 0.125 := by
  have hlaunch : ∃ t, (launch (.extrapolation (.semiImplicit .standard) 2 (by decide))
      Equations.decay.toField ⟨0, ["x"], [1]⟩ 0.125).result = .ok t := ⟨_, rfl⟩
  obtain ⟨t, ht⟩ := hlaunch
  exact ⟨Equations.ofSources_decay, t, ht, launch_isStreamOf Equations.decay _ _ _ t ht⟩

/-! ## How a stream of states can fail

A stream that has been launched on a system fails because Newton's iteration is told to fail, or
because extrapolation is left with a part of its step that is no positive number.  The parts are the
same in every step.  So if they are positive numbers, then only Newton's iteration can fail; and if
one is not, the first pull gives an error already (`Trajectory.fails_only_by_newton_iff`).

In exact arithmetic the parts of a positive step are positive
(`Solver.isPositive_of_mem_innerSteps`). The smallest positive binary64 number has half of itself
rounded to zero, so extrapolation with this step is launched and then fails
(`Trajectory.fails_at_smallestStep`).
-/

/-- Dividing does not exhaust a rational step. -/
theorem Solver.isPositive_of_mem_innerSteps {s : Solver ℚ} {step : ℚ} (hstep : 0 < step) :
    ∀ d ∈ s.innerSteps step, IsPositive d := by
  induction s generalizing step with
  | euler | midpoint | stages name order tableau | semiImplicit newton =>
    exact fun d hd => absurd hd List.not_mem_nil
  | extrapolation base runs hruns ih =>
    intro d hd
    obtain ⟨count, hmem, hd⟩ := List.mem_flatMap.mp hd
    have hpart : 0 < step / (count : ℚ) :=
      div_pos hstep (Nat.cast_pos.mpr (pos_of_mem_coefficients hmem))
    obtain rfl | hd := List.mem_cons.mp hd
    · exact isPositive_iff.mpr hpart
    · exact ih hpart d hd

namespace Trajectory

/-- Every error of a stream is one of Newton's iteration or one of a part of the step.  Only
Newton's iteration can fail if and only if every part of the step is a positive number, unless the
iteration fails in the first step before the part is reached. -/
theorem fails_only_by_newton_iff {α : Type} [Elementary α] [Arithmetic α] [LT α] [DecidableLT α]
    [Finiteness α] (equations : Equations α) (s : Solver α) (initial : State α) (step : α)
    (t : Trajectory α) (hlaunch : (launch s equations.toField initial step).result = .ok t) :
    (∀ n e, t.item n = some (.error e) → s.IsNewtonFailure e ∨ s.IsStepFailure step e) ∧
    ((∀ n e, t.item n = some (.error e) → s.IsNewtonFailure e) ↔
      (∀ d ∈ s.innerSteps step, IsPositive d) ∨
        ∃ e, t.item 0 = some (.error e) ∧ s.IsNewtonFailure e) := by
  have hrunning := isRunning_of_launch equations.hasFixedSlopes hlaunch
  have herrors : ∀ n e, t.item n = some (.error e) →
      s.IsNewtonFailure e ∨ s.IsStepFailure step e := fun n e he => hrunning.isFailure_of_error he
  refine ⟨herrors, fun hnewton => ?_, ?_⟩
  · obtain ⟨r, hreached, -, -⟩ | ⟨e, -, hitem, -⟩ := hrunning.pull_cases
    · exact .inl hreached.isPositive
    · exact .inr ⟨e, hitem, hnewton 0 e hitem⟩
  · rintro (hpositive | ⟨e₀, hfirst, hnewton⟩) n e he
    · obtain hnewton | ⟨d, hd, hnot, -⟩ := herrors n e he
      · exact hnewton
      · exact absurd (hpositive d hd) hnot
    · -- nothing comes after the error of the first pull
      cases n with
      | zero =>
        rw [hfirst] at he
        cases he
        exact hnewton
      | succ n =>
        have hended : (t.drop 1).ended = true := by
          obtain ⟨x, hitem, -⟩ | ⟨e, -, hended⟩ := pull_cases hrunning.ended_eq
          · rw [item, drop, hitem] at hfirst
            cases hfirst
          · exact hended
        have hlater : (t.drop (n + 1)).ended = true := ended_drop_of_le (Nat.le_add_left 1 n) hended
        rw [item, (pull_of_ended hlater).1] at he
        cases he

/-- With a step of `1/8` the extrapolation of the extrapolation of Euler's method never fails on the
decay. -/
theorem never_fails_decay :
    let s : Solver Float := .extrapolation (.extrapolation .euler 2 (by decide)) 2 (by decide)
    (∀ d ∈ s.innerSteps 0.125, IsPositive d) ∧
      ∃ t, (launch s Equations.decay.toField ⟨0, ["x"], [1]⟩ 0.125).result = .ok t ∧
        ∀ n e, t.item n ≠ some (.error e) := by
  intro s
  have hpositive : ∀ d ∈ s.innerSteps 0.125, IsPositive d := by decide
  have hlaunch : ∃ t, (launch s Equations.decay.toField ⟨0, ["x"], [1]⟩ 0.125).result = .ok t :=
    ⟨_, rfl⟩
  obtain ⟨t, ht⟩ := hlaunch
  have hnewton := (fails_only_by_newton_iff Equations.decay s _ _ t ht).2.mpr (.inl hpositive)
  refine ⟨hpositive, t, ht, fun n e he => ?_⟩
  obtain ⟨newton, -, -, hsome, -⟩ := hnewton n e he
  cases hsome

/-- The smallest positive binary64 number, `2 ^ (-1074)`. -/
def smallestStep : Float := Float.ofBits 1

/-- The pattern of the smallest step is that of the decimal numeral. -/
theorem smallestStep_eq : smallestStep = 5e-324 := by decide +kernel

/-- The extrapolation of Euler's method from two runs can be launched on the decay with the smallest
positive step, and its first pull gives an error that is none of Newton's iteration. -/
theorem fails_at_smallestStep :
    Equations.ofSources ["x' = -x"] {} = .ok Equations.decay ∧
      ∃ t, (launch (.extrapolation .euler 2 (by decide)) Equations.decay.toField ⟨0, ["x"], [1]⟩
          5e-324).result = .ok t ∧
        t.item 0 = some (.error (.invalidStep 0)) ∧
        ¬ (Solver.extrapolation .euler 2 (by decide)).IsNewtonFailure
          (.invalidStep (0 : Float)) := by
  rw [← smallestStep_eq]
  refine ⟨Equations.ofSources_decay, _, rfl, rfl, ?_⟩
  rintro ⟨newton, -, -, hsome, -⟩
  cases hsome

end Trajectory

end Fluxion
