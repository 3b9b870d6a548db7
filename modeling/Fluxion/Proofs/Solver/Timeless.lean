import Fluxion.Proofs.Solver.Coupling

/-!
# Fields that do not depend on time

On a field whose components and partial derivatives do not depend on time, nothing that a solver
does depends on what its clock shows.  A step keeps runs the same but for their clocks, or fails in
both with the same error but for the time that it reports (`Solver.advanceCoupled_of_isTimeless`).

So a solver that is launched at another time gives the same stream but for the times of its states
(`Trajectory.launch_coupled`).  And what a solver remembers behind a step, other than the values, is
the clock, unless it is the bare midpoint rule, which remembers the values one step back.  So the
stream behind a state is the stream of the solver launched anew from that state
(`Trajectory.IsRunning.exists_relaunch`).
-/

set_option autoImplicit false

namespace Fluxion

variable {α : Type}

/-- Neither the components nor the partial derivatives depend on time. -/
structure VectorField.IsTimeless (field : VectorField α) : Prop where
  component_eq : ∀ i t t' x, field.component i t x = field.component i t' x
  slope_eq : ∀ i j t t' x, field.slope? i j t x = field.slope? i j t' x

/-- The same variables with the same values, at any two times. -/
structure State.SameButTime (s s' : State α) : Prop where
  names_eq : s'.names = s.names
  values_eq : s'.values = s.values

/-- The same error, but for the time at which an iteration did not come to rest. -/
inductive SolverError.SameButTime : SolverError α → SolverError α → Prop where
  | refl (e : SolverError α) : SameButTime e e
  | notConverged (name : String) (iterations : ℕ) (t t' : α) :
    SameButTime (.notConverged name iterations t) (.notConverged name iterations t')

/-- Two runs that differ in what their clocks show, and in nothing else. -/
structure Run.SameButClock (r r' : Run α) : Prop where
  increment_eq : r'.clock.increment = r.clock.increment
  values_eq : r'.values = r.values
  previous_eq : r'.previous = r.previous

/-- Runs that differ in their clock only have states that differ in their time only. -/
theorem Run.SameButClock.state {r r' : Run α} (h : r.SameButClock r') (field : VectorField α) :
    (r.state field).SameButTime (r'.state field) :=
  ⟨rfl, h.values_eq⟩

/-! ## Right-hand sides -/

namespace VectorField.IsTimeless

variable {field : VectorField α} (hfield : field.IsTimeless)
include hfield

/-- The rates of an autonomous field are the same at all times. -/
theorem rates_eq (t t' : α) (x : List α) : field.rates t x = field.rates t' x := by
  unfold rates
  congr 1
  funext i
  exact hfield.component_eq i t t' x

/-- On an autonomous field the same derivative is missing at all times. -/
theorem missingDerivative_eq (t t' : α) (x : List α) :
    Solver.missingDerivative? field t x = Solver.missingDerivative? field t' x := by
  unfold Solver.missingDerivative?
  congr 2
  funext entry
  exact congrArg Option.isNone (hfield.slope_eq entry.2 entry.2 t t' x)

variable [Arithmetic α]

/-- On an autonomous field a step of a method with stages does not depend on the time. -/
theorem tableau_advance_eq (tab : Tableau α) (t t' h : α) (x : List α) :
    tab.advance field t h x = tab.advance field t' h x := by
  have hstage : Tableau.nextStage field t h x = Tableau.nextStage field t' h x := by
    funext earlier row
    unfold Tableau.nextStage
    rw [hfield.rates_eq (t + Tableau.node row * h) (t' + Tableau.node row * h)]
  unfold Tableau.advance Tableau.stageRates
  rw [hstage]

/-- On an autonomous field the explicit half-step does not depend on the time. -/
theorem explicitHalf_eq (t t' h : α) (x : List α) :
    Solver.explicitHalf field t h x = Solver.explicitHalf field t' h x := by
  unfold Solver.explicitHalf
  congr 1
  funext y i
  rw [hfield.component_eq i t t' y]

variable [LT α] [DecidableLT α]

/-- On an autonomous field Newton's iteration does not depend on the time. -/
theorem newtonIterate_eq (i : ℕ) (t t' h previous tolerance : α) (cap : ℕ) (x : List α) :
    newtonIterate field i t h previous tolerance cap x =
      newtonIterate field i t' h previous tolerance cap x := by
  induction cap generalizing x with
  | zero => rfl
  | succ cap ih =>
    have hincrement : newtonIncrement field i t h previous x =
        newtonIncrement field i t' h previous x := by
      unfold newtonIncrement
      rw [hfield.component_eq i t t' x, hfield.slope_eq i i t t' x]
    unfold newtonIterate
    rw [hincrement]
    simp only [ih]

/-! ## Steps -/

/-- On an autonomous field a correction depends on the time in what it reports only. -/
theorem correct_coupled (newton : NewtonSettings α) (i : ℕ) (t t' h delta : α) (x : List α) :
    ExceptRel SolverError.SameButTime Eq (newton.correct field i t h delta x).result
      (newton.correct field i t' h delta x).result := by
  unfold NewtonSettings.correct
  rw [hfield.newtonIterate_eq i t t']
  split
  rename_i corrected atRest hiterate
  split
  · exact .ok rfl
  · unfold NewtonSettings.giveUp
    cases newton.onNonConvergence with
    | accept => exact .ok rfl
    | warn => exact .ok rfl
    | fail => exact .error (.notConverged _ _ t t')

/-- On an autonomous field the implicit half-step depends on the time in what it reports only. -/
theorem implicitHalf_coupled (newton : NewtonSettings α) (t t' h delta : α) (x : List α) :
    ExceptRel SolverError.SameButTime Eq (Solver.implicitHalf newton field t h delta x).result
      (Solver.implicitHalf newton field t' h delta x).result := by
  unfold Solver.implicitHalf
  rw [Attempt.result_foldlM_eq, Attempt.result_foldlM_eq]
  refine ExceptRel.foldlM ?_ rfl
  rintro i - y _ rfl
  exact hfield.correct_coupled newton i t t' h delta y

end VectorField.IsTimeless

section Running

variable [Arithmetic α] {field : VectorField α} {r r' : Run α}

/-- Runs that reach the same values go on differing in their clock only. -/
theorem Run.SameButClock.reach_coupled (h : r.SameButClock r') (values : List α)
    (previous : Option (List α)) :
    ExceptRel SolverError.SameButTime Run.SameButClock (r.reach values previous).result
      (r'.reach values previous).result :=
  .ok ⟨h.increment_eq, rfl, rfl⟩

variable [LT α] [DecidableLT α] [Finiteness α] {origin origin' : State α}

/-- Runs are started alike from states that differ in their times. -/
theorem Run.start_coupled (horigin : origin.SameButTime origin') (step : α) :
    ExceptRel Eq Run.SameButClock (Run.start field origin step) (Run.start field origin' step) := by
  have hclock : ExceptRel (E := Eq) (fun c c' : Clock α => c'.increment = c.increment)
      (Clock.create step origin.time) (Clock.create step origin'.time) := by
    unfold Clock.create
    split
    · exact .ok rfl
    · exact .error rfl
  have hvalues : origin'.orderedValues field.names = origin.orderedValues field.names := by
    obtain ⟨time, names, values⟩ := origin
    obtain ⟨time', names', values'⟩ := origin'
    obtain ⟨rfl, rfl⟩ := horigin
    rfl
  unfold Run.start
  refine hclock.bind fun c c' hincrement => ?_
  rw [hvalues]
  cases origin.orderedValues field.names with
  | ok values => exact .ok ⟨hincrement, rfl, rfl⟩
  | error e => exact .error rfl

namespace Solver

/-- A solver is launched alike at two times. -/
theorem launch_coupled (hfield : field.IsTimeless) (s : Solver α)
    (horigin : origin.SameButTime origin') (step : α) :
    ExceptRel Eq Run.SameButClock (s.launch field origin step).result
      (s.launch field origin' step).result := by
  rw [result_launch, result_launch]
  refine (Run.start_coupled horigin step).bind fun r r' h => ?_
  unfold checkSlopes
  rw [h.values_eq, hfield.missingDerivative_eq origin'.time origin.time]
  split
  · split
    · exact .error rfl
    · exact .ok h
  · exact .ok h

/-- A run inside a step does not depend on when the step is made. -/
theorem refine_coupled (hfield : field.IsTimeless) (s : Solver α)
    (hadvance : AdvanceCoupled SolverError.SameButTime Run.SameButClock s s field field)
    (horigin : origin.SameButTime origin') (delta : α) (count : ℕ) :
    ExceptRel SolverError.SameButTime Eq
      (refine (fun origin step => s.launch field origin step) (fun r => s.advance field r)
        origin delta count).result
      (refine (fun origin step => s.launch field origin step) (fun r => s.advance field r)
        origin' delta count).result := by
  unfold Solver.refine
  rw [Attempt.result_bind, Attempt.result_bind]
  have hlaunch : ExceptRel SolverError.SameButTime Run.SameButClock _ _ :=
    (launch_coupled hfield s horigin (delta / (count : α))).imp (fun e _ he => he ▸ .refl e)
      fun _ _ h => h
  refine hlaunch.bind fun r r' hr => ?_
  split
  · exact .error (.refl _)
  · rw [Attempt.result_bind, Attempt.result_bind]
    exact (advanceBy_coupled hadvance count hr).bind fun last last' hlast =>
      .ok hlast.values_eq.symm

/-- A step on a field that does not depend on time keeps runs the same but for their clocks, or
fails in both. -/
theorem advanceCoupled_of_isTimeless (hfield : field.IsTimeless) (s : Solver α) :
    AdvanceCoupled SolverError.SameButTime Run.SameButClock s s field field := by
  induction s with
  | euler =>
    intro r r' h
    unfold advance
    rw [h.values_eq, h.increment_eq, hfield.rates_eq r'.time r.time]
    exact h.reach_coupled _ _
  | midpoint =>
    intro r r' h
    unfold advance
    dsimp only
    rw [h.values_eq, h.increment_eq, h.previous_eq, hfield.rates_eq r'.time r.time]
    cases r.previous with
    | none => exact h.reach_coupled _ _
    | some back => exact h.reach_coupled _ _
  | stages name order tableau =>
    intro r r' h
    unfold advance
    rw [h.values_eq, h.increment_eq, hfield.tableau_advance_eq tableau r'.time r.time]
    exact h.reach_coupled _ _
  | semiImplicit newton =>
    intro r r' h
    unfold advance
    dsimp only
    rw [h.values_eq, h.increment_eq, Attempt.result_bind, Attempt.result_bind]
    refine (hfield.implicitHalf_coupled newton _ _ _ _ _).bind ?_
    rintro corrected _ rfl
    rw [hfield.explicitHalf_eq (r'.time + _) (r.time + r.clock.increment / two)]
    exact h.reach_coupled _ _
  | extrapolation base runs hruns ih =>
    intro r r' h
    unfold advance
    dsimp only
    rw [h.values_eq, h.increment_eq, Attempt.result_bind, Attempt.result_bind,
      Attempt.result_mapM_eq, Attempt.result_mapM_eq]
    refine (ExceptRel.mapM_same (R := Eq) ?_).bind fun table table' htable => ?_
    · intro count _
      exact refine_coupled hfield base ih (h.state field) r.clock.increment count
    · rw [List.forall₂_eq_eq_eq] at htable
      rw [htable]
      exact h.reach_coupled _ _

/-- Only the bare midpoint rule remembers the values one step back. -/
theorem previous_of_advance {s : Solver α} (hs : s ≠ .midpoint)
    (h : (s.advance field r).result = .ok r') : r'.previous = none := by
  cases s with
  | euler =>
    cases h
    rfl
  | midpoint => exact absurd rfl hs
  | stages name order tableau =>
    cases h
    rfl
  | semiImplicit newton =>
    obtain ⟨corrected, -, hreach⟩ := Attempt.result_bind_eq_ok_iff.mp h
    cases hreach
    rfl
  | extrapolation base runs hruns =>
    obtain ⟨table, -, hreach⟩ := Attempt.result_bind_eq_ok_iff.mp h
    cases hreach
    rfl

end Solver

end Running

/-! ## Streams -/

namespace Trajectory

variable [Arithmetic α] [LT α] [DecidableLT α] [Finiteness α] {field : VectorField α}
  {s : Solver α} {t : Trajectory α}

/-- What a pull gives, but for the times of states and of failures. -/
abbrev SameItemButTime :
    Option (Except (SolverError α) (State α)) → Option (Except (SolverError α) (State α)) → Prop :=
  Option.Rel (ExceptRel SolverError.SameButTime State.SameButTime)

/-- A trajectory that differs in its clock gives the same, but for the times. -/
theorem item_coupled (hfield : field.IsTimeless) {r r' : Run α} (h : r.SameButClock r') (n : ℕ) :
    SameItemButTime ((Trajectory.mk s field r false).item n)
      ((Trajectory.mk s field r' false).item n) := by
  have hcoupled : Coupled Run.SameButClock s s field field ⟨s, field, r, false⟩
      ⟨s, field, r', false⟩ := .running h
  exact hcoupled.item (Solver.advanceCoupled_of_isTimeless hfield s)
    (fun _ _ hr => hr.state field) n

/-- A solver that is launched at another time fails with the same error, or gives the same stream
but for the times. -/
theorem launch_coupled (hfield : field.IsTimeless) (s : Solver α) {origin origin' : State α}
    (horigin : origin.SameButTime origin') (step : α) :
    ExceptRel Eq (fun t t' => ∀ n, SameItemButTime (t.item n) (t'.item n))
      (launch s field origin step).result (launch s field origin' step).result := by
  unfold launch
  rw [Attempt.result_bind, Attempt.result_bind]
  refine (Solver.launch_coupled hfield s horigin step).bind fun r r' h => ?_
  exact .ok fun n => item_coupled hfield h n

/-- Behind a state the run is at a stage that a step has led to. -/
theorem IsRunning.drop_of_state {step start : α} (h : t.IsRunning s field step start 0) {n : ℕ}
    {x : State α} (hx : t.item n = some (.ok x)) :
    ∃ q r, (s.advance field q).result = .ok r ∧ r.IsStage field step start (n + 1) ∧
      x = r.state field ∧ t.drop (n + 1) = ⟨s, field, r, false⟩ := by
  unfold item at hx
  rw [drop_succ]
  obtain hrunning | hended := h.drop n
  · generalize t.drop n = u at hx hrunning
    obtain ⟨rfl, rfl, hended, hsuits, hstage⟩ := hrunning
    cases hresult : (u.solver.advance u.field u.run).result with
    | ok r =>
      have hreached := (Solver.advance_meets u.solver hsuits hstage).of_ok hresult
      obtain ⟨hitem, hrest⟩ := pull_of_ok hended hresult
      rw [hitem] at hx
      cases hx
      refine ⟨u.run, r, hresult, hreached.stage, rfl, ?_⟩
      rw [hrest, hended]
    | error e =>
      rw [(pull_of_error hended hresult).1] at hx
      cases hx
  · rw [(pull_of_ended hended).1] at hx
    cases hx

/-- The stream behind a state is the stream of the solver launched anew from that state, unless the
solver is the bare midpoint rule. -/
theorem IsRunning.exists_relaunch {step start : α} (h : t.IsRunning s field step start 0)
    (hfield : field.IsTimeless) (hnodup : field.names.Nodup) (hstep : IsPositive step)
    (hs : s ≠ .midpoint) {n : ℕ} {x : State α} (hx : t.item n = some (.ok x)) :
    ∃ t', (launch s field x step).result = .ok t' ∧
      ∀ m, SameItemButTime (t.item (n + 1 + m)) (t'.item m) := by
  obtain ⟨q, r, hadvance, hstage, rfl, hdrop⟩ := h.drop_of_state hx
  have hfits : (r.state field).orderedValues field.names = .ok r.values :=
    State.orderedValues_self hnodup hstage.length_values.symm
  have hlaunch : (s.launch field (r.state field) step).result =
      .ok (Run.after step r.time 0 r.values none) :=
    (Solver.result_launch_of_suits h.suits _ _).trans (Run.result_start hstep hfits)
  have hsame : r.SameButClock (Run.after step r.time 0 r.values none) := by
    refine ⟨?_, rfl, ?_⟩
    · rw [Run.increment_after, hstage.increment_eq]
    · rw [Solver.previous_of_advance hs hadvance]
      rfl
  refine ⟨_, result_launch hlaunch, fun m => ?_⟩
  rw [← item_drop, hdrop]
  exact item_coupled hfield hsame m

end Trajectory

end Fluxion
