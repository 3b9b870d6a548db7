import Fluxion.Proofs.Solver.Launch

/-!
# What a step preserves, and how it can fail

A run that was started on a field is at its n-th stage (`Run.IsStage`) if its clock has made `n`
steps and it has a value for each variable.  A step leads from one stage to the next, or it fails in
one of two ways (`Solver.advance_meets`): Newton's iteration did not come to rest and is told to
fail (`Solver.IsNewtonFailure`), or extrapolation divided its step so far that what is left is no
positive number (`Solver.IsStepFailure`).  A step that succeeds has started runs with all of its
parts.

The steps of extrapolation are made by its base, which is launched anew for each of them, so the
induction is on the solver.  What has to be known of the base is that it can be launched from the
stages of the run around it, and that it reaches the next stage of its own.
-/

set_option autoImplicit false

namespace Fluxion

/-- What can be said of the outcome of an attempt: of its result if it succeeds, and of its error
if it fails. -/
def Attempt.Meets {α ε β : Type} (a : Attempt α ε β) (good : β → Prop) (bad : ε → Prop) : Prop :=
  match a.result with
  | .ok b => good b
  | .error e => bad e

namespace Attempt

variable {α ε β γ : Type} {a : Attempt α ε β} {good : β → Prop} {bad : ε → Prop}

/-- A result of an attempt that meets its conditions is good. -/
theorem Meets.of_ok (h : a.Meets good bad) {b : β} (hb : a.result = .ok b) : good b := by
  unfold Meets at h
  rwa [hb] at h

/-- An error of an attempt that meets its conditions is bad. -/
theorem Meets.of_error (h : a.Meets good bad) {e : ε} (he : a.result = .error e) : bad e := by
  unfold Meets at h
  rwa [he] at h

/-- An attempt with a good result meets its conditions. -/
theorem meets_of_ok {b : β} (hb : a.result = .ok b) (hgood : good b) : a.Meets good bad := by
  unfold Meets
  rwa [hb]

/-- An attempt with a bad error meets its conditions. -/
theorem meets_of_error {e : ε} (he : a.result = .error e) (hbad : bad e) : a.Meets good bad := by
  unfold Meets
  rwa [he]

/-- Conditions may be weakened. -/
theorem Meets.imp {good' : β → Prop} {bad' : ε → Prop} (h : a.Meets good bad)
    (hgood : ∀ b, good b → good' b) (hbad : ∀ e, bad e → bad' e) : a.Meets good' bad' := by
  cases hresult : a.result with
  | ok b => exact meets_of_ok hresult (hgood b (h.of_ok hresult))
  | error e => exact meets_of_error hresult (hbad e (h.of_error hresult))

/-- Two successive attempts meet the conditions of the second, if they share those on errors. -/
theorem Meets.bind {good' : γ → Prop} {f : β → Attempt α ε γ} (h : a.Meets good bad)
    (hf : ∀ b, good b → (f b).Meets good' bad) : (a >>= f).Meets good' bad := by
  unfold Meets
  rw [result_bind]
  cases hresult : a.result with
  | ok b => exact hf b (h.of_ok hresult)
  | error e => exact h.of_error hresult

/-- What holds of the attempts that a row is made of holds of the row. -/
theorem meets_mapM {f : γ → Attempt α ε β} {kept : γ → Prop} {l : List γ}
    (h : ∀ c ∈ l, (f c).Meets (fun _ => kept c) bad) :
    (l.mapM f).Meets (fun _ => ∀ c ∈ l, kept c) bad := by
  induction l with
  | nil => exact meets_of_ok rfl fun c hc => absurd hc (List.not_mem_nil)
  | cons c l ih =>
    obtain ⟨hc, hl⟩ := List.forall_mem_cons.mp h
    rw [List.mapM_cons]
    refine hc.bind fun b hb => (ih hl).bind fun bs hbs => ?_
    exact meets_of_ok rfl (List.forall_mem_cons.mpr ⟨hb, hbs⟩)

/-- What each attempt of a pass keeps, the pass keeps. -/
theorem meets_foldlM {f : β → γ → Attempt α ε β} {l : List γ}
    (h : ∀ b, good b → ∀ c, (f b c).Meets good bad) {b : β} (hb : good b) :
    (l.foldlM f b).Meets good bad := by
  induction l generalizing b with
  | nil => exact meets_of_ok rfl hb
  | cons c l ih =>
    rw [List.foldlM_cons]
    exact (h b hb c).bind fun b' hb' => ih hb'

end Attempt

variable {α : Type}

namespace Solver

/-- Every inner run has a step. -/
theorem pos_of_mem_coefficients {base : Solver α} {runs count : ℕ}
    (h : count ∈ base.coefficients runs) : 0 < count := by
  obtain ⟨i, -, rfl⟩ := List.mem_map.mp h
  exact Nat.mul_pos base.description.gain_pos i.succ_pos

/-- A number of steps leads through as many stages. -/
theorem advanceBy_meets {next : Run α → SolverAttempt α (Run α)} {bad : SolverError α → Prop}
    (stage : ℕ → Run α → Prop) (hnext : ∀ j r, stage j r → (next r).Meets (stage (j + 1)) bad)
    (count : ℕ) {j : ℕ} {r : Run α} (hr : stage j r) :
    (advanceBy next count r).Meets (stage (j + count)) bad := by
  induction count generalizing j r with
  | zero => exact Attempt.meets_of_ok rfl hr
  | succ count ih =>
    refine (hnext j r hr).bind fun r' hr' => ?_
    rw [Nat.add_comm count 1, ← Nat.add_assoc]
    exact ih hr'

/-- Newton's iteration of the semi-implicit rule did not come to rest and is told to fail then. -/
def IsNewtonFailure (s : Solver α) (e : SolverError α) : Prop :=
  ∃ newton name time, s.newton? = some newton ∧ newton.onNonConvergence = .fail ∧
    e = .notConverged name newton.maxIterations time

end Solver

/-- There is one rate for each variable. -/
theorem VectorField.length_rates {field : VectorField α} {t : α} {x : List α} :
    (field.rates t x).length = field.names.length := by
  rw [rates, List.length_map, List.length_range, dimension]

variable [Arithmetic α]

/-- A run on a field that was started with this step and at this time and has made `n` steps. -/
structure Run.IsStage (field : VectorField α) (step start : α) (n : ℕ) (r : Run α) : Prop where
  clock_eq : r.clock = Clock.after step start n
  length_values : r.values.length = field.names.length
  length_previous : ∀ back, r.previous = some back → back.length = field.names.length

namespace Run.IsStage

variable {field : VectorField α} {step start : α} {n : ℕ} {r : Run α}

/-- Every stage has the increment of the run. -/
theorem increment_eq (h : r.IsStage field step start n) : r.clock.increment = step := by
  rw [h.clock_eq, Clock.increment_after]

/-- The time of a stage is a multiple of the step away from the start, and not a sum of steps. -/
theorem time_eq (h : r.IsStage field step start (n + 1)) :
    r.time = start + ((n + 1 : ℕ) : α) * step := by
  show r.clock.current.target = _
  rw [h.clock_eq]
  show Clock.valueAt _ ((Clock.after step start n).count + 1) = _
  rw [Clock.count_after, Clock.valueAt, Clock.start_after, Clock.increment_after]

end Run.IsStage

namespace Solver

/-- Moving along rates leaves the number of values. -/
theorem length_along_rates {field : VectorField α} {x y : List α} {t d : α}
    (h : x.length = field.names.length) :
    (along x d (field.rates t y)).length = field.names.length := by
  rw [along, List.length_zipWith, VectorField.length_rates, h, Nat.min_self]

/-- An explicit half-step leaves the number of values. -/
theorem length_explicitHalf {field : VectorField α} {t h : α} {x : List α} :
    (explicitHalf field t h x).length = x.length := by
  have hpass : ∀ (l : List ℕ) (y : List α),
      (l.foldl (fun y i => y.set i (coordinate y i + h * field.component i t y)) y).length =
        y.length := by
    intro l
    induction l with
    | nil => exact fun y => rfl
    | cons i l ih => exact fun y => (ih _).trans List.length_set
  exact hpass _ x

/-- The steps with which the runs inside a step are started, in order.  Only extrapolation has any:
the parts into which it divides its step, and those into which its base divides these. -/
def innerSteps : Solver α → α → List α
  | .extrapolation base runs _, step =>
    (base.coefficients runs).flatMap fun count : ℕ =>
      step / (count : α) :: base.innerSteps (step / (count : α))
  | .euler, _ | .midpoint, _ | .stages _ _ _, _ | .semiImplicit _, _ => []

variable [LT α] [DecidableLT α]

/-- Newton's iteration leaves the number of values. -/
theorem length_newtonIterate {field : VectorField α} {i : ℕ} {t h previous tolerance : α}
    (cap : ℕ) (x : List α) :
    (newtonIterate field i t h previous tolerance cap x).1.length = x.length := by
  induction cap generalizing x with
  | zero => rfl
  | succ cap ih =>
    unfold newtonIterate
    dsimp only
    split
    · exact List.length_set
    · rw [ih, List.length_set]

/-- An implicit half-step leaves the number of values, or Newton's iteration fails in it. -/
theorem implicitHalf_meets {field : VectorField α} {newton : NewtonSettings α} {t h delta : α}
    {x : List α} :
    (implicitHalf newton field t h delta x).Meets (fun y => y.length = x.length)
      (Solver.semiImplicit newton).IsNewtonFailure := by
  refine Attempt.meets_foldlM (fun y hy i => ?_) rfl
  have hlength : (newtonIterate field i t h (coordinate y i) (delta * newton.toleranceFactor)
      newton.maxIterations y).1.length = y.length := length_newtonIterate _ _
  rw [NewtonSettings.correct]
  split
  rename_i corrected atRest hiterate
  rw [hiterate] at hlength
  split
  · exact Attempt.meets_of_ok rfl (hlength.trans hy)
  · unfold NewtonSettings.giveUp
    cases hpolicy : newton.onNonConvergence with
    | accept => exact Attempt.meets_of_ok rfl (hlength.trans hy)
    | warn => exact Attempt.meets_of_ok rfl (hlength.trans hy)
    | fail => exact Attempt.meets_of_error rfl ⟨newton, _, _, rfl, hpolicy, rfl⟩

variable [Finiteness α]

/-- A part of the step is no positive number, so that no run can be started with it. -/
def IsStepFailure (s : Solver α) (step : α) (e : SolverError α) : Prop :=
  ∃ d ∈ s.innerSteps step, ¬ IsPositive d ∧ e = .invalidStep d

/-- How a step can fail. -/
def IsFailure (s : Solver α) (step : α) (e : SolverError α) : Prop :=
  s.IsNewtonFailure e ∨ s.IsStepFailure step e

/-- A run that a step has led to: it is at its stage, and every part of the step was a positive
number. -/
structure HasReached (s : Solver α) (field : VectorField α) (step start : α) (n : ℕ)
    (r : Run α) : Prop where
  stage : r.IsStage field step start n
  isPositive : ∀ d ∈ s.innerSteps step, IsPositive d

variable {s base : Solver α} {field : VectorField α} {step start : α} {n : ℕ} {r : Run α}

/-- A run that starts is at its stage zero. -/
theorem isStage_of_start {initial : State α} (h : Run.start field initial step = .ok r) :
    r.IsStage field step initial.time 0 := by
  obtain ⟨-, values, hvalues, rfl⟩ := Run.start_eq_ok_iff.mp h
  exact ⟨rfl, State.length_of_orderedValues hvalues, fun _ hnone => by cases hnone⟩

omit [DecidableLT α] in
/-- A run that reaches values for all variables is at its next stage. -/
theorem reach_meets {bad : SolverError α → Prop} (hstage : r.IsStage field step start n)
    (hpositive : ∀ d ∈ s.innerSteps step, IsPositive d) {values : List α}
    (hvalues : values.length = field.names.length) {previous : Option (List α)}
    (hprevious : ∀ back, previous = some back → back.length = field.names.length) :
    (r.reach values previous).Meets (s.HasReached field step start (n + 1)) bad :=
  Attempt.meets_of_ok rfl
    ⟨⟨congrArg Clock.advance hstage.clock_eq, hvalues, hprevious⟩, hpositive⟩

/-- A run inside a step starts with a part of the step and makes steps of its own, unless one of
these fails. -/
theorem refine_meets {bad : SolverError α → Prop} (hsuits : base.Suits field)
    {origin : State α} {ordered : List α} (hfits : origin.orderedValues field.names = .ok ordered)
    {count : ℕ} (hcount : 0 < count)
    (hadvance : ∀ n r, r.IsStage field (step / (count : α)) origin.time n →
      (base.advance field r).Meets
        (base.HasReached field (step / (count : α)) origin.time (n + 1)) bad)
    (hbad : ¬ IsPositive (step / (count : α)) → bad (.invalidStep (step / (count : α)))) :
    (refine (fun origin step => base.launch field origin step) (fun r => base.advance field r)
      origin step count).Meets
        (fun _ => ∀ d ∈ step / (count : α) :: base.innerSteps (step / (count : α)), IsPositive d)
        bad := by
  set part : α := step / (count : α) with hpart
  have hbegin := result_launch_of_suits hsuits origin part
  unfold Solver.refine
  rw [← hpart]
  by_cases hpositive : IsPositive part
  · have hstart := Run.result_start hpositive hfits
    have hstarted : (base.launch field origin part).Meets
        (Run.IsStage field part origin.time 0) bad :=
      Attempt.meets_of_ok (hbegin.trans hstart) (isStage_of_start hstart)
    refine hstarted.bind fun r hr => ?_
    rw [if_neg hcount.ne']
    -- the parts of the part are known to be positive once a step has been made
    have hrun : (advanceBy (fun r => base.advance field r) count r).Meets _ bad :=
      advanceBy_meets (fun j r => r.IsStage field part origin.time j ∧
          (0 < j → ∀ d ∈ base.innerSteps part, IsPositive d))
        (fun j r hr => (hadvance j r hr.1).imp
          (fun _ hreached => ⟨hreached.stage, fun _ => hreached.isPositive⟩) fun _ he => he)
        count ⟨hr, fun h => absurd h (lt_irrefl 0)⟩
    refine hrun.bind fun r' hr' => Attempt.meets_of_ok rfl ?_
    exact List.forall_mem_cons.mpr ⟨hpositive, hr'.2 (by omega)⟩
  · rw [Run.start_of_not_isPositive hpositive] at hbegin
    refine Attempt.meets_of_error ?_ (hbad hpositive)
    rw [Attempt.result_bind, hbegin]
    rfl

/-- A step leads to the next stage or fails in one of the two ways. -/
theorem advance_meets (s : Solver α) (hsuits : s.Suits field)
    (hstage : r.IsStage field step start n) :
    (s.advance field r).Meets (s.HasReached field step start (n + 1)) (s.IsFailure step) := by
  have hnone : ∀ back : List α, none = some back → back.length = field.names.length := by
    intro back h
    cases h
  have hno_part : ∀ d ∈ ([] : List α), IsPositive d := fun d hd => absurd hd List.not_mem_nil
  induction s generalizing step start n r with
  | euler =>
    exact reach_meets (s := .euler) hstage hno_part (length_along_rates hstage.length_values) hnone
  | midpoint =>
    have hback : ∀ back, some r.values = some back → back.length = field.names.length := by
      intro back h
      cases h
      exact hstage.length_values
    unfold advance
    cases hprevious : r.previous with
    | none =>
      exact reach_meets (s := .midpoint) hstage hno_part
        (length_along_rates hstage.length_values) hback
    | some back =>
      exact reach_meets (s := .midpoint) hstage hno_part
        (length_along_rates (hstage.length_previous back hprevious)) hback
  | stages name order tableau =>
    have hlength : (tableau.advance field r.time r.clock.increment r.values).length =
        field.names.length := by
      rw [Tableau.advance, List.length_map, List.length_range, hstage.length_values]
    exact reach_meets (s := .stages name order tableau) hstage hno_part hlength hnone
  | semiImplicit newton =>
    unfold advance
    refine (implicitHalf_meets.imp (fun _ h => h) fun _ he => .inl he).bind fun y hy => ?_
    exact reach_meets (s := .semiImplicit newton) hstage hno_part
      (length_explicitHalf.trans (hy.trans hstage.length_values)) hnone
  | extrapolation base runs hruns ih =>
    have hrows : ∀ count ∈ base.coefficients runs,
        (refine (fun origin step => base.launch field origin step)
          (fun r => base.advance field r) (r.state field) r.clock.increment count).Meets
          (fun _ => ∀ d ∈ step / (count : α) :: base.innerSteps (step / (count : α)),
            IsPositive d)
          ((Solver.extrapolation base runs hruns).IsFailure step) := by
      intro count hmem
      have hpart : ∀ d ∈ step / (count : α) :: base.innerSteps (step / (count : α)),
          d ∈ (Solver.extrapolation base runs hruns).innerSteps step := fun d hd =>
        List.mem_flatMap.mpr ⟨count, hmem, hd⟩
      have hfits : ∃ ordered, (r.state field).orderedValues field.names = .ok ordered :=
        State.exists_orderedValues hstage.length_values
      obtain ⟨ordered, hfits⟩ := hfits
      have hbase : base.Suits field := hsuits
      rw [hstage.increment_eq]
      refine refine_meets hbase hfits (pos_of_mem_coefficients hmem)
        (fun m r' hr' => (ih hbase hr').imp (fun _ h => h) ?_) fun hnot => ?_
      · rintro e (hnewton | ⟨d, hd, hnot, rfl⟩)
        · exact .inl hnewton
        · exact .inr ⟨d, hpart d (List.mem_cons_of_mem _ hd), hnot, rfl⟩
      · exact .inr ⟨_, hpart _ List.mem_cons_self, hnot, rfl⟩
    unfold advance
    refine (Attempt.meets_mapM hrows).bind fun table htable => reach_meets hstage ?_ ?_ hnone
    · intro d hd
      obtain ⟨count, hmem, hd⟩ := List.mem_flatMap.mp hd
      exact htable count hmem d hd
    · rw [combine, List.length_map, List.length_range, hstage.length_values]

end Solver

end Fluxion
