import Fluxion.Proofs.Equations.WellFormed
import Fluxion.Proofs.Solver.Streams
import Fluxion.Services

/-!
# When a simulation starts

A simulation starts exactly if everything that its user has chosen makes sense
(`Simulation.CanStart`): the settings, the equations, the number of initial values, the number of
stages, the name of the solver and the step.  What is refused is one of these choices, and the error
says which (`Simulation.IsRefusal`).

Behind these checks lie others: of the initial state against the variables, of the derivatives that
the semi-implicit rule needs, of the settings of Newton's iteration once more, and of what
extrapolation finds wrong with its base.  None of them can fail in a simulation
(`Simulation.start_succeeds_iff`), because a system that was built from texts knows all of its
partial derivatives and has distinct names for its values.
-/

set_option autoImplicit false

namespace Fluxion

namespace Catalogue

variable {α : Type} {c : Catalogue α} {name : String}

/-- There is a solver with this key or with this name. -/
def Offers (c : Catalogue α) (name : String) : Prop :=
  name ∈ c.keys ∨ name ∈ c.descriptions.map (·.name)

/-- A catalogue finds a solver under a name if it offers the name. -/
theorem exists_get_iff : (∃ s, c.get? name = some s) ↔ c.Offers name := by
  have hfound : (c.get? name).isSome = true ↔
      ∃ entry ∈ c.entries, entry.1 = name ∨ entry.2.description.name = name := by
    rw [get?, Option.isSome_map, List.find?_isSome]
    simp only [Bool.or_eq_true, decide_eq_true_eq]
  rw [← Option.isSome_iff_exists, hfound, Offers, keys, descriptions, List.map_map, List.mem_map,
    List.mem_map]
  constructor
  · rintro ⟨entry, hmem, rfl | rfl⟩
    · exact .inl ⟨entry, hmem, rfl⟩
    · exact .inr ⟨entry, hmem, rfl⟩
  · rintro (⟨entry, hmem, rfl⟩ | ⟨entry, hmem, rfl⟩)
    · exact ⟨entry, hmem, .inl rfl⟩
    · exact ⟨entry, hmem, .inr rfl⟩

/-- A catalogue gives a solver, unless the number of stages is out of range or it has none of this
name.  Wrapping a solver in extrapolation cannot fail for a number of stages in range. -/
theorem build_cases (c : Catalogue α) (name : String) (stages : ℕ) :
    ((1 ≤ stages ∧ stages ≤ maxStages) ∧ c.Offers name ∧
        ∃ s, (c.build name stages).result = .ok s) ∨
      (¬ (1 ≤ stages ∧ stages ≤ maxStages) ∧
        (c.build name stages).result = .error (.stagesOutOfRange stages)) ∨
      (¬ c.Offers name ∧ (c.build name stages).result = .error (.unknownSolver name c.keys)) := by
  unfold build
  split
  · rename_i hrange
    refine .inr (.inl ⟨?_, rfl⟩)
    omega
  · rename_i hrange
    split
    · rename_i hnone
      refine .inr (.inr ⟨fun hoffers => ?_, rfl⟩)
      obtain ⟨s, hs⟩ := exists_get_iff.mpr hoffers
      rw [hnone] at hs
      cases hs
    · rename_i base hbase
      refine .inl ⟨by omega, exists_get_iff.mp ⟨base, hbase⟩, ?_⟩
      split
      · exact ⟨base, rfl⟩
      · have hpos : 0 < stages := by omega
        refine ⟨.extrapolation base stages hpos, ?_⟩
        rw [Attempt.result_bind_of_ok rfl]
        unfold Solver.extrapolate
        rw [dif_pos hpos]
        rfl

/-- There is a standard catalogue if the settings of Newton's iteration pass their check. -/
theorem exists_standard_iff [Arithmetic α] [LT α] [DecidableLT α] [Finiteness α]
    {newton : NewtonSettings α} : (∃ c, standard newton = .ok c) ↔ newton.check = .ok () := by
  unfold standard Solver.withNewton
  cases newton.check with
  | ok => exact iff_of_true ⟨_, rfl⟩ rfl
  | error e => exact iff_of_false (fun ⟨c, hc⟩ => by cases hc) (fun h => by cases h)

end Catalogue

namespace Equations

variable {sources : List String} {settings : Settings} {s : Equations Float}

/-- A system from texts has one variable for each text. -/
theorem length_names_of_ofSources (h : ofSources sources settings = .ok s) :
    s.names.length = sources.length := by
  obtain ⟨equations, hsystem, hnames, -⟩ := equations_of_ofSources h
  rw [hnames, List.length_map, hsystem.read.length_eq]

/-- Every solver can be launched on a system that was built from texts, from any values of the
variables, and nothing but the step can be refused. -/
theorem launch_cases (h : ofSources sources settings = .ok s) (solver : Solver Float)
    {values : List Float} (hlength : values.length = s.names.length) (start step : Float) :
    (IsPositive step ∧ ∃ t, (Trajectory.launch solver s.toField
        (State.ofEntries start (s.names.zip values)) step).result = .ok t) ∨
      (¬ IsPositive step ∧ (Trajectory.launch solver s.toField
        (State.ofEntries start (s.names.zip values)) step).result =
          .error (.invalidStep step)) := by
  have hsuits : solver.Suits s.toField := fun _ t x =>
    Solver.missingDerivative_eq_none_iff.mpr fun i hi => exists_slope_of_ofSources h hi hi t x
  have hinitial : State.ofEntries start (s.names.zip values) = ⟨start, s.names, values⟩ := by
    rw [State.ofEntries, List.map_fst_zip hlength.ge, List.map_snd_zip hlength.le]
  have hlaunch := Solver.result_launch_of_suits hsuits ⟨start, s.names, values⟩ step
  rw [hinitial]
  by_cases hstep : IsPositive step
  · have hfits : (State.mk start s.names values).orderedValues s.toField.names = .ok values :=
      State.orderedValues_self (nodup_of_ofSources h) hlength.symm
    exact .inl ⟨hstep, _, Trajectory.result_launch (hlaunch.trans (Run.result_start hstep hfits))⟩
  · rw [Run.start_of_not_isPositive hstep] at hlaunch
    refine .inr ⟨hstep, ?_⟩
    rw [Trajectory.launch, Attempt.result_bind, hlaunch]
    rfl

end Equations

namespace Simulation

/-- Everything that the user of a simulation chooses makes sense. -/
structure CanStart (request : SimulationRequest) (settings : Settings) : Prop where
  settings_check : settings.check = .ok ()
  equations : ∃ s, Equations.ofSources request.equations settings = .ok s
  initialValues : request.initialValues.length = request.equations.length
  stages : 1 ≤ request.stages ∧ request.stages ≤ 8
  solver : ∃ c, Catalogue.standard settings.newton = .ok c ∧ c.Offers request.solver
  step : IsPositive request.step

/-- The choice of the user that an error refuses, and the error that says so. -/
inductive IsRefusal (request : SimulationRequest) (settings : Settings) : SimulationError → Prop
  | settings {cause : SettingsError} (h : settings.check = .error cause) :
    IsRefusal request settings (.settings cause)
  | equations {cause : EquationsError Float}
    (h : Equations.ofSources request.equations settings = .error cause) :
    IsRefusal request settings (.equations cause)
  | initialValues (h : request.initialValues.length ≠ request.equations.length) :
    IsRefusal request settings
      (.initialValues request.equations.length request.initialValues.length)
  | stages (h : ¬ (1 ≤ request.stages ∧ request.stages ≤ 8)) :
    IsRefusal request settings (.catalogue (.stagesOutOfRange request.stages))
  | solver {c : Catalogue Float} (hc : Catalogue.standard settings.newton = .ok c)
    (h : ¬ c.Offers request.solver) :
    IsRefusal request settings (.catalogue (.unknownSolver request.solver c.keys))
  | step {name : String} (h : ¬ IsPositive request.step) :
    IsRefusal request settings (.launch name (.invalidStep request.step))

variable {request : SimulationRequest} {settings : Settings}

/-- Settings that pass their check have settings of Newton's iteration that pass theirs. -/
theorem newton_check_of_check (h : settings.check = .ok ()) : settings.newton.check = .ok () := by
  unfold Settings.check at h
  split at h
  · cases h
  · obtain ⟨⟨⟩, hnewton, -⟩ := bind_eq_ok_iff.mp h
    exact mapError_eq_ok_iff.mp hnewton

/-- What can start is not refused. -/
theorem IsRefusal.not_canStart {e : SimulationError} (h : IsRefusal request settings e) :
    ¬ CanStart request settings := by
  intro hcan
  cases h with
  | settings h => exact nomatch hcan.settings_check.symm.trans h
  | equations h =>
    obtain ⟨s, hs⟩ := hcan.equations
    exact nomatch hs.symm.trans h
  | initialValues h => exact h hcan.initialValues
  | stages h => exact h hcan.stages
  | solver hc h =>
    obtain ⟨c, hstandard, hoffers⟩ := hcan.solver
    cases hc.symm.trans hstandard
    exact h hoffers
  | step h => exact h hcan.step

/-- A simulation whose choices have passed all checks starts, and the first check that they do not
pass refuses one of them. -/
theorem start_cases (request : SimulationRequest) (settings : Settings) :
    (CanStart request settings ∧ ∃ sim, (start request settings).result = .ok sim) ∨
      ∃ e, IsRefusal request settings e ∧ (start request settings).result = .error e := by
  unfold start
  rcases hsettings : settings.check with cause | ⟨⟩
  · exact .inr ⟨_, .settings hsettings, rfl⟩
  obtain ⟨c, hc⟩ := Catalogue.exists_standard_iff.mpr (newton_check_of_check hsettings)
  rw [Attempt.result_bind_of_ok rfl, hc]
  rcases hequations : Equations.ofSources request.equations settings with cause | s
  · exact .inr ⟨_, .equations hequations, rfl⟩
  rw [Attempt.result_bind_of_ok rfl, checkInitial, Equations.length_names_of_ofSources hequations]
  obtain hinitial | hinitial := ne_or_eq request.initialValues.length request.equations.length
  · rw [if_pos hinitial]
    exact .inr ⟨_, .initialValues hinitial, rfl⟩
  rw [if_neg (not_not_intro hinitial), Attempt.result_bind_of_ok rfl, Attempt.result_bind_of_ok rfl]
  obtain ⟨hstages, hoffers, solver, hbuild⟩ | ⟨hstages, hbuild⟩ | ⟨hoffers, hbuild⟩ :=
    c.build_cases request.solver request.stages
  rotate_left
  · rw [Attempt.result_bind, Attempt.mapError, hbuild]
    exact .inr ⟨_, .stages hstages, rfl⟩
  · rw [Attempt.result_bind, Attempt.mapError, hbuild]
    exact .inr ⟨_, .solver hc hoffers, rfl⟩
  have hsolver : ((c.build request.solver request.stages).mapError
      SimulationError.catalogue).result = .ok solver := by rw [Attempt.mapError, hbuild]; rfl
  have hlength := hinitial.trans (Equations.length_names_of_ofSources hequations).symm
  rw [Attempt.result_bind_of_ok hsolver]
  dsimp only
  obtain ⟨hstep, t, hlaunch⟩ | ⟨hstep, hlaunch⟩ :=
    Equations.launch_cases hequations solver hlength request.start request.step
  · refine .inl ⟨⟨hsettings, ⟨s, hequations⟩, hinitial, hstages, ⟨c, hc, hoffers⟩, hstep⟩, ?_⟩
    rw [Attempt.result_bind, Attempt.mapError, hlaunch]
    exact ⟨_, rfl⟩
  · rw [Attempt.result_bind, Attempt.mapError, hlaunch]
    exact .inr ⟨_, .step hstep, rfl⟩

/-- A simulation starts exactly if its user has chosen settings that make sense, texts that form a
system, as many initial values as texts, between one and eight stages, a solver by one of its two
names, and a step that is a positive number.  If it does not start, the error refuses one of
these. -/
theorem start_succeeds_iff :
    (∀ request settings,
      (∃ sim, (start request settings).result = .ok sim) ↔ CanStart request settings) ∧
    ∀ request settings e, (start request settings).result = .error e →
      IsRefusal request settings e := by
  refine ⟨fun request settings => ?_, fun request settings e he => ?_⟩
  · obtain ⟨hcan, hstarted⟩ | ⟨e, hrefusal, he⟩ := start_cases request settings
    · exact iff_of_true hstarted hcan
    · refine iff_of_false ?_ hrefusal.not_canStart
      rintro ⟨sim, hsim⟩
      exact nomatch hsim.symm.trans he
  · obtain ⟨-, sim, hsim⟩ | ⟨e', hrefusal, he'⟩ := start_cases request settings
    · exact nomatch hsim.symm.trans he
    · cases he.symm.trans he'
      exact hrefusal

/-- The decay, with extrapolation of the semi-implicit rule from three runs. -/
def decayRequest : SimulationRequest where
  equations := ["x' = -x"]
  initialValues := [1]
  start := 0
  solver := "Semi-implicit midpoint"
  step := 0.125
  stages := 3

/-- The decay can start. -/
theorem canStart_decayRequest : CanStart decayRequest {} where
  settings_check := rfl
  equations := ⟨_, Equations.ofSources_decay⟩
  initialValues := rfl
  stages := by decide
  solver := ⟨_, rfl, .inr (by decide)⟩
  step := by decide

/-- The decay starts with three stages, and not with nine. -/
theorem starts_decay :
    (∃ sim, (start decayRequest {}).result = .ok sim) ∧
      ¬ ∃ sim, (start { decayRequest with stages := 9 } {}).result = .ok sim := by
  constructor
  · exact (start_succeeds_iff.1 decayRequest {}).mpr canStart_decayRequest
  · rw [start_succeeds_iff.1]
    intro hcan
    exact absurd hcan.stages (by decide)

end Simulation

end Fluxion
