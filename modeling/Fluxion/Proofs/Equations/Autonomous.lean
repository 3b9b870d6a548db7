import Fluxion.Proofs.Equations.WellFormed
import Fluxion.Proofs.Solver.Timeless

/-!
# Autonomous systems

A system is autonomous if none of its right-hand sides mentions the independent variable
(`Equations.IsAutonomous`).  Then none of the partial derivatives does either, because a derivative
has no variable that the expression does not have, and an estimate evaluates the right-hand side
itself.  So the field of an autonomous system does not depend on time
(`Equations.isTimeless_of_ofSources`), and what is true of solvers on such fields is true of solvers
on the system: the time at which they start does not matter (`Equations.start_time_irrelevant`), and
a method that makes each step from the values alone can be started anew from any state that it has
reached (`Equations.stream_behind_state`).
-/

set_option autoImplicit false

namespace Fluxion

namespace BoundFormula

variable {α : Type}

/-- No argument of the formula comes from the independent variable. -/
def IsTimeless (b : BoundFormula α) : Prop := Slot.independent ∉ b.slots

/-- A right-hand side that does not use the independent variable is bound without a slot for it. -/
theorem isTimeless_of_bind {label independent : String} {names : List String} {f : Formula α}
    {b : BoundFormula α} (h : bind label names independent f = .ok b)
    (hf : independent ∉ f.parameters) : b.IsTimeless := by
  obtain ⟨slots, hslots, h⟩ := bind_eq_ok_iff.mp h
  cases h
  intro hmem
  obtain ⟨name, hname, hslot⟩ := exists_of_mem_mapM hslots hmem
  split at hslot
  · rename_i slot hfind
    cases hslot
    unfold Slot.find? at hfind
    split at hfind
    · cases hfind
    · split at hfind
      · rename_i hindependent
        exact hf (hindependent ▸ hname)
      · cases hfind
  · cases hslot

variable [Elementary α] [Arithmetic α]

/-- The value of a timeless right-hand side is the same at all times. -/
theorem IsTimeless.value_eq {b : BoundFormula α} (h : b.IsTimeless) (t t' : α) (x : List α) :
    b.value t x = b.value t' x := by
  unfold value
  refine congrArg b.formula.valueAt (funext fun k => ?_)
  unfold argument
  cases hslot : b.slots[k]? with
  | none => rfl
  | some slot =>
    cases slot with
    | independent => exact absurd (List.mem_of_getElem? hslot) h
    | state index => rfl

end BoundFormula

namespace Equations

variable {α : Type}

/-- No right-hand side mentions the independent variable. -/
def IsAutonomous (s : Equations α) : Prop :=
  ∀ b ∈ s.rightHandSides, b.formula.expression.mentions s.independent = false

variable [Elementary α]

/-- A formula has no argument that its expression does not mention. -/
theorem not_mem_parameters {evaluator : Evaluator} {e : Expr α} {f : Formula α} {name : String}
    (h : Formula.build evaluator e = .ok f) (he : name ∉ e.occurrences) : name ∉ f.parameters := by
  rw [Formula.parameters_of_build h, Expr.mem_freeVariables]
  exact he

section Entries

variable [NatCast α] {s s' : Equations α} {evaluator : Evaluator}

/-- The partial derivatives of an autonomous system do not depend on time. -/
theorem IsAutonomous.isTimeless_entry (h : s.IsAutonomous)
    {entry : (ℕ × ℕ) × BoundFormula α} (hentry : s.IsSymbolicEntry evaluator entry) :
    entry.2.IsTimeless := by
  obtain ⟨rightHandSide, column, slope, f, label, hrow, -, hslope, hf, hbind⟩ := hentry
  refine BoundFormula.isTimeless_of_bind hbind (not_mem_parameters hf fun hmem => ?_)
  have hsubset := (Expr.differentiatesTo_of_derivative hslope).occurrences_subset
  have hmentions := Expr.mentions_eq_true_iff.mpr (hsubset hmem)
  rw [h rightHandSide (List.mem_of_getElem? hrow)] at hmentions
  cases hmentions

end Entries

/-- A field of formulas that do not depend on time does not depend on time. -/
theorem isTimeless_toField [Arithmetic α] {s : Equations α}
    (hrightHandSides : ∀ b ∈ s.rightHandSides, b.IsTimeless)
    (hentries : ∀ entry ∈ s.entries, entry.2.IsTimeless) : s.toField.IsTimeless := by
  have hcomponent : ∀ i t t' x, s.component i t x = s.component i t' x := by
    intro i t t' x
    unfold component
    cases hb : s.rightHandSides[i]? with
    | none => rfl
    | some b => exact (hrightHandSides b (List.mem_of_getElem? hb)).value_eq t t' x
  refine ⟨hcomponent, fun row column t t' x => ?_⟩
  show s.slope? row column t x = s.slope? row column t' x
  unfold slope?
  cases hb : s.entryAt? row column with
  | some b => exact congrArg some ((hentries _ (mem_entries_of_entryAt hb)).value_eq t t' x)
  | none => simp only [hcomponent row t t']

end Equations

namespace Equations

variable {sources : List String} {settings : Settings} {s : Equations Float}

/-- Attaching partial derivatives leaves the name of the independent variable. -/
theorem independent_of_attachJacobian {s₀ : Equations Float}
    (h : s₀.attachJacobian settings = .ok s) : s.independent = s₀.independent := by
  unfold attachJacobian at h
  split at h
  · obtain ⟨added, rfl⟩ := exists_added_of_attachSymbolic h
    rfl
  · obtain ⟨-, rfl⟩ := attachEstimate_eq_ok_iff.mp h
    rfl

/-- The right-hand sides of an autonomous system do not depend on time. -/
theorem IsAutonomous.isTimeless_of_create {evaluator : Evaluator} {independent : String}
    {formulas : List (String × Formula Float)} (hs : s.IsAutonomous)
    (hread : sources.mapM (readEquation evaluator) = .ok formulas)
    (hcreate : create independent formulas = .ok s) {b : BoundFormula Float}
    (hb : b ∈ s.rightHandSides) : b.IsTimeless := by
  obtain ⟨-, -, -, rightHandSides, hbound, rfl⟩ := create_eq_ok_iff.mp hcreate
  obtain ⟨equation, hequation, hbind⟩ := exists_of_mem_mapM hbound hb
  obtain ⟨source, -, hone⟩ := exists_of_mem_mapM hread hequation
  refine BoundFormula.isTimeless_of_bind hbind (not_mem_parameters (isBuilt_of_read hone) ?_)
  intro hmem
  have hmentions := Expr.mentions_eq_true_iff.mpr hmem
  have hnot := hs b hb
  rw [BoundFormula.formula_of_bind hbind] at hnot
  rw [hnot] at hmentions
  cases hmentions

/-- The field of an autonomous system that was built from texts does not depend on time. -/
theorem isTimeless_of_ofSources (h : ofSources sources settings = .ok s) (hs : s.IsAutonomous) :
    s.toField.IsTimeless := by
  obtain ⟨formulas, s₀, hread, hcreate, hattach⟩ := ofSources_eq_ok_iff.mp h
  obtain ⟨hnames, hrightHandSides⟩ := kept_of_attachJacobian hattach
  have hindependent := independent_of_attachJacobian hattach
  have hs₀ : s₀.IsAutonomous := by
    unfold IsAutonomous at hs ⊢
    rwa [hrightHandSides, hindependent] at hs
  refine isTimeless_toField ?_ fun entry hentry => ?_
  · intro b hb
    rw [hrightHandSides] at hb
    exact hs₀.isTimeless_of_create hread hcreate hb
  · unfold attachJacobian at hattach
    split at hattach
    · obtain hold | hnew := isSymbolicEntry_of_mem (nodup_of_create hcreate) hattach hentry
      · rw [entries_of_create hcreate] at hold
        cases hold
      · exact hs₀.isTimeless_entry hnew
    · rw [(estimate_of_attachEstimate hattach).2, entries_of_create hcreate] at hentry
      cases hentry

/-- An autonomous system is blind to the clock.  A solver that is launched on it at two times from
the same values fails with the same error, or gives streams that are the same at every pull: both
give states with the same values, both fail with the same error but for the time that it reports, or
both have ended. -/
theorem start_time_irrelevant (sources : List String) (settings : Settings) (s : Equations Float)
    (h : ofSources sources settings = .ok s) (hs : s.IsAutonomous) (solver : Solver Float)
    (names : List String) (values : List Float) (time time' step : Float) :
    ExceptRel Eq (fun t t' => ∀ n, Trajectory.SameItemButTime (t.item n) (t'.item n))
      (Trajectory.launch solver s.toField ⟨time, names, values⟩ step).result
      (Trajectory.launch solver s.toField ⟨time', names, values⟩ step).result := by
  have hinitial : (State.mk time names values).SameButTime ⟨time', names, values⟩ := ⟨rfl, rfl⟩
  exact Trajectory.launch_coupled (isTimeless_of_ofSources h hs) solver hinitial step

/-- The decay does not use its independent variable. -/
theorem isAutonomous_decay : decay.IsAutonomous := by
  intro b hb
  obtain rfl := List.mem_singleton.mp hb
  decide

/-- The extrapolation of the semi-implicit rule gives the same stream on the decay whether it is
started at zero or at a time at which a step no longer moves the clock. -/
theorem start_time_irrelevant_decay :
    let solver : Solver Float := .extrapolation (.semiImplicit .standard) 2 (by decide)
    ∃ t t', (Trajectory.launch solver decay.toField ⟨0, ["x"], [1]⟩ 0.125).result = .ok t ∧
      (Trajectory.launch solver decay.toField ⟨1e300, ["x"], [1]⟩ 0.125).result = .ok t' ∧
      ∀ n, Trajectory.SameItemButTime (t.item n) (t'.item n) := by
  intro solver
  have hcoupled := start_time_irrelevant _ {} decay ofSources_decay isAutonomous_decay solver ["x"]
    [1] 0 1e300 0.125
  generalize
    hlaunch : (Trajectory.launch solver decay.toField ⟨0, ["x"], [1]⟩ 0.125).result = result,
    hlaunch' : (Trajectory.launch solver decay.toField ⟨1e300, ["x"], [1]⟩ 0.125).result = result'
    at hcoupled
  cases hcoupled with
  | ok hsame => exact ⟨_, _, rfl, rfl, hsame⟩
  | error he => cases hlaunch

/-- Solvers that make each step from the values alone carry no hidden history.  If the stream of
such a solver on an autonomous system gives a state, then the solver can be launched anew from that
state with the same step, and at every pull the new stream gives what the old one gives behind the
state. -/
theorem stream_behind_state (sources : List String) (settings : Settings) (s : Equations Float)
    (h : ofSources sources settings = .ok s) (hs : s.IsAutonomous) (solver : Solver Float)
    (hsolver : solver ≠ .midpoint) (initial : State Float) (step : Float) (t : Trajectory Float)
    (ht : (Trajectory.launch solver s.toField initial step).result = .ok t) (n : ℕ)
    (x : State Float) (hx : t.item n = some (.ok x)) :
    ∃ t', (Trajectory.launch solver s.toField x step).result = .ok t' ∧
      ∀ m, Trajectory.SameItemButTime (t.item (n + 1 + m)) (t'.item m) := by
  have hrunning := Trajectory.isRunning_of_launch s.hasFixedSlopes ht
  obtain ⟨r, hlaunch, -⟩ := Trajectory.launch_eq_ok_iff.mp ht
  obtain ⟨-, hstart⟩ := Solver.suits_of_launch s.hasFixedSlopes hlaunch
  obtain ⟨hstep, -⟩ := Run.start_eq_ok_iff.mp hstart
  exact hrunning.exists_relaunch (isTimeless_of_ofSources h hs) (nodup_of_ofSources h) hstep hsolver
    hx

/-- The extrapolation of the semi-implicit rule on the decay gives a first state, and started anew
from it goes on as if it had not stopped. -/
theorem stream_behind_state_decay :
    let solver : Solver Float := .extrapolation (.semiImplicit .standard) 2 (by decide)
    ∃ t x t', (Trajectory.launch solver decay.toField ⟨0, ["x"], [1]⟩ 0.125).result = .ok t ∧
      t.item 0 = some (.ok x) ∧
      (Trajectory.launch solver decay.toField x 0.125).result = .ok t' ∧
      ∀ m, Trajectory.SameItemButTime (t.item (0 + 1 + m)) (t'.item m) := by
  intro solver
  have hparts : ∀ d ∈ solver.innerSteps 0.125, IsPositive d := by decide
  have hlaunch : ∃ t,
      (Trajectory.launch solver decay.toField ⟨0, ["x"], [1]⟩ 0.125).result = .ok t :=
    ⟨_, rfl⟩
  obtain ⟨t, ht⟩ := hlaunch
  have hrunning := Trajectory.isRunning_of_launch decay.hasFixedSlopes ht
  have hfirst : ∃ x, t.item 0 = some (.ok x) := by
    obtain ⟨r, -, hitem, -⟩ | ⟨e, hfailure, -, -⟩ := hrunning.pull_cases
    · exact ⟨_, hitem⟩
    · -- the iteration is told to warn, and the parts of the step are positive
      obtain ⟨newton, name, time, hnewton, hpolicy, -⟩ | ⟨d, hd, hnot, -⟩ := hfailure
      · cases hnewton
        cases hpolicy
      · exact absurd (hparts d hd) hnot
  obtain ⟨x, hx⟩ := hfirst
  obtain ⟨t', ht', hsame⟩ :=
    stream_behind_state _ {} decay ofSources_decay isAutonomous_decay solver
    nofun _ _ t ht 0 x hx
  exact ⟨t, x, t', ht, hx, ht', hsame⟩

end Equations

end Fluxion
