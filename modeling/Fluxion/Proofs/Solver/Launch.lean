import Fluxion.Proofs.Solver.Runs

/-!
# What launching a solver depends on

A solver is launched if the step is a positive number, the initial state fits the variables, and
every derivative is known that the solver needs (`Solver.result_launch`).  A solver needs
derivatives if the semi-implicit rule lies at the bottom of its extrapolations.

Of a system of equations a derivative is known at every point or at none.  So once a solver has been
launched on a system, it can be launched again from any state that fits, and nothing but the step
can be refused (`Solver.suits_of_launch`, `Solver.result_launch_of_suits`).
-/

set_option autoImplicit false

namespace Fluxion

variable {α : Type}

/-- There is one value for each name that was asked for. -/
theorem State.length_of_orderedValues {s : State α} {order : List String} {values : List α}
    (h : s.orderedValues order = .ok values) : values.length = order.length := by
  unfold orderedValues at h
  split at h
  · cases h
  · exact length_of_mapM h

/-- A state with the names of a system and a value for each of them fits the system. -/
theorem State.exists_orderedValues {time : α} {names : List String} {values : List α}
    (hlength : values.length = names.length) :
    ∃ ordered, (State.mk time names values).orderedValues names = .ok ordered := by
  unfold orderedValues
  rw [if_neg fun hne => hne rfl]
  refine exists_mapM_eq_ok_iff.mpr fun name hname => ?_
  have hindex : (names.idxOf? name).isSome = true := by
    rw [List.isSome_idxOf?]
    exact hname
  obtain ⟨i, hi⟩ := Option.isSome_iff_exists.mp hindex
  obtain ⟨hlt, -, -⟩ := List.idxOf?_eq_some_iff.mp hi
  refine ⟨values[i], ?_⟩
  simp only [require, get?, hi, Option.bind_some, List.getElem?_eq_getElem (hlength ▸ hlt)]

/-- Whether the derivatives of the components with respect to their own variables are known does not
depend on the point. -/
def VectorField.HasFixedSlopes (field : VectorField α) : Prop :=
  ∀ i t x t' x', (field.slope? i i t x).isSome = (field.slope? i i t' x').isSome

/-- Which partial derivatives a system knows does not depend on the point. -/
theorem Equations.hasFixedSlopes [Elementary α] [Arithmetic α] (s : Equations α) :
    s.toField.HasFixedSlopes := by
  intro i t x t' x'
  show (s.slope? i i t x).isSome = (s.slope? i i t' x').isSome
  unfold slope?
  cases s.entryAt? i i with
  | some b => rfl
  | none => rw [Option.isSome_map, Option.isSome_map]

namespace Solver

/-- The settings of the semi-implicit rule, if it lies at the bottom of the extrapolations. -/
def newton? : Solver α → Option (NewtonSettings α)
  | .euler | .midpoint | .stages _ _ _ => none
  | .semiImplicit newton => some newton
  | .extrapolation base _ _ => base.newton?

/-- Every derivative that the solver needs is known, at every point. -/
def Suits (s : Solver α) (field : VectorField α) : Prop :=
  s.newton?.isSome = true → ∀ t x, missingDerivative? field t x = none

/-- Which derivative is missing does not depend on the point. -/
theorem missingDerivative_congr {field : VectorField α} (h : field.HasFixedSlopes) (t t' : α)
    (x x' : List α) : missingDerivative? field t x = missingDerivative? field t' x' := by
  unfold missingDerivative?
  congr 2
  funext entry
  show (field.slope? entry.2 entry.2 t x).isNone = (field.slope? entry.2 entry.2 t' x').isNone
  rw [← Option.not_isSome, ← Option.not_isSome, h entry.2 t x t' x']

/-- No derivative is missing if every component knows that with respect to its own variable. -/
theorem missingDerivative_eq_none_iff {field : VectorField α} {t : α} {x : List α} :
    missingDerivative? field t x = none ↔
      ∀ i < field.names.length, ∃ v, field.slope? i i t x = some v := by
  unfold missingDerivative?
  rw [Option.map_eq_none_iff, List.find?_eq_none]
  constructor
  · intro h i hi
    have hmem : (field.names[i], i) ∈ field.names.zipIdx :=
      List.mk_mem_zipIdx_iff_getElem?.mpr (List.getElem?_eq_getElem hi)
    have hknown : ¬ (field.slope? i i t x).isNone = true := h _ hmem
    rw [Option.isNone_iff_eq_none] at hknown
    exact Option.ne_none_iff_exists'.mp hknown
  · rintro h ⟨name, i⟩ hmem
    obtain ⟨-, hlt, -⟩ := List.mem_zipIdx hmem
    obtain ⟨v, hv⟩ := h i (by omega)
    simp [hv]

/-- Refuses a run if the solver needs a derivative that is not known where the run starts. -/
def checkSlopes (s : Solver α) (field : VectorField α) (t : α) (r : Run α) :
    Except (SolverError α) (Run α) :=
  if s.newton?.isSome then
    match missingDerivative? field t r.values with
    | some name => .error (.missingDerivative name)
    | none => .ok r
  else .ok r

/-- The check for derivatives leaves the run as it is, and what passes it knows the derivatives that
Newton's iteration needs. -/
theorem of_checkSlopes {s : Solver α} {field : VectorField α} {t : α} {r r' : Run α}
    (h : s.checkSlopes field t r = .ok r') :
    r' = r ∧ (s.newton?.isSome = true → missingDerivative? field t r.values = none) := by
  unfold checkSlopes at h
  split at h
  · split at h
    · cases h
    · rename_i hnone
      cases h
      exact ⟨rfl, fun _ => hnone⟩
  · rename_i hneeds
    cases h
    exact ⟨rfl, fun hsome => absurd hsome hneeds⟩

end Solver

namespace Clock

variable [Arithmetic α] [LT α] [DecidableLT α] [Finiteness α] {increment start : α}

/-- A clock is made for a positive increment, and has not moved yet. -/
theorem create_eq_ok_iff {c : Clock α} :
    create increment start = .ok c ↔ IsPositive increment ∧ c = after increment start 0 := by
  constructor
  · intro h
    unfold create at h
    split at h
    · rename_i hpositive
      cases h
      exact ⟨hpositive, rfl⟩
    · cases h
  · rintro ⟨hpositive, rfl⟩
    exact create_eq_ok hpositive

end Clock

namespace Run

variable [Arithmetic α] [LT α] [DecidableLT α] [Finiteness α] {field : VectorField α}
  {initial : State α} {step : α} {r : Run α}

/-- A run starts with a positive step from a state that has the variables of the field. -/
theorem start_eq_ok_iff :
    Run.start field initial step = .ok r ↔
      IsPositive step ∧ ∃ values, initial.orderedValues field.names = .ok values ∧
        r = after step initial.time 0 values none := by
  constructor
  · intro h
    obtain ⟨clock, hclock, h⟩ := bind_eq_ok_iff.mp h
    obtain ⟨values, hvalues, h⟩ := bind_eq_ok_iff.mp h
    obtain ⟨hpositive, rfl⟩ := Clock.create_eq_ok_iff.mp hclock
    cases h
    exact ⟨hpositive, values, hvalues, rfl⟩
  · rintro ⟨hpositive, values, hvalues, rfl⟩
    exact result_start hpositive hvalues

/-- A step that is not positive is refused before anything else. -/
theorem start_of_not_isPositive (h : ¬ IsPositive step) :
    Run.start field initial step = .error (.invalidStep step) := by
  unfold Run.start Clock.create
  rw [if_neg h]
  rfl

end Run

namespace Solver

variable [Arithmetic α] [LT α] [DecidableLT α] [Finiteness α] {field : VectorField α}
  {initial : State α} {step : α} {r : Run α}

/-- Launching starts a run and looks whether the derivatives are known.  That extrapolation launches
its base refuses nothing else. -/
theorem result_launch (s : Solver α) (field : VectorField α) (initial : State α) (step : α) :
    (s.launch field initial step).result =
      Run.start field initial step >>= s.checkSlopes field initial.time := by
  cases hstart : Run.start field initial step with
  | error e =>
    cases s <;> simp only [launch, hstart] <;> rfl
  | ok r =>
    show _ = s.checkSlopes field initial.time r
    induction s with
    | euler => rw [launch, hstart]; rfl
    | midpoint => rw [launch, hstart]; rfl
    | stages name order tableau => rw [launch, hstart]; rfl
    | semiImplicit newton =>
      rw [launch, hstart, Attempt.result_bind_of_ok rfl]
      unfold checkSlopes newton?
      dsimp only
      cases missingDerivative? field initial.time r.values <;> rfl
    | extrapolation base runs hruns ih =>
      rw [launch, hstart, Attempt.result_bind_of_ok rfl, Attempt.result_bind, ih]
      show _ = base.checkSlopes field initial.time r
      cases hbase : base.checkSlopes field initial.time r with
      | error e => rfl
      | ok r' =>
        rw [(of_checkSlopes hbase).1]
        rfl

/-- On a field that suits it a solver is launched wherever a run starts. -/
theorem result_launch_of_suits {s : Solver α} (h : s.Suits field) (initial : State α) (step : α) :
    (s.launch field initial step).result = Run.start field initial step := by
  have hcheck : s.checkSlopes field initial.time = Except.ok := by
    funext r
    unfold checkSlopes
    split
    · rename_i hneeds
      rw [h hneeds]
    · rfl
  rw [result_launch, hcheck]
  cases Run.start field initial step <;> rfl

/-- Any solver is launched if the step is a positive number, the state fits and the derivatives are
known there. -/
theorem result_launch_of_known (s : Solver α) {values : List α} (hpositive : IsPositive step)
    (hfits : initial.orderedValues field.names = .ok values)
    (hknown : missingDerivative? field initial.time values = none) :
    (s.launch field initial step).result =
      .ok (Run.after step initial.time 0 values none) := by
  rw [result_launch, Run.result_start hpositive hfits]
  show s.checkSlopes field initial.time (Run.after step initial.time 0 values none) = _
  rw [checkSlopes, Run.values_after, hknown]
  exact ite_self _

/-- A solver that has been launched on a system can be launched on it anywhere, and has been
started. -/
theorem suits_of_launch {s : Solver α} (hfixed : field.HasFixedSlopes)
    (h : (s.launch field initial step).result = .ok r) :
    s.Suits field ∧ Run.start field initial step = .ok r := by
  rw [result_launch] at h
  obtain ⟨r', hstart, hcheck⟩ := bind_eq_ok_iff.mp h
  obtain ⟨rfl, hnone⟩ := of_checkSlopes hcheck
  refine ⟨fun hneeds t x => ?_, hstart⟩
  -- what is known where the run starts is known everywhere
  exact (missingDerivative_congr hfixed t _ x _).trans (hnone hneeds)

end Solver

end Fluxion
