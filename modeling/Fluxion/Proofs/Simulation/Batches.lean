import Fluxion.Proofs.Simulation.Reports
import Fluxion.Proofs.Simulation.Starting
import Fluxion.Proofs.Solver.Streams

/-!
# Batches of states

A simulation serves the stream of its solver (`Simulation.Serves`).  Into which batches the states
are divided cannot be seen from the states: put together, the batches are the first states of the
stream.  The first batch that cannot be given is the one in which the stream fails, and it reports
the error of the stream.  From then on the simulation has stopped, and it has not before.

This holds of the calls for which the host has room (`Host.granted`).  A call that asks for more
states than that does not return, whether or not the stream fails in it, because the room is made
before the first state is pulled (`Simulation.Serves.overflow_iff`).  It leaves the simulation as it
was, and counts for nothing in what the other calls give.

That a stream ends without an error is never reported, because it does not happen: a trajectory
ends with an error, and a simulation takes nothing from it afterwards (`Simulation.collect_cases`).
The invariant of the calls is that what is left to the simulation is the stream without the states
that it has given (`Simulation.IsAt`).
-/

set_option autoImplicit false

namespace Fluxion

namespace Trajectory

section

variable {α : Type} [Arithmetic α] [LT α] [DecidableLT α] [Finiteness α] {t : Trajectory α}

/-- A trajectory that has just been launched has not ended. -/
theorem ended_of_launch {s : Solver α} {field : VectorField α} {initial : State α} {step : α}
    (h : (launch s field initial step).result = .ok t) : t.ended = false := by
  obtain ⟨r, -, rfl⟩ := launch_eq_ok_iff.mp h
  rfl

/-- The stream gives `n` states and then an error. -/
structure FailsAt (t : Trajectory α) (n : ℕ) (cause : SolverError α) : Prop where
  states : ∀ m < n, ∃ x, t.item m = some (.ok x)
  error : t.item n = some (.error cause)

/-- As long as a stream has given states it has not yet come to its error. -/
theorem FailsAt.le_of_states {n taken : ℕ} {cause : SolverError α} (h : t.FailsAt n cause)
    (hstates : ∀ m < taken, ∃ x, t.item m = some (.ok x)) : taken ≤ n := by
  by_contra hlt
  obtain ⟨x, hx⟩ := hstates n (by omega)
  rw [h.error] at hx
  cases hx

/-- A stream fails at one place, with one error. -/
theorem FailsAt.unique {n n' : ℕ} {cause cause' : SolverError α} (h : t.FailsAt n cause)
    (h' : t.FailsAt n' cause') : n' = n ∧ cause' = cause := by
  obtain rfl : n' = n := le_antisymm (h.le_of_states h'.states) (h'.le_of_states h.states)
  have hcause := h.error.symm.trans h'.error
  cases hcause
  exact ⟨rfl, rfl⟩

/-- A stream that fails later fails at a later place of the whole. -/
theorem FailsAt.of_drop {taken n : ℕ} {cause : SolverError α}
    (hstates : ∀ m < taken, ∃ x, t.item m = some (.ok x)) (h : (t.drop taken).FailsAt n cause) :
    t.FailsAt (taken + n) cause := by
  constructor
  · intro m hm
    by_cases hlt : m < taken
    · exact hstates m hlt
    · obtain ⟨x, hx⟩ := h.states (m - taken) (by omega)
      rw [item_drop, Nat.add_sub_cancel' (by omega)] at hx
      exact ⟨x, hx⟩
  · rw [← item_drop]
    exact h.error

end

/-- The items `taken, .., taken + count - 1` of a stream are these states. -/
def Gives (t : Trajectory Float) (taken count : ℕ) (states : List (State Float)) : Prop :=
  (List.range count).map (fun i => t.item (taken + i)) = states.map fun x => some (.ok x)

variable {t : Trajectory Float}

/-- No items are no states. -/
theorem gives_zero (t : Trajectory Float) (taken : ℕ) : t.Gives taken 0 [] := rfl

/-- The states that come next in the rest of a stream stand further on in the whole. -/
theorem Gives.of_drop {taken count : ℕ} {states : List (State Float)}
    (h : (t.drop taken).Gives 0 count states) : t.Gives taken count states := by
  unfold Gives at *
  rw [← h]
  apply List.map_congr_left
  intro i _
  rw [item_drop, Nat.zero_add]

/-- Two successive runs of states make one. -/
theorem Gives.append {taken count count' : ℕ} {states states' : List (State Float)}
    (h : t.Gives taken count states) (h' : t.Gives (taken + count) count' states') :
    t.Gives taken (count + count') (states ++ states') := by
  unfold Gives at *
  rw [List.range_add, List.map_append, List.map_append, List.map_map, h, ← h']
  congr 1
  apply List.map_congr_left
  intro i _
  simp [Nat.add_assoc]

/-- There are as many states as were asked for. -/
theorem Gives.length_eq {taken count : ℕ} {states : List (State Float)}
    (h : t.Gives taken count states) : states.length = count := by
  have hlength := congrArg List.length h
  simpa using hlength.symm

/-- Every item of a run of states is a state. -/
theorem Gives.exists_state {count : ℕ} {states : List (State Float)} (h : t.Gives 0 count states) :
    ∀ m < count, ∃ x, t.item m = some (.ok x) := by
  intro m hm
  have hmem : t.item (0 + m) ∈ states.map fun x => some (Except.ok x) := by
    rw [← h]
    exact List.mem_map_of_mem (List.mem_range.mpr hm)
  obtain ⟨x, -, hx⟩ := List.mem_map.mp hmem
  rw [Nat.zero_add] at hx
  exact ⟨x, hx.symm⟩

end Trajectory

/-- The batch that a call has given, if it has. -/
def Outcome.batch? : Outcome → Option (List (State Float))
  | .states batch => some batch
  | .error _ | .overflow => none

/-- The batches that a row of calls has given. -/
def givenBatches (outcomes : List Outcome) : List (List (State Float)) :=
  outcomes.filterMap Outcome.batch?

/-- The calls of a row for which there is room on a host. -/
def Host.granted (host : Host) (counts : List ℕ) : List ℕ :=
  counts.filter fun count => count ≤ host.room

namespace Simulation

/-- What a simulation answers when states are asked for a number of times. -/
def answers (host : Host) (s : Simulation) : List ℕ → List Outcome
  | [] => []
  | count :: counts =>
    (s.advance host count).outcome :: (s.advance host count).rest.answers host counts

/-- A simulation after states have been asked for a number of times. -/
def after (host : Host) (s : Simulation) (counts : List ℕ) : Simulation :=
  counts.foldl (fun s count => (s.advance host count).rest) s

/-- A simulation that gives the states of a stream, made by the solver of this name. -/
structure Serves (host : Host) (s : Simulation) (name : String) (t : Trajectory Float) :
    Prop where
  /-- As long as no call has failed, the calls for which there is room have given their batches, and
  these put together are the first states of the stream. -/
  batches : ∀ counts, (∀ e, .error e ∉ s.answers host counts) →
    t.Gives 0 (host.granted counts).sum (givenBatches (s.answers host counts)).flatten ∧
      (givenBatches (s.answers host counts)).map List.length = host.granted counts
  /-- As long as no call has failed, the simulation has not stopped. -/
  not_isDone : ∀ counts, (∀ e, .error e ∉ s.answers host counts) →
    (s.after host counts).isDone = false
  /-- The first call that fails is the one in which the stream fails, provided that there is room
  for its batch, and it reports the error of the stream. -/
  fails_iff : ∀ counts, (∀ e, .error e ∉ s.answers host counts) → ∀ count e,
    (((s.after host counts).advance host count).outcome = .error e ↔
      count ≤ host.room ∧ ∃ n cause, t.FailsAt n cause ∧ (host.granted counts).sum ≤ n ∧
        n < (host.granted counts).sum + count ∧ e = .step name cause)
  /-- As long as no call has failed, the calls that do not return are those without room. -/
  overflow_iff : ∀ counts, (∀ e, .error e ∉ s.answers host counts) → ∀ count,
    (((s.after host counts).advance host count).outcome = .overflow ↔ host.room < count)
  /-- A call that does not return leaves the simulation as it was. -/
  rest_of_overflow : ∀ counts count,
    ((s.after host counts).advance host count).outcome = .overflow →
      ((s.after host counts).advance host count).rest = s.after host counts
  /-- Once a call has failed, the simulation has stopped, and stays so. -/
  stopped : ∀ counts e, .error e ∈ s.answers host counts →
    (s.after host counts).isDone = true ∧
      ∀ count, ((s.after host counts).advance host count).outcome = .error .stopped
  /-- It is never reported that the stream has no more states. -/
  message_ne : ∀ counts e, .error e ∈ s.answers host counts →
    ∀ solver, e.message ≠ solver ++ " stopped producing states."

variable {host : Host} {name : String} {s : Simulation} {t : Trajectory Float}

/-! ## One call -/

/-- The states of a batch are pulled, or the error in which the stream fails before. -/
theorem collect_cases (name : String) (count : ℕ) (hended : t.ended = false) :
    (∃ states, (collect name count t).1 = .ok states ∧ t.Gives 0 count states ∧
        (collect name count t).2.2 = some (t.drop count) ∧ (t.drop count).ended = false) ∨
      ∃ n cause, t.FailsAt n cause ∧ n < count ∧
        (collect name count t).1 = .error (.step name cause) ∧
        (collect name count t).2.2 = none := by
  induction count generalizing t with
  | zero => exact .inl ⟨[], rfl, t.gives_zero 0, rfl, hended⟩
  | succ count ih =>
    rw [collect]
    dsimp only
    obtain ⟨x, hitem, hgoes⟩ | ⟨cause, hitem, -⟩ := Trajectory.pull_cases hended
    · have hfirst : t.Gives 0 1 [x] := congrArg (fun item => [item]) hitem
      rw [hitem]
      dsimp only
      obtain ⟨states, hresult, hgives, hrest, hend⟩ | ⟨n, cause, hfails, hn, hresult, hrest⟩ :=
        ih hgoes
      · refine .inl ⟨x :: states, ?_, ?_, hrest, hend⟩
        · rw [hresult]
          rfl
        · rw [Nat.add_comm count 1]
          exact hfirst.append (Trajectory.Gives.of_drop hgives)
      · refine .inr ⟨1 + n, cause, ?_, by omega, ?_, hrest⟩
        · refine Trajectory.FailsAt.of_drop (fun m hm => ⟨x, ?_⟩) hfails
          obtain rfl : m = 0 := by omega
          exact hitem
        · rw [hresult]
          rfl
    · refine .inr ⟨0, cause, ⟨fun m hm => absurd hm m.not_lt_zero, hitem⟩, by omega, ?_, ?_⟩
      · rw [hitem]
      · rw [hitem]

/-- What is left to the simulation is the stream without the states that have been taken. -/
structure IsAt (s : Simulation) (name : String) (t : Trajectory Float) (taken : ℕ) : Prop where
  solverName_eq : s.solverName = name
  trajectory_eq : s.trajectory = some (t.drop taken)
  ended_eq : (t.drop taken).ended = false
  states : ∀ m < taken, ∃ x, t.item m = some (.ok x)

/-- A simulation that stands in its stream has not stopped. -/
theorem IsAt.isDone_eq {taken : ℕ} (h : s.IsAt name t taken) : s.isDone = false := by
  rw [isDone, h.trajectory_eq]
  rfl

/-- A call without room changes nothing.  With room it gives the next states and moves on, or the
stream fails in it and the simulation stops. -/
theorem IsAt.advance_cases {taken : ℕ} (h : s.IsAt name t taken) (host : Host) (count : ℕ) :
    (host.room < count ∧ (s.advance host count).outcome = .overflow ∧
        (s.advance host count).rest = s) ∨
      (∃ states, count ≤ host.room ∧ (s.advance host count).outcome = .states states ∧
        t.Gives taken count states ∧
        (s.advance host count).rest.IsAt name t (taken + count)) ∨
      ∃ n cause, count ≤ host.room ∧ t.FailsAt n cause ∧ taken ≤ n ∧ n < taken + count ∧
        (s.advance host count).outcome = .error (.step name cause) ∧
        (s.advance host count).rest.trajectory = none := by
  obtain ⟨rfl, htrajectory, hended, hstates⟩ := h
  unfold advance
  rw [htrajectory]
  dsimp only
  by_cases hroom : host.room < count
  · simp [hroom]
  simp only [hroom, if_false, false_and, false_or, not_lt.mp hroom, true_and]
  obtain ⟨states, hresult, hgives, hrest, hend⟩ | ⟨n, cause, hfails, hn, hresult, hrest⟩ :=
    collect_cases s.solverName count hended
  · rw [Trajectory.drop_drop] at hrest hend
    refine .inl ⟨states, ?_, hgives.of_drop, rfl, hrest, hend, ?_⟩
    · simp [hresult, Outcome.ofResult]
    intro m hm
    by_cases hlt : m < taken
    · exact hstates m hlt
    · obtain ⟨x, hx⟩ := hgives.exists_state (m - taken) (by omega)
      rw [Trajectory.item_drop, Nat.add_sub_cancel' (by omega)] at hx
      exact ⟨x, hx⟩
  · refine .inr ⟨taken + n, cause, hfails.of_drop hstates, by omega, by omega, ?_, hrest⟩
    simp [hresult, Outcome.ofResult]

/-- A simulation that has stopped says so, whether or not there is room. -/
theorem advance_of_trajectory_eq_none (h : s.trajectory = none) (host : Host) (count : ℕ) :
    (s.advance host count).outcome = .error .stopped ∧ (s.advance host count).rest = s := by
  simp [advance, h]

/-- A call that does not return leaves the simulation as it was. -/
theorem rest_of_overflow {count : ℕ} (h : (s.advance host count).outcome = .overflow) :
    (s.advance host count).rest = s := by
  unfold advance at *
  cases htrajectory : s.trajectory with
  | none => simp
  | some t =>
    by_cases hroom : host.room < count
    · simp [hroom]
    · cases hresult : (collect s.solverName count t).1 with
      | ok states => simp [htrajectory, hroom, hresult, Outcome.ofResult] at h
      | error e => simp [htrajectory, hroom, hresult, Outcome.ofResult] at h

/-! ## Rows of calls -/

/-- A row of calls is made by making the first and then the others. -/
theorem after_cons (host : Host) (s : Simulation) (count : ℕ) (counts : List ℕ) :
    s.after host (count :: counts) = (s.advance host count).rest.after host counts := rfl

/-- A simulation that has stopped answers every call in the same way. -/
theorem answers_of_trajectory_eq_none (h : s.trajectory = none) (host : Host) (counts : List ℕ) :
    s.answers host counts = List.replicate counts.length (.error .stopped) ∧
      s.after host counts = s := by
  induction counts with
  | nil => exact ⟨rfl, rfl⟩
  | cons count counts ih =>
    obtain ⟨hresult, hrest⟩ := advance_of_trajectory_eq_none h host count
    rw [answers, after_cons, hresult, hrest, ih.1, ih.2]
    exact ⟨rfl, rfl⟩

/-- After a row of calls of which none has failed the simulation is behind the states that it has
given. -/
theorem IsAt.of_answers {taken : ℕ} {counts : List ℕ} (h : s.IsAt name t taken)
    (hanswers : ∀ e, .error e ∉ s.answers host counts) :
    (givenBatches (s.answers host counts)).map List.length = host.granted counts ∧
      t.Gives taken (host.granted counts).sum (givenBatches (s.answers host counts)).flatten ∧
      (s.after host counts).IsAt name t (taken + (host.granted counts).sum) := by
  induction counts generalizing s taken with
  | nil => exact ⟨rfl, t.gives_zero taken, h⟩
  | cons count counts ih =>
    simp only [answers, List.mem_cons, not_or] at hanswers
    rw [after_cons]
    obtain ⟨hroom, houtcome, hrest⟩ | ⟨states, hroom, houtcome, hgives, hnext⟩ |
        ⟨n, cause, -, -, -, -, houtcome, -⟩ := h.advance_cases host count
    · -- the call counts for nothing, and the next one finds the simulation where this one did
      have hgranted : host.granted (count :: counts) = host.granted counts := by
        simp [Host.granted, hroom]
      have hgiven : givenBatches (s.answers host (count :: counts)) =
          givenBatches (s.answers host counts) := by
        simp [answers, givenBatches, houtcome, hrest, List.filterMap_cons, Outcome.batch?]
      rw [hrest] at hanswers
      rw [hgranted, hgiven, hrest]
      exact ih h fun e => (hanswers e).2
    · have hgranted : host.granted (count :: counts) = count :: host.granted counts := by
        simp [Host.granted, hroom]
      have hgiven : givenBatches (s.answers host (count :: counts)) =
          states :: givenBatches ((s.advance host count).rest.answers host counts) := by
        simp [answers, givenBatches, houtcome, Outcome.batch?]
      obtain ⟨hlengths, hgives', hafter⟩ := ih hnext fun e => (hanswers e).2
      rw [hgranted, hgiven, List.map_cons, hgives.length_eq, hlengths, List.sum_cons,
        List.flatten_cons, ← Nat.add_assoc]
      exact ⟨rfl, hgives.append hgives', hafter⟩
    · exact absurd houtcome.symm (hanswers _).1

/-- A call fails if there is room for its batch and the stream fails in it. -/
theorem IsAt.fails_iff {taken count : ℕ} {e : SimulationError} (h : s.IsAt name t taken) :
    (s.advance host count).outcome = .error e ↔
      count ≤ host.room ∧ ∃ n cause, t.FailsAt n cause ∧ taken ≤ n ∧ n < taken + count ∧
        e = .step name cause := by
  obtain ⟨hroom, houtcome, -⟩ | ⟨states, -, houtcome, -, hnext⟩ |
      ⟨n, cause, hroom, hfails, hle, hlt, houtcome, -⟩ := h.advance_cases host count
  · simp [houtcome, hroom]
  · rw [houtcome]
    refine iff_of_false nofun ?_
    rintro ⟨-, n, cause, hfails, -, hlt, -⟩
    exact absurd (hfails.le_of_states hnext.states) (Nat.not_le_of_lt hlt)
  · rw [houtcome]
    constructor
    · intro he
      cases he
      exact ⟨hroom, n, cause, hfails, hle, hlt, rfl⟩
    · rintro ⟨-, n', cause', hfails', -, -, rfl⟩
      obtain ⟨-, rfl⟩ := hfails.unique hfails'
      rfl

/-- As long as the simulation has not stopped, a call does not return if there is no room. -/
theorem IsAt.overflow_iff {taken count : ℕ} (h : s.IsAt name t taken) :
    (s.advance host count).outcome = .overflow ↔ host.room < count := by
  obtain ⟨hroom, houtcome, -⟩ | ⟨states, hroom, houtcome, -⟩ |
      ⟨n, cause, hroom, -, -, -, houtcome, -⟩ := h.advance_cases host count
  · simp [houtcome, hroom]
  · simp [houtcome, hroom]
  · simp [houtcome, hroom]

/-- Once a call has failed, the simulation has stopped. -/
theorem IsAt.stopped {taken : ℕ} {counts : List ℕ} {e : SimulationError}
    (h : s.IsAt name t taken) (he : .error e ∈ s.answers host counts) :
    (s.after host counts).trajectory = none ∧ (e = .stopped ∨ ∃ cause, e = .step name cause) := by
  induction counts generalizing s taken with
  | nil => simp [answers] at he
  | cons count counts ih =>
    rw [answers, List.mem_cons] at he
    rw [after_cons]
    obtain ⟨-, houtcome, hrest⟩ | ⟨states, -, houtcome, -, hnext⟩ |
        ⟨n, cause, -, -, -, -, houtcome, hrest⟩ := h.advance_cases host count
    · rw [houtcome, hrest] at he
      rw [hrest]
      exact ih h (he.resolve_left nofun)
    · rw [houtcome] at he
      exact ih hnext (he.resolve_left nofun)
    · obtain ⟨hanswers, hafter⟩ := answers_of_trajectory_eq_none hrest host counts
      rw [houtcome, hanswers, List.mem_replicate] at he
      refine ⟨by rw [hafter, hrest], ?_⟩
      obtain he | ⟨-, he⟩ := he
      · cases he
        exact .inr ⟨cause, rfl⟩
      · cases he
        exact .inl rfl

/-- A simulation before the first item of a stream serves it. -/
theorem IsAt.serves (h : s.IsAt name t 0) (host : Host) : s.Serves host name t where
  batches counts hanswers := by
    obtain ⟨hlengths, hgives, -⟩ := h.of_answers hanswers
    exact ⟨hgives, hlengths⟩
  not_isDone counts hanswers := (h.of_answers hanswers).2.2.isDone_eq
  fails_iff counts hanswers count e := by
    obtain ⟨-, -, hat⟩ := h.of_answers hanswers
    rw [Nat.zero_add] at hat
    exact hat.fails_iff
  overflow_iff counts hanswers count := (h.of_answers hanswers).2.2.overflow_iff
  rest_of_overflow counts count := rest_of_overflow
  stopped counts e he := by
    obtain ⟨hafter, -⟩ := h.stopped he
    refine ⟨?_, fun count => (advance_of_trajectory_eq_none hafter host count).1⟩
    rw [isDone, hafter]
    rfl
  message_ne counts e he solver := by
    obtain ⟨-, rfl | ⟨cause, rfl⟩⟩ := h.stopped he
    · exact SimulationError.stopped_message_ne solver
    · exact SimulationError.step_message_ne name solver cause

/-! ## Started simulations -/

variable {request : SimulationRequest} {settings : Settings} {sim : Simulation}

/-- What a simulation consists of once it has started. -/
theorem exists_launch_of_start (h : (start request settings).result = .ok sim) :
    ∃ system catalogue solver t,
      Equations.ofSources request.equations settings = .ok system ∧
      Catalogue.standard settings.newton = .ok catalogue ∧
      (catalogue.build request.solver request.stages).result = .ok solver ∧
      (Trajectory.launch solver system.toField
        (State.ofEntries request.start (system.names.zip request.initialValues))
        request.step).result = .ok t ∧
      sim = ⟨system.names, solver.description.name, some t⟩ := by
  unfold start at h
  obtain ⟨-, -, h⟩ := Attempt.result_bind_eq_ok_iff.mp h
  obtain ⟨system, hsystem, h⟩ := Attempt.result_bind_eq_ok_iff.mp h
  obtain ⟨-, -, h⟩ := Attempt.result_bind_eq_ok_iff.mp h
  obtain ⟨catalogue, hcatalogue, h⟩ := Attempt.result_bind_eq_ok_iff.mp h
  obtain ⟨solver, hsolver, h⟩ := Attempt.result_bind_eq_ok_iff.mp h
  obtain ⟨t, ht, h⟩ := Attempt.result_bind_eq_ok_iff.mp h
  obtain ⟨-, -, h⟩ := Attempt.result_bind_eq_ok_iff.mp h
  cases h
  exact ⟨system, catalogue, solver, t, mapError_eq_ok_iff.mp hsystem,
    mapError_eq_ok_iff.mp hcatalogue, mapError_eq_ok_iff.mp hsolver, mapError_eq_ok_iff.mp ht, rfl⟩

/-- A simulation that has started serves the stream of its solver, from the initial state of its
request, however its states are divided into batches and whatever the host has room for. -/
theorem serves_of_start (host : Host) (request : SimulationRequest) (settings : Settings)
    (sim : Simulation) (h : (start request settings).result = .ok sim) :
    ∃ system catalogue solver t,
      Equations.ofSources request.equations settings = .ok system ∧
      Catalogue.standard settings.newton = .ok catalogue ∧
      (catalogue.build request.solver request.stages).result = .ok solver ∧
      (Trajectory.launch solver system.toField
        (State.ofEntries request.start (system.names.zip request.initialValues))
        request.step).result = .ok t ∧
      sim.Serves host solver.description.name t := by
  obtain ⟨system, catalogue, solver, t, hsystem, hcatalogue, hsolver, hlaunch, rfl⟩ :=
    exists_launch_of_start h
  refine ⟨system, catalogue, solver, t, hsystem, hcatalogue, hsolver, hlaunch, ?_⟩
  refine IsAt.serves ⟨rfl, rfl, Trajectory.ended_of_launch hlaunch, ?_⟩ host
  exact fun m hm => absurd hm m.not_lt_zero

/-- The decay with a step that extrapolation cannot divide. -/
def smallestRequest : SimulationRequest :=
  { decayRequest with solver := "Explicit Euler", step := Trajectory.smallestStep, stages := 2 }

/-- The decay with the smallest step starts, and its stream fails before the first state. -/
theorem start_smallestRequest : ∃ t, (start smallestRequest {}).result =
    .ok ⟨["x"], "Explicit Euler (2 stages)", some t⟩ ∧ t.FailsAt 0 (.invalidStep 0) := by
  have hcan : CanStart smallestRequest {} :=
    { canStart_decayRequest with
      stages := by decide
      solver := ⟨_, rfl, .inr (by decide)⟩
      step := by decide }
  obtain ⟨-, sim, hsim⟩ | ⟨e, hrefusal, -⟩ := start_cases smallestRequest {}
  · obtain ⟨system, catalogue, solver, t, hsystem, hcatalogue, hsolver, hlaunch, rfl⟩ :=
      exists_launch_of_start hsim
    cases hsystem.symm.trans Equations.ofSources_decay
    cases hcatalogue
    cases hsolver
    cases hlaunch
    exact ⟨_, hsim, fun m hm => absurd hm m.not_lt_zero, rfl⟩
  · exact absurd hcan hrefusal.not_canStart

/-- An empty batch can be taken from the decay with the smallest step.  A call without room leaves
it so, the next call fails with the first state, and every call after it finds the simulation
stopped. -/
theorem serves_smallestRequest :
    ∃ sim name t, (start smallestRequest {}).result = .ok sim ∧ sim.Serves .browser name t ∧
      sim.answers .browser [0, 67108864, 3, 67108864] =
        [.states [], .overflow, .error (.step "Explicit Euler (2 stages)" (.invalidStep 0)),
          .error .stopped] := by
  obtain ⟨t, hsim, hfails⟩ := start_smallestRequest
  obtain ⟨-, -, solver, t', -, -, -, -, hserves⟩ :=
    serves_of_start .browser smallestRequest {} _ hsim
  have hpull : t.pull.item = some (.error (.invalidStep 0)) := hfails.error
  have hroom : Host.browser.room = 67108863 := by decide
  refine ⟨_, _, t', hsim, hserves, ?_⟩
  simp [answers, advance, collect, hpull, hroom, Outcome.ofResult]

/-- The error of a stream is not reported by a call in which the stream fails, if there is no room
for the batch. -/
theorem exists_overflow_before_error :
    ∃ sim t, (start smallestRequest {}).result = .ok sim ∧ sim.trajectory = some t ∧
      t.FailsAt 0 (.invalidStep 0) ∧
      (sim.advance .native 4611686018427387904).outcome = .overflow ∧
      (sim.advance .native 4611686018427387904).rest.isDone = false := by
  obtain ⟨t, hsim, hfails⟩ := start_smallestRequest
  have hroom : Host.native.room < 4611686018427387904 := by decide
  refine ⟨_, t, hsim, rfl, hfails, ?_, ?_⟩
  · simp [advance, hroom]
  · simp [advance, hroom, isDone]

end Simulation

end Fluxion
