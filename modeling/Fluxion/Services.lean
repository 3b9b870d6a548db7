import Fluxion.Equations
import Fluxion.Expr.Derivative
import Fluxion.Formula
import Fluxion.Solver.Catalogue
import Fluxion.Statement

/-!
# Services

What a user interface asks for: operations on a single text, and simulations.
-/

set_option autoImplicit false

namespace Fluxion.Source

/-! ## Services on source texts

What an editor asks for: the canonical text of a statement, the text of a derivative, and the
value of an expression at named arguments.
-/

/-- Why a service cannot be given. -/
inductive ServiceError where
  | parse (cause : ParseError)
  | derivation (cause : DerivationError Float)
  | count (names values : Nat)
  | formula (source : String) (cause : FormulaError Float)
  | evaluation (cause : EvaluationError)
deriving Repr

/-- The sentence that reports why a service cannot be given. -/
def ServiceError.message : ServiceError → String
  | .parse cause => cause.message
  | .derivation cause => cause.message
  | .count names values =>
    "Got " ++ toString names ++ " variable name(s) but " ++ toString values ++ " value(s)."
  | .formula source cause => "Cannot evaluate '" ++ source ++ "'.: " ++ cause.message
  | .evaluation cause => cause.message

/-- The canonical text of a statement. -/
def format (source : String) : Except ServiceError String := do
  let statement ← (Statement.parse source).mapError .parse
  return statement.text

/-- The text of the derivative of an expression with respect to a variable.  Markers in the
expression are derivatives with respect to the same variable, and are taken first. -/
def differentiate (source name : String) : Except ServiceError String := do
  let e ← (Expr.parse source).mapError .parse
  let expanded ← (e.expandMarkers name).mapError .derivation
  let slope ← (expanded.derivative name).mapError .derivation
  return slope.text

/-- The value of an expression at arguments given by name. -/
def evaluate (source : String) (names : List String) (values : List Float) :
    Except ServiceError Float := do
  if names.length ≠ values.length then throw (.count names.length values.length)
  let e ← (Expr.parse source).mapError .parse
  let f ← (Formula.build .interpreted e).mapError (.formula source)
  (f.evaluateNamed (.ofList (names.zip values))).mapError .evaluation

end Fluxion.Source

namespace Fluxion

/-! ## Simulations

A simulation is a system given by the texts of its equations, with a solver from the catalogue
running on it.  Its states are taken in batches.  Once a batch has met an error the simulation
has stopped, and stays stopped.

The room for a whole batch is made before its first state is pulled.  A call that asks for more
states than a list can hold on the host does not return, whatever the stream would have given.
For a list that the host can hold the memory is taken to be there.
-/

/-- What a simulation is started from. -/
structure SimulationRequest where
  /-- The texts of the equations, one for each variable. -/
  equations : List String
  /-- The initial values in the order of the equations. -/
  initialValues : List Float
  /-- The first value of the independent variable. -/
  start : Float
  solver : String
  step : Float
  /-- The stages of the extrapolation, one for the solver alone. -/
  stages : Nat
deriving Repr

/-- Why a simulation cannot be started or has no states to give. -/
inductive SimulationError where
  | settings (cause : SettingsError)
  | equations (cause : EquationsError Float)
  | initialValues (expected actual : Nat)
  | catalogue (cause : CatalogueError Float)
  | launch (solver : String) (cause : SolverError Float)
  | step (solver : String) (cause : SolverError Float)
  | exhausted (solver : String)
  | stopped
deriving Repr

/-- The sentence that reports an error of a simulation. -/
def SimulationError.message : SimulationError → String
  | .settings cause => cause.message
  | .equations cause => "Failed to build the equation system.: " ++ cause.message
  | .initialValues expected actual =>
    "Expected " ++ toString expected ++ " initial value(s), got " ++ toString actual ++ "."
  | .catalogue cause => cause.message
  | .launch solver cause => "Failed to start " ++ solver ++ ".: " ++ cause.message
  | .step solver cause => solver ++ " failed.: " ++ cause.message
  | .exhausted solver => solver ++ " stopped producing states."
  | .stopped => "Simulation has stopped."

/-- A simulation that has been started. -/
structure Simulation where
  /-- The variables, in the order of the equations. -/
  names : List String
  solverName : String
  /-- The run, unless it has met an error. -/
  trajectory : Option (Trajectory Float)

/-- The machine on which a simulation runs, as far as it bounds the length of a list. -/
structure Host where
  /-- The width of an address. -/
  addressBits : Nat
  /-- What one state takes in a list of states, without what it refers to. -/
  stateBytes : Nat
  stateBytes_pos : 0 < stateBytes

namespace Host

/-- A machine with addresses of 64 bits. -/
def native : Host := ⟨64, 48, by decide⟩

/-- A machine with addresses of 32 bits, such as a browser provides. -/
def browser : Host := ⟨32, 32, by decide⟩

/-- The most states for which a list can make room: it takes less than half of the addresses. -/
def room (host : Host) : Nat := (Nat.pow 2 (host.addressBits - 1) - 1) / host.stateBytes

end Host

/-- How a call ends that asks a simulation for states. -/
inductive Outcome where
  | states (states : List (State Float))
  | error (cause : SimulationError)
  /-- There is no room for a list of so many states, and the call does not return. -/
  | overflow

/-- The end of a call that returns. -/
def Outcome.ofResult : Except SimulationError (List (State Float)) → Outcome
  | .ok batch => .states batch
  | .error e => .error e

/-- What a simulation gives when states are asked for: how the call ends, the events on the way,
and the simulation from then on. -/
structure Batch where
  outcome : Outcome
  events : List (Event Float)
  rest : Simulation

namespace Simulation

/-- What starting a simulation does. -/
abbrev Start := Attempt Float SimulationError

/-- Refuses a wrong number of initial values. -/
def checkInitial (names : List String) (values : List Float) :
    Except SimulationError Unit :=
  if values.length ≠ names.length then
    .error (.initialValues names.length values.length)
  else .ok ()

/-- Starts a simulation: checks the settings, builds the system, finds the solver and launches
it. -/
def start (request : SimulationRequest) (settings : Settings) : Start Simulation := do
  Attempt.ofExcept (settings.check.mapError .settings)
  let s ← Attempt.ofExcept ((Equations.ofSources request.equations settings).mapError .equations)
  Attempt.ofExcept (checkInitial s.names request.initialValues)
  let catalogue ← Attempt.ofExcept ((Catalogue.standard settings.newton).mapError .catalogue)
  let solver ← (catalogue.build request.solver request.stages).mapError .catalogue
  let name := solver.description.name
  let initial := State.ofEntries request.start (s.names.zip request.initialValues)
  let trajectory ← (Trajectory.launch solver s.toField initial request.step).mapError
    (.launch name)
  Attempt.announce (.simulationStarted name s.names.length)
  return ⟨s.names, name, some trajectory⟩

/-- Whether a simulation has stopped. -/
def isDone (s : Simulation) : Bool := s.trajectory.isNone

/-- Pulls states from a run until there are enough of them or an error is met. -/
def collect (name : String) (count : Nat) (t : Trajectory Float) :
    Except SimulationError (List (State Float)) × List (Event Float) × Option (Trajectory Float) :=
  match count with
  | 0 => (.ok [], [], some t)
  | count + 1 =>
    let pull := t.pull
    match pull.item with
    | none => (.error (.exhausted name), pull.events, none)
    | some (.error e) => (.error (.step name e), pull.events, none)
    | some (.ok state) =>
      let (result, events, rest) := collect name count pull.rest
      (result.map (state :: ·), pull.events ++ events, rest)

/-- Takes the next states of a simulation.  An error stops it, and the states that came before
the error in the same batch are lost.  Without room for the batch nothing is pulled. -/
def advance (host : Host) (s : Simulation) (count : Nat) : Batch :=
  match s.trajectory with
  | none => ⟨.error .stopped, [], s⟩
  | some t =>
    if host.room < count then ⟨.overflow, [], s⟩
    else
      let (result, events, rest) := collect s.solverName count t
      ⟨.ofResult result, events, { s with trajectory := rest }⟩

end Simulation

end Fluxion
