import Fluxion.Journal
import Fluxion.Solver.Basic

/-!
# Runs

What a solver does on a vector field, one step after the other: the parts that steps are made of,
and the stream of states.
-/

set_option autoImplicit false

namespace Fluxion

/-! ## Extrapolation to a zero step

Values that were computed with `c_1`, `c_2`, and so on steps are combined to the value that a
vanishing step would give.  Each column of the table is shorter by one than the column before,
and combines neighbours in it with the ratio of the numbers of steps behind them.
-/

section

variable {α : Type} [Arithmetic α]

/-- Combines two neighbours of a column, of which `fine` was computed with `high` steps and
`coarse`, through the columns before, with `low` steps. -/
def nevilleEntry (exponent : Int) (low high : Nat) (coarse fine : α) : α :=
  fine + (fine - coarse) / (signedPower ((high : α) / (low : α)) exponent - one)

/-- The column behind a column, given the numbers of steps `lows` of the first column and those
of them, `highs`, that remain for this one. -/
def nevilleColumn (exponent : Int) (lows highs : List Nat) (column : List α) : List α :=
  ((lows.zip highs).zip (column.zip column.tail)).map fun ((low, high), (coarse, fine)) =>
    nevilleEntry exponent low high coarse fine

/-- The last entry of the table. -/
def neville (coefficients : List Nat) (exponent : Int) (values : List α) : α :=
  let last := (List.range (values.length - 1)).foldl
    (fun column j => nevilleColumn exponent coefficients (coefficients.drop (j + 1)) column) values
  last.getLast?.getD zero

end

/-! ## Newton's correction of one variable

One equation `v = previous + h * f_i(t, x)` is solved for the i-th variable, the other variables
being held fixed, by Newton's iteration on the derivative of the component with respect to its
own variable.
-/

section

variable {α : Type}

/-- The name of the i-th variable. -/
def VectorField.variableName (field : VectorField α) (i : Nat) : String :=
  field.names.getD i ""

/-- What the settings demand of an iteration that has not come to rest. -/
def NewtonSettings.giveUp (newton : NewtonSettings α) (name : String) (t : α) :
    Attempt α (SolverError α) Unit :=
  match newton.onNonConvergence with
  | .accept => .succeed ()
  | .warn => .announce (.notConverged name newton.maxIterations t)
  | .fail => .fail (.notConverged name newton.maxIterations t)

variable [Arithmetic α]

/-- The correction of the i-th variable at a point: the residual of the equation divided by its
slope. -/
def newtonIncrement (field : VectorField α) (i : Nat) (t h previous : α) (x : List α) : α :=
  let residual := coordinate x i - previous - h * field.component i t x
  let slope := one - h * (field.slope? i i t x).getD zero
  residual / slope

variable [LT α] [DecidableLT α]

/-- Whether a number lies strictly between the negative tolerance and the tolerance. -/
def isWithin (tolerance x : α) : Bool := decide (-tolerance < x) && decide (x < tolerance)

/-- Corrects the i-th variable until a correction is within the tolerance, at most `cap` times.
Says also whether the iteration came to rest. -/
def newtonIterate (field : VectorField α) (i : Nat) (t h previous tolerance : α) (cap : Nat)
    (x : List α) : List α × Bool :=
  match cap with
  | 0 => (x, false)
  | cap + 1 =>
    let increment := newtonIncrement field i t h previous x
    let corrected := x.set i (coordinate x i - increment)
    if isWithin tolerance increment then (corrected, true)
    else newtonIterate field i t h previous tolerance cap corrected

/-- Solves the equation of the i-th variable over a half-step `h` of a step `delta`. -/
def NewtonSettings.correct (newton : NewtonSettings α) (field : VectorField α) (i : Nat)
    (t h delta : α) (x : List α) : Attempt α (SolverError α) (List α) := do
  let (corrected, atRest) := newtonIterate field i t h (coordinate x i)
    (delta * newton.toleranceFactor) newton.maxIterations x
  if atRest then return corrected
  newton.giveUp (field.variableName i) t
  return corrected

end

/-! ## Steps and streams

A solver is launched on a vector field from an initial state with a step, and then advanced one
step at a time.  What has to be remembered between steps is the clock and the values, and for the
leapfrog method the values one step back.  Launching checks everything that depends on the
arguments; only Newton's iteration can make a step fail.

Extrapolation launches its base anew for every step, once for each of its coefficients, from the
state that it has reached itself.
-/

/-- Where a run stands. -/
structure Run (α : Type) where
  clock : Clock α
  values : List α
  /-- The values one step back, if the method needs them and has made a step. -/
  previous : Option (List α) := none
deriving Repr

/-- What the methods do may fail with an error of solvers. -/
abbrev SolverAttempt (α β : Type) := Attempt α (SolverError α) β

namespace Run

variable {α : Type}

/-- The time that a run has reached. -/
def time (r : Run α) : α := r.clock.current.target

/-- The state that a run has reached. -/
def state (r : Run α) (field : VectorField α) : State α := ⟨r.time, field.names, r.values⟩

variable [Arithmetic α]

/-- A run that has made no step.  The step has to be a positive number, and the initial state has
to fit the variables. -/
def start [LT α] [DecidableLT α] [Finiteness α] (field : VectorField α) (initial : State α)
    (step : α) : Except (SolverError α) (Run α) := do
  let clock ← Clock.create step initial.time
  let values ← initial.orderedValues field.names
  return { clock, values }

/-- A run after one more step, with the values that the step led to. -/
def reach (r : Run α) (values : List α) (previous : Option (List α)) : SolverAttempt α (Run α) := do
  let r : Run α := { clock := r.clock.advance, values, previous }
  Attempt.announce (.reached r.time r.values)
  return r

end Run

namespace Solver

variable {α : Type}

/-- The first variable whose equation has no derivative with respect to it. -/
def missingDerivative? (field : VectorField α) (t : α) (x : List α) : Option String :=
  (field.names.zipIdx.find? fun (_, i) => (field.slope? i i t x).isNone).map (·.1)

/-- Advances a run by a number of steps. -/
def advanceBy (next : Run α → SolverAttempt α (Run α)) (count : Nat) (r : Run α) :
    SolverAttempt α (Run α) :=
  match count with
  | 0 => return r
  | count + 1 => do advanceBy next count (← next r)

variable [Arithmetic α]

/-- The values `x + d * f`, coordinate by coordinate. -/
def along (x : List α) (d : α) (rates : List α) : List α :=
  x.zipWith (fun x f => x + d * f) rates

/-- Corrects the variables one after the other, each with the corrected values of those before
it. -/
def implicitHalf (newton : NewtonSettings α) [LT α] [DecidableLT α] (field : VectorField α)
    (t h delta : α) (x : List α) : SolverAttempt α (List α) :=
  (List.range x.length).foldlM (fun x i => newton.correct field i t h delta x) x

/-- Advances the variables one after the other, each with the new values of those before it. -/
def explicitHalf (field : VectorField α) (t h : α) (x : List α) : List α :=
  (List.range x.length).foldl (fun x i => x.set i (coordinate x i + h * field.component i t x)) x

/-- The values that a base reaches when it divides a step into a number of steps of its own. -/
def refine (begin : State α → α → SolverAttempt α (Run α)) (next : Run α → SolverAttempt α (Run α))
    (origin : State α) (delta : α) (count : Nat) : SolverAttempt α (List α) := do
  let r ← begin origin (delta / (count : α))
  if count = 0 then Attempt.fail .exhausted
  return (← advanceBy next count r).values

/-- The values that the runs of an extrapolation combine to: each coordinate is extrapolated on
its own. -/
def combine (coefficients : List Nat) (exponent : Int) (dimension : Nat) (table : List (List α)) :
    List α :=
  (List.range dimension).map fun v =>
    neville coefficients exponent (table.map fun values => coordinate values v)

variable [LT α] [DecidableLT α] [Finiteness α]

/-- Starts a solver on a vector field.  Extrapolation starts its base once, to find what is wrong
with the arguments, and announces the initial state. -/
def launch (field : VectorField α) (initial : State α) (step : α) :
    Solver α → SolverAttempt α (Run α)
  | .euler => do
    let r ← Attempt.ofExcept (Run.start field initial step)
    Attempt.announce (.started "Explicit Euler" r.values.length step)
    return r
  | .midpoint => do
    let r ← Attempt.ofExcept (Run.start field initial step)
    Attempt.announce (.started "Explicit midpoint" r.values.length step)
    return r
  | .stages name _ tableau => do
    let r ← Attempt.ofExcept (Run.start field initial step)
    Attempt.announce (.startedStages name r.values.length tableau.stages step)
    return r
  | .semiImplicit newton => do
    let r ← Attempt.ofExcept (Run.start field initial step)
    match missingDerivative? field initial.time r.values with
    | some name => Attempt.fail (.missingDerivative name)
    | none => Attempt.succeed ()
    Attempt.announce (.startedNewton "Semi-implicit midpoint" r.values.length step newton)
    return r
  | .extrapolation base runs _ => do
    let r ← Attempt.ofExcept (Run.start field initial step)
    let _ ← base.launch field initial step
    Attempt.announce (.extrapolating base.description.name (base.coefficients runs) step)
    Attempt.announce (.reached initial.time r.values)
    return r

/-- Makes one step of a run. -/
def advance (field : VectorField α) : Solver α → Run α → SolverAttempt α (Run α)
  | .euler, r =>
    r.reach (along r.values r.clock.increment (field.rates r.time r.values)) none
  | .midpoint, r =>
    let rates := field.rates r.time r.values
    match r.previous with
    | none => r.reach (along r.values r.clock.increment rates) (some r.values)
    | some back => r.reach (along back (two * r.clock.increment) rates) (some r.values)
  | .stages _ _ tableau, r =>
    r.reach (tableau.advance field r.time r.clock.increment r.values) none
  | .semiImplicit newton, r => do
    let h := r.clock.increment / two
    let middle := r.time + h
    let corrected ← implicitHalf newton field middle h r.clock.increment r.values
    r.reach (explicitHalf field middle h corrected) none
  | .extrapolation base runs _, r => do
    let coefficients := base.coefficients runs
    let table ← coefficients.mapM fun count =>
      refine (fun origin step => base.launch field origin step) (fun r => base.advance field r)
        (r.state field) r.clock.increment count
    r.reach (combine coefficients base.description.exponent r.values.length table) none

end Solver

/-- A run together with what it is a run of.  It ends when a step has failed. -/
structure Trajectory (α : Type) where
  solver : Solver α
  field : VectorField α
  run : Run α
  /-- Whether a step has failed. -/
  ended : Bool := false

/-- What pulling the next state gives: the state or the error that ends the run, or nothing
once it has ended; the events on the way; and the run from then on. -/
structure Pull (α : Type) where
  /-- The state or the error, or nothing. -/
  item : Option (Except (SolverError α) (State α))
  events : List (Event α)
  rest : Trajectory α

namespace Trajectory

variable {α : Type} [Arithmetic α] [LT α] [DecidableLT α] [Finiteness α]

/-- Launches a solver. -/
def launch (solver : Solver α) (field : VectorField α) (initial : State α) (step : α) :
    SolverAttempt α (Trajectory α) := do
  return { solver, field, run := ← solver.launch field initial step }

/-- Pulls the next state. -/
def pull (t : Trajectory α) : Pull α :=
  if t.ended then ⟨none, [], t⟩
  else
    let attempt := t.solver.advance t.field t.run
    match attempt.result with
    | .ok r => ⟨some (.ok (r.state t.field)), attempt.events, { t with run := r }⟩
    | .error e => ⟨some (.error e), attempt.events, { t with ended := true }⟩

end Trajectory

end Fluxion
