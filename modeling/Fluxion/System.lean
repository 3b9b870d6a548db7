import Fluxion.Decimal
import Fluxion.Scalar

/-!
# Systems and their states

What the methods work on: a system of equations as a vector field, a state to start from, a clock
that counts the steps, and the errors that can come up on the way.
-/

set_option autoImplicit false

namespace Fluxion

/-! ## Errors of solvers

Why a method cannot be set up, why it cannot be started on a system, and why it had to stop.
-/

/-- How an initial state fails to fit a system. -/
inductive StateMismatch where
  | count (expected actual : Nat)
  | missing (name : String)
deriving DecidableEq, Repr

/-- The words for a mismatch. -/
def StateMismatch.message : StateMismatch → String
  | .count expected actual =>
    "expected " ++ toString expected ++ " variable(s), got " ++ toString actual
  | .missing name => "missing value for '" ++ name ++ "'"

/-- What keeps a table of coefficients from being an explicit method. -/
inductive TableauFault (α : Type) where
  | shape (rows columns : Nat)
  | weights (given stages : Nat)
  | implicitEntry (entry : α) (row column : Nat)
deriving Repr

/-- The words for a fault of a table. -/
def TableauFault.message : TableauFault Float → String
  | .shape rows columns =>
    "A must be a non-empty square matrix, got " ++ toString rows ++ "x" ++ toString columns
  | .weights given stages =>
    "B has " ++ toString given ++ " weight(s) for " ++ toString stages ++ " stage(s)"
  | .implicitEntry entry row column =>
    "A must be strictly lower triangular, found " ++ Decimal.plain entry ++ " at ("
      ++ toString row ++ ", " ++ toString column ++ ")"

/-- What is wrong with the settings of Newton's iteration. -/
inductive NewtonFault where
  | noIterations
  | tolerance
deriving DecidableEq, Repr

/-- The words for a fault of the settings. -/
def NewtonFault.message : NewtonFault → String
  | .noIterations => "max_iterations must be greater than zero"
  | .tolerance => "tolerance_factor must be positive"

/-- Why a method cannot be set up, started or continued. -/
inductive SolverError (α : Type) where
  | invalidStep (step : α)
  | stateMismatch (cause : StateMismatch)
  | missingDerivative (name : String)
  | invalidStages (stages : Nat)
  | invalidTableau (fault : TableauFault α)
  | invalidNewton (fault : NewtonFault)
  | notConverged (name : String) (iterations : Nat) (time : α)
  | exhausted
deriving Repr

/-- The sentence that reports an error of a solver. -/
def SolverError.message : SolverError Float → String
  | .invalidStep step => "Step size must be positive and finite, got " ++ Decimal.plain step
  | .stateMismatch cause =>
    "Initial state does not match the system variables: " ++ cause.message
  | .missingDerivative name =>
    "Semi-implicit solver requires the Jacobian diagonal entry for '" ++ name ++ "'"
  | .invalidStages stages => "Invalid extrapolation stage count: " ++ toString stages
  | .invalidTableau fault => "Invalid Butcher tableau: " ++ fault.message
  | .invalidNewton fault => "Invalid Newton settings: " ++ fault.message
  | .notConverged name iterations time =>
    "Newton correction for '" ++ name ++ "' did not converge within " ++ toString iterations
      ++ " iterations at t = " ++ Decimal.plain time
  | .exhausted => "Base solver stream ended before reaching the requested step"

/-! ## Vector fields

A system of first-order equations `x' = f(t, x)` as the methods see it: the names of its
variables, the components of the right-hand side, and the partial derivatives that are known.
All indices follow the order of the variables.
-/

/-- A system of first-order equations over named variables. -/
structure VectorField (α : Type) where
  names : List String
  component : Nat → α → List α → α
  /-- The derivative of a component with respect to a variable, if it is known. -/
  slope? : Nat → Nat → α → List α → Option α := fun _ _ _ _ => none

namespace VectorField

variable {α : Type}

/-- The number of variables. -/
def dimension (f : VectorField α) : Nat := f.names.length

/-- The whole right-hand side. -/
def rates (f : VectorField α) (t : α) (x : List α) : List α :=
  (List.range f.dimension).map fun i => f.component i t x

end VectorField

section

variable {α : Type} [NatCast α]

/-- One coordinate of a point. -/
def coordinate (x : List α) (i : Nat) : α := x.getD i zero

end

/-! ## States

The values of named variables at one value of the independent variable.  A state keeps its names
in the order in which they were given, and a name may be given twice; looking up a name finds the
first.
-/

/-- Named values at one value of the independent variable. -/
structure State (α : Type) where
  time : α
  names : List String
  /-- The values, one for each name. -/
  values : List α
deriving BEq, Repr

namespace State

variable {α : Type}

/-- The state with these names and values. -/
def ofEntries (time : α) (entries : List (String × α)) : State α :=
  ⟨time, entries.map (·.1), entries.map (·.2)⟩

/-- The names with their values. -/
def entries (s : State α) : List (String × α) := s.names.zip s.values

/-- The value of a name. -/
def get? (s : State α) (name : String) : Option α :=
  (s.names.idxOf? name).bind fun index => s.values[index]?

/-- The value of a variable, which a state that fits a system has. -/
def require (s : State α) (name : String) : Except (SolverError α) α :=
  match s.get? name with
  | some value => .ok value
  | none => .error (.stateMismatch (.missing name))

/-- The values in the order of the variables.  There have to be as many names as variables, and
each variable has to have a value. -/
def orderedValues (s : State α) (order : List String) : Except (SolverError α) (List α) :=
  if s.names.length ≠ order.length then
    .error (.stateMismatch (.count order.length s.names.length))
  else order.mapM s.require

end State

/-! ## The clock

The independent variable moves in equal increments.  Its n-th value is `start + n * increment`,
computed afresh each time and never by repeated addition, so that it does not depend on
roundings that have accumulated.
-/

/-- One advance of the independent variable. -/
structure Step (α : Type) where
  origin : α
  target : α
  delta : α
deriving Repr

/-- A clock that has made some number of steps. -/
structure Clock (α : Type) where
  /-- The first value. -/
  start : α
  increment : α
  count : Nat
  /-- The last step. -/
  current : Step α
deriving Repr

namespace Clock

variable {α : Type} [Arithmetic α]

/-- A clock that has made no step yet.  The increment has to be a positive number. -/
def create [LT α] [DecidableLT α] [Finiteness α] (increment start : α) :
    Except (SolverError α) (Clock α) :=
  if IsPositive increment then .ok ⟨start, increment, 0, ⟨start, start, zero⟩⟩
  else .error (.invalidStep increment)

/-- The value after a number of steps. -/
def valueAt (c : Clock α) (n : Nat) : α := c.start + (n : α) * c.increment

/-- Makes one step. -/
def advance (c : Clock α) : Clock α :=
  { c with
    count := c.count + 1
    current := ⟨c.current.target, c.valueAt (c.count + 1), c.increment⟩ }

end Clock

end Fluxion
